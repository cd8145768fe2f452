/-!
# Operations of the machine

What an instruction does, apart from its operands. Several instructions share an operation, and each
operation is known under one main name.
-/

namespace Dalvik

inductive Operator where
  | add | sub | mul | floorDiv | trueDiv | mod | and | or | xor | shl | shr
  deriving DecidableEq, Repr, Inhabited

inductive Relation where
  | le | ge | gt | lt | ne | eq
  deriving DecidableEq, Repr, Inhabited

inductive Operation where
  | idle
  | returnVoid
  /-- Ends the method with the value of a register. -/
  | returnValue
  | jump
  | invoke
  | throwError
  | keepBits (mask : Nat)
  | toByte
  | toFloat
  | staticPut
  | staticGet
  | fieldGet
  | fieldPut
  | loadConst
  | loadClass
  | moveResult
  | move
  | moveError
  | newInstance
  | newArray
  | checkCast
  | packedSwitch
  | sparseSwitch
  | branch (r : Relation)
  | branchZero (r : Relation)
  | arrayLength
  | fillArray
  | arrayGet
  | arrayPut
  | negate
  | complement
  | inPlace (op : Operator)
  | binary (op : Operator)
  /-- Combines a register with a literal cut to the bits of a mask. -/
  | withLiteral (op : Operator) (mask : Nat)
  /-- Subtracts a register from a literal cut to the bits of a mask. -/
  | literalMinus (mask : Nat)
  | noteError
  deriving DecidableEq, Repr, Inhabited

namespace Operation

/-- The operations with their main names and their further names. -/
def all : List (String × Operation × List String) :=
  [("nop", .idle, []),
   ("return-void", .returnVoid, ["return-void-barrier", "return-void-no-barrier"]),
   ("return-object", .returnValue, ["return", "return-wide"]),
   ("goto", .jump, ["goto/16", "goto/32"]),
   ("invoke", .invoke, ["invoke-direct", "invoke-static", "invoke-virtual"]),
   ("throw", .throwError, []),
   ("int-to-long", .keepBits 0xFFFFFFFFFFFFFFFF, []),
   ("int-to-int", .keepBits 0xFFFFFFFF, ["long-to-int"]),
   ("int-to-char", .keepBits 0xFFFF, ["int-to-short"]),
   ("int-to-byte", .toByte, []),
   ("int-to-float", .toFloat, ["int-to-double"]),
   ("sput-object", .staticPut,
     ["sput", "sput-boolean", "sput-short", "sput-char", "sput-byte", "sput-object-volatile",
      "sput-wide", "sput-wide-volatile"]),
   ("sget-object", .staticGet,
     ["sget", "sget-boolean", "sget-byte", "sget-object-volatile", "sget-volatile", "sget-wide",
      "sget-wide-volatile", "sget-char"]),
   ("iget-object", .fieldGet,
     ["iget-boolean", "iget-byte", "iget-char", "iget-short", "iget-volatile", "iget-wide", "iget",
      "iget-object-volatile"]),
   ("iput-object", .fieldPut,
     ["iput", "iput-boolean", "iput-byte", "iput-char", "iput-short", "iput-object-volatile",
      "iput-volatile", "iput-wide"]),
   ("const", .loadConst,
     ["const-string", "const-string/jumbo", "const/16", "const/4", "const-wide", "const-wide/high16",
      "const-wide/32"]),
   ("const-class", .loadClass, []),
   ("move-result", .moveResult, ["move-result-object"]),
   ("move", .move, []),
   ("move-object", .move, ["move-object/16", "move-object/from16"]),
   ("move-exception", .moveError, []),
   ("new-instance", .newInstance, []),
   ("new-array", .newArray, []),
   ("check-cast", .checkCast, ["instance-of"]),
   ("packed-switch", .packedSwitch, []),
   ("sparse-switch", .sparseSwitch, []),
   ("if-le", .branch .le, []),
   ("if-ge", .branch .ge, []),
   ("if-gez", .branchZero .ge, []),
   ("if-ltz", .branchZero .lt, []),
   ("if-gt", .branch .gt, []),
   ("if-lt", .branch .lt, []),
   ("if-gtz", .branchZero .gt, []),
   ("if-ne", .branch .ne, []),
   ("if-lez", .branchZero .le, []),
   ("if-nez", .branchZero .ne, []),
   ("if-eqz", .branchZero .eq, []),
   ("array-length", .arrayLength, []),
   ("fill-array-data", .fillArray, []),
   ("aget", .arrayGet,
     ["aget-boolean", "aget-byte", "aget-char", "aget-object", "aget-short", "aget-wide"]),
   ("aput", .arrayPut,
     ["aput-boolean", "aput-byte", "aput-char", "aput-object", "aput-short", "aput-wide"]),
   ("neg-int", .negate, ["neg-double", "neg-float", "neg-long"]),
   ("not-int", .complement, ["not-long"]),
   ("or-int/2addr", .inPlace .or, ["or-long/2addr"]),
   ("and-int/2addr", .inPlace .and, ["and-long/2addr"]),
   ("sub-int/2addr", .inPlace .sub, ["sub-double/2addr", "sub-float/2addr", "sub-long/2addr"]),
   ("xor-int/2addr", .inPlace .xor, ["xor-long/2addr"]),
   ("add-int/2addr", .inPlace .add, ["add-double/2addr", "add-float/2addr", "add-long/2addr"]),
   ("div-int/2addr", .inPlace .floorDiv, ["div-long/2addr"]),
   ("div-float/2addr", .inPlace .trueDiv, ["div-double/2addr"]),
   ("shl-int/2addr", .inPlace .shl, ["shl-long/2addr"]),
   ("shr-int/2addr", .inPlace .shr, ["shr-long/2addr", "ushr-int/2addr", "ushr-long/2addr"]),
   ("rem-int/2addr", .inPlace .mod, ["rem-double/2addr", "rem-float/2addr", "rem-long/2addr"]),
   ("mul-int/2addr", .inPlace .mul, ["mul-double/2addr", "mul-float/2addr", "mul-long/2addr"]),
   ("div-int/lit8", .withLiteral .floorDiv 0xFF, []),
   ("div-int/lit16", .withLiteral .floorDiv 0xFFFF, []),
   ("add-int/lit8", .withLiteral .add 0xFF, []),
   ("add-int/lit16", .withLiteral .add 0xFFFF, []),
   ("sub-int/lit8", .withLiteral .sub 0xFF, []),
   ("sub-int/lit16", .withLiteral .sub 0xFFFF, []),
   ("mul-int/lit8", .withLiteral .mul 0xFF, []),
   ("mul-int/lit16", .withLiteral .mul 0xFFFF, []),
   ("rem-int/lit8", .withLiteral .mod 0xFF, []),
   ("rem-int/lit16", .withLiteral .mod 0xFFFF, []),
   ("and-int/lit8", .withLiteral .and 0xFF, []),
   ("and-int/lit16", .withLiteral .and 0xFFFF, []),
   ("or-int/lit8", .withLiteral .or 0xFF, []),
   ("or-int/lit16", .withLiteral .or 0xFFFF, []),
   ("xor-int/lit8", .withLiteral .xor 0xFF, []),
   ("xor-int/lit16", .withLiteral .xor 0xFFFF, []),
   ("shl-int/lit8", .withLiteral .shl 0xFF, []),
   ("shl-int/lit16", .withLiteral .shl 0xFFFF, []),
   ("shr-int/lit8", .withLiteral .shr 0xFF, []),
   ("shr-int/lit16", .withLiteral .shr 0xFFFF, []),
   ("rsub-int/lit8", .literalMinus 0xFF, []),
   ("div-int", .binary .floorDiv, []),
   ("div-float", .binary .trueDiv, ["div-double"]),
   ("add-int", .binary .add, ["add-double", "add-float", "add-long"]),
   ("sub-int", .binary .sub, ["sub-double", "sub-float", "sub-long"]),
   ("rem-int", .binary .mod, ["rem-double", "rem-float", "rem-long"]),
   ("mul-int", .binary .mul, ["mul-double", "mul-float", "mul-long"]),
   ("or-int", .binary .or, ["or-long"]),
   ("and-int", .binary .and, ["and-long"]),
   ("xor-int", .binary .xor, ["xor-long"]),
   ("shl-int", .binary .shl, ["shl-long"]),
   ("shr-int", .binary .shr, ["shr-long", "ushr-long", "ushr-int"])]

end Operation

end Dalvik
