import Dalvik.Machine.Member

/-!
# Built-in methods

The methods of a few classes that every program can call without defining them. They take the value of
the first register of the call and nothing else.
-/

namespace Dalvik

inductive Intrinsic where
  | toText
  | itself
  | number
  | classOf
  | nameOf
  /-- The last part of the name of a class or a type. -/
  | simpleNameOf
  | hashText
  deriving DecidableEq, Repr

namespace Intrinsic

def all : List (String × List (String × Intrinsic)) :=
  [("Ljava/lang/Class;",
     [("getSimpleName()Ljava/lang/String;", nameOf), ("getName()Ljava/lang/String;", simpleNameOf)]),
   ("Ljava/lang/Object;",
     [("toString()Ljava/lang/String;", toText), ("<init>()V", itself), ("hashCode()I", number),
      ("getClass()Ljava/lang/Class;", classOf)]),
   ("Ljava/lang/String;", [("hashCode()I", hashText)])]

/-- The sum of the code points, each times a power of 31: the last one once, the one in front of it 31 times. -/
def powerSum (points : List Nat) : Nat :=
  (points.reverse.zipIdx.map fun (c, i) => c * Nat.pow 31 i).foldr (· + ·) 0

/-- The hash of a text: of the sum without a bound, the low 31 bits, less the bit of the sign. -/
def hashPoints (points : List Nat) : Int :=
  let sign := Number.twoPow 31
  ((powerSum points &&& sign - 1 : Nat) : Int) - (powerSum points &&& sign : Nat)

def pointsOf : List Value → Option (List Nat)
  | [] => some []
  | .text ⟨[n]⟩ :: vs => (pointsOf vs).map (n :: ·)
  | _ => none

open Store

def run (f : Intrinsic) (v : Value) : Act Value := do
  match f, v with
  | .toText, v => pure (.text (← plainText v))
  | .itself, v => pure v
  | .number, v => pure (.int (← Store.number (.value v)))
  | .classOf, .object o => pure (.cls (← objectInfo o).cls)
  | .nameOf, .cls c => pure (← classInfo c).name
  | .nameOf, .method m => pure (← methodInfo m).name
  | .nameOf, .field f => pure (.ofString (← fieldInfo f).name)
  | .nameOf, .error e => pure (.ofString (← errorInfo e).name)
  | .simpleNameOf, .cls c => pure (.ofString (← classInfo c).simpleName)
  | .simpleNameOf, .type _ d => pure (.ofString d.simpleName)
  | .hashText, .text t => pure (.int (hashPoints t.points))
  | .hashText, .list i =>
    match pointsOf (← items i) with
    | some ps => pure (.int (hashPoints ps))
    | none => throw .operandType
  | .hashText, .octets [] => pure (.int 0)
  | .hashText, _ => throw .operandType
  | _, _ => throw .noOperation

end Intrinsic

end Dalvik
