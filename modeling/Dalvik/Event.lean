import Dalvik.Datum

/-!
# Events

Reading assembly text delivers a sequence of events. An event has a verb, which says what was met, and
details. The constructs that receive events have one of four shapes, and a shape decides which verbs
are heard.
-/

namespace Dalvik

inductive Verb where
  | comment
  | trailing
  | close
  | classDef
  | superClass
  | implements
  | sourceFile
  | debug
  | field
  | method
  | innerClass
  | annot
  | value
  | array
  | subAnnot
  | enumConst
  | label
  | lineNumber
  | jump
  | instruction
  | parameter
  | restart
  | locals
  | registers
  | localVar
  | prologue
  | catching
  | catchingAll
  | ret
  | call
  | arrayData
  | packedSwitch
  | sparseSwitch
  deriving DecidableEq, Repr, Inhabited

inductive Shape where
  | classDef
  | method
  | field
  | annot
  deriving DecidableEq, Repr, Inhabited

namespace Verb

/-- The verbs that every shape hears. -/
def general : List Verb := [comment, trailing, close]

/-- The verbs that only a class hears, with the annotations that it shares with fields and methods. -/
def ofClass : List Verb :=
  [classDef, superClass, implements, sourceFile, debug, field, method, innerClass, annot]

def ofMethod : List Verb :=
  [catching, catchingAll, parameter, annot, locals, registers, lineNumber, label, call, ret,
   instruction, jump, packedSwitch, arrayData, localVar, sparseSwitch, prologue, restart]

def ofAnnot : List Verb := [value, array, subAnnot, enumConst]

end Verb

def Shape.hears (s : Shape) (v : Verb) : Bool :=
  Verb.general.contains v || match s with
    | classDef => Verb.ofClass.contains v
    | method => Verb.ofMethod.contains v
    | field => v == .annot
    | annot => Verb.ofAnnot.contains v

inductive Event where
  | comment (text : Datum)
  | trailing (text : Datum)
  | close
  | classDef (name flags : Datum)
  | superClass (name : Datum)
  | implements (name : Datum)
  | sourceFile (name : Datum)
  | debug (enabled : Datum)
  | field (name flags type : Datum) (value? : Option Datum)
  | method (name flags parameters result : Datum)
  | innerClass (name flags : Datum)
  | annot (flags type : Datum)
  | value (name value : Datum)
  | array (name values : Datum)
  | subAnnot (name flags type : Datum)
  | enumConst (name owner constant type : Datum)
  | label (name : Datum)
  | lineNumber (number : Datum)
  | jump (label : Datum)
  | instruction (name operands : Datum)
  | parameter (register name : Datum)
  | restart (register : Datum)
  | locals (count : Datum)
  | registers (count : Datum)
  | localVar (register name type fullType : Datum)
  | prologue
  | catching (type labels : Datum)
  | catchingAll (type labels : Datum)
  | ret (variant operands : Datum)
  | call (variant operands owner method : Datum)
  | arrayData (width values : Datum)
  | packedSwitch (first labels : Datum)
  | sparseSwitch (branches : Datum)
  deriving Repr, Inhabited, BEq

namespace Event

def verb : Event → Verb
  | comment _ => .comment
  | trailing _ => .trailing
  | close => .close
  | classDef .. => .classDef
  | superClass _ => .superClass
  | implements _ => .implements
  | sourceFile _ => .sourceFile
  | debug _ => .debug
  | field .. => .field
  | method .. => .method
  | innerClass .. => .innerClass
  | annot .. => .annot
  | value .. => .value
  | array .. => .array
  | subAnnot .. => .subAnnot
  | enumConst .. => .enumConst
  | label _ => .label
  | lineNumber _ => .lineNumber
  | jump _ => .jump
  | instruction .. => .instruction
  | parameter .. => .parameter
  | restart _ => .restart
  | locals _ => .locals
  | registers _ => .registers
  | localVar .. => .localVar
  | prologue => .prologue
  | catching .. => .catching
  | catchingAll .. => .catchingAll
  | ret .. => .ret
  | call .. => .call
  | arrayData .. => .arrayData
  | packedSwitch .. => .packedSwitch
  | sparseSwitch _ => .sparseSwitch

def details : Event → List Datum
  | comment t | trailing t => [t]
  | close | prologue => []
  | superClass a | implements a | sourceFile a | debug a | label a | lineNumber a | jump a | restart a
  | locals a | registers a | sparseSwitch a => [a]
  | classDef a b | innerClass a b | annot a b | value a b | array a b | instruction a b | parameter a b
  | catching a b | catchingAll a b | ret a b | arrayData a b | packedSwitch a b => [a, b]
  | subAnnot a b c => [a, b, c]
  | field a b c none => [a, b, c]
  | field a b c (some d) | method a b c d | enumConst a b c d | localVar a b c d | call a b c d =>
    [a, b, c, d]

/-- The event of a verb with given details, if their number is right. -/
def ofDetails? : Verb → List Datum → Option Event
  | .comment, [a] => some (comment a)
  | .trailing, [a] => some (trailing a)
  | .close, [] => some close
  | .classDef, [a, b] => some (classDef a b)
  | .superClass, [a] => some (superClass a)
  | .implements, [a] => some (implements a)
  | .sourceFile, [a] => some (sourceFile a)
  | .debug, [a] => some (debug a)
  | .field, [a, b, c] => some (field a b c none)
  | .field, [a, b, c, d] => some (field a b c (some d))
  | .method, [a, b, c, d] => some (method a b c d)
  | .innerClass, [a, b] => some (innerClass a b)
  | .annot, [a, b] => some (annot a b)
  | .value, [a, b] => some (value a b)
  | .array, [a, b] => some (array a b)
  | .subAnnot, [a, b, c] => some (subAnnot a b c)
  | .enumConst, [a, b, c, d] => some (enumConst a b c d)
  | .label, [a] => some (label a)
  | .lineNumber, [a] => some (lineNumber a)
  | .jump, [a] => some (jump a)
  | .instruction, [a, b] => some (instruction a b)
  | .parameter, [a, b] => some (parameter a b)
  | .restart, [a] => some (restart a)
  | .locals, [a] => some (locals a)
  | .registers, [a] => some (registers a)
  | .localVar, [a, b, c, d] => some (localVar a b c d)
  | .prologue, [] => some prologue
  | .catching, [a, b] => some (catching a b)
  | .catchingAll, [a, b] => some (catchingAll a b)
  | .ret, [a, b] => some (ret a b)
  | .call, [a, b, c, d] => some (call a b c d)
  | .arrayData, [a, b] => some (arrayData a b)
  | .packedSwitch, [a, b] => some (packedSwitch a b)
  | .sparseSwitch, [a] => some (sparseSwitch a)
  | _, _ => none

end Event

end Dalvik
