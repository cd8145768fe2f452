import Dalvik.Literal

/-!
# Values of the machine

What a register, a field or a list can hold. Lists, objects, members of classes and errors live in the
machine and are referred to by their numbers; a type carries a number as well, because two types are the
same only if they were made together.
-/

namespace Dalvik

inductive Value where
  | null
  | bool (b : Bool)
  | int (n : Int)
  | float (x : Double)
  | text (t : Text)
  | octets (bs : List UInt8)
  | type (serial : Nat) (d : Descriptor)
  | list (id : Nat)
  | object (id : Nat)
  | cls (id : Nat)
  | method (id : Nat)
  | field (id : Nat)
  | annot (id : Nat)
  | overloads (id : Nat)
  | error (id : Nat)
  deriving DecidableEq, Repr, Inhabited

namespace Value

def ofString (s : String) : Value :=
  text (.ofString s)

def typeName : Value → String
  | null => "NoneType"
  | bool _ => "bool"
  | int _ => "int"
  | float _ => "float"
  | text _ => "str"
  | octets _ => "bytes"
  | type _ _ => "smali.base.SVMType"
  | list _ => "list"
  | object _ => "smali.bridge.lang.SmaliObject"
  | cls _ => "smali.bridge.lang.SmaliClass"
  | method _ => "smali.bridge.lang.SmaliMethod"
  | field _ => "smali.bridge.lang.SmaliField"
  | annot _ => "smali.bridge.lang.SmaliAnnotation"
  | overloads _ => "smali.bridge.lang._MethodBroker"
  | error _ => "smali.bridge.errors.ExecutionError"

/-- The integer that a value is; a truth value counts as zero or one. -/
def int? : Value → Option Int
  | int n => some n
  | bool b => some (if b then 1 else 0)
  | _ => none

def isMember : Value → Bool
  | cls _ | method _ | field _ | annot _ => true
  | _ => false

end Value

end Dalvik
