import Dalvik.Fault
import Dalvik.Text.Digit

/-!
# Choosing among methods of one name

The only method of a name is taken whatever the arguments are. Otherwise the number of arguments decides;
it is the number of registers that are named in the call, if any are, and the number of plain arguments
else. Whether a result is wanted can decide further.
-/

namespace Dalvik.Overload

open Dalvik.Text

def display (name : String) (id : Nat) : String :=
  s!"<MethodBroker of '{name}' at 0x" ++ String.ofList (Nat.toDigits 16 id)

/-- What is known of a method when one has to be chosen. -/
structure Candidate where
  parameters : Nat
  /-- The type of its result, if it is known. -/
  result? : Option String
  deriving DecidableEq, Repr

/-- Whether a name starts like the name of a parameter register. -/
def namesRegister (s : String) : Bool :=
  match s.toList with
  | 'p' :: c :: _ => isDecimal c
  | _ => false

/-- What a call says beside its plain arguments. -/
structure Hints where
  registers : Nat
  /-- Whether a method without a result is wanted, if that is said. -/
  void? : Option Bool
  deriving DecidableEq, Repr

/-- The candidates that have a result or have none, as wanted. -/
def withResult (void : Bool) : List (Nat × Candidate) → Except Fault (List (Nat × Candidate))
  | [] => .ok []
  | (i, c) :: cs =>
    match c.result? with
    | none => .error .noOperation
    | some t => (withResult void cs).map fun rest => if (t == "V") == void then (i, c) :: rest else rest

def choose (name : String) (candidates : List Candidate) (arguments : Nat) (hints : Hints) :
    Except Fault Nat :=
  let numbered := candidates.zipIdx.map fun (c, i) => (i, c)
  let fitting (n : Nat) := numbered.filter fun (_, c) => c.parameters == n
  match numbered with
  | [(i, _)] => .ok i
  | _ =>
    if hints.registers = 0 then
      match fitting arguments, hints.void? with
      | [(i, _)], _ => .ok i
      | _, none => .error (.overloadMismatch name)
      | several, some void => do
        match ← withResult void several with
        | [(i, _)] => .ok i
        | _ => .error (.ambiguousOverload name)
    else
      match fitting hints.registers with
      | [(i, _)] => .ok i
      | _ => .error (.ambiguousOverload name)

end Dalvik.Overload
