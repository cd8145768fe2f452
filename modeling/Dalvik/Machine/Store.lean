import Dalvik.Datum
import Dalvik.Machine.Operation
import Dalvik.Machine.Value

/-!
# The store of the machine

All that running programs share: lists, objects, classes with their members, frames, errors, and the
actions that instructions are bound to. Everything is kept in arrays and referred to by its number; tables
keep the order in which their keys were first set. Classes and frames are registered once for all
machines, so a name means the same to each of them.
-/

namespace Dalvik

/-- A table: values under keys, in the order in which the keys were first set. -/
abbrev Table (κ α : Type) : Type := List (κ × α)

namespace Table

variable {κ α : Type} [BEq κ]

def get? (t : Table κ α) (k : κ) : Option α :=
  t.lookup k

def has (t : Table κ α) (k : κ) : Bool :=
  (t.get? k).isSome

/-- Sets the value under a key; a key that is set already keeps its place. -/
def set (t : Table κ α) (k : κ) (v : α) : Table κ α :=
  match t with
  | [] => [(k, v)]
  | (k', v') :: rest => if k == k' then (k', v) :: rest else (k', v') :: set rest k v

end Table

structure Member where
  type : Descriptor
  signature : String
  modifiers : Int
  annots : List Value
  parent : Value
  deriving Inhabited

structure AnnotInfo extends Member where
  values : Table Value Value
  deriving Inhabited

structure FieldInfo extends Member where
  name : String
  /-- Its value, which counts only for a static field. -/
  value : Value
  deriving Inhabited

structure MethodInfo extends Member where
  vm? : Option Nat
  name : Value
  /-- The types of its parameters, as its signature says. -/
  parameters : List Descriptor
  result : Descriptor
  /-- The number of its local registers, once it is known. -/
  locals? : Option Int
  deriving Inhabited

structure Overloads where
  name : String
  methods : List Nat
  deriving Inhabited

structure ClassInfo extends Member where
  /-- Its name with dots, or whatever was set for it. -/
  name : Value
  simpleName : String
  fields : Table String Nat
  methods : Table String Nat
  /-- Its super class, or whatever was set for it. -/
  super : Value
  interfaces : List Descriptor
  inner : Table String Nat
  deriving Inhabited

structure ObjectInfo where
  cls : Nat
  values : Table String Value
  deriving Inhabited

structure ErrorInfo where
  name : String
  carried : Option Value
  deriving Inhabited

inductive Switch where
  | packed (first : Datum) (labels : List Datum)
  | sparse (branches : List (Datum × Datum))
  deriving Inhabited

/-- An instruction: the number of its action and its operands. -/
structure Instruction where
  action : Nat
  /-- The operands: a list, or a text that is a list of characters. -/
  operands : Datum
  deriving Inhabited

/-- The frame of a method. There is one for each method, whatever calls are going on. -/
structure Frame where
  registers : Table String Value
  instructions : Array Instruction
  labels : Table String Int
  /-- The error handlers by the labels at which they start. -/
  handlers : Table String (String × String)
  /-- The data of arrays by the labels in front of them. -/
  arrays : Table (Option String) Value
  /-- The branches of switches by the labels in front of them. -/
  switches : Table (Option String) Switch
  vm? : Option Nat
  label? : Option String
  error : Value
  finished : Bool
  position : Int
  returned : Value
  /-- The value that the last call from here ended with. -/
  callResult : Value
  /-- The number of labels and instructions that were loaded. -/
  loaded : Nat
  lastLabel? : Option String
  deriving Inhabited

namespace Frame

def empty : Frame where
  registers := []
  instructions := #[]
  labels := []
  handlers := []
  arrays := []
  switches := []
  vm? := none
  label? := none
  error := .null
  finished := false
  position := 0
  returned := .null
  callResult := .null
  loaded := 0
  lastLabel? := none

/-- A frame ready for a new call: the code and the last call's result stay. -/
def reset (f : Frame) : Frame :=
  { f with registers := [], label? := none, error := .null, finished := false, position := 0,
           returned := .null }

end Frame

/-- What an instruction is bound to. There is one action for all instructions of a kind, and it remembers
the frame for which it was started last. -/
structure Action where
  opcode : String
  operation? : Option Operation
  frame : Nat
  deriving Inhabited

structure Vm where
  /-- The actions by name, if the machine has a choice of its own. -/
  actions? : Option (Table String Nat)
  /-- Whether an instruction without an action is a fault. -/
  strict : Bool
  /-- Whether instructions are noted before and after they are run. -/
  traced : Bool
  deriving Inhabited

inductive TraceNote where
  | before (method opcode : String) (operands : Datum)
  | after (method opcode : String)
  deriving Inhabited

/-- What can be numbered in the order in which numbers were asked for. -/
inductive Identity where
  | value (v : Value)
  | action (id : Nat)
  deriving DecidableEq, Inhabited

structure Store where
  lists : Array (List Value)
  objects : Array ObjectInfo
  classes : Array ClassInfo
  methods : Array MethodInfo
  fields : Array FieldInfo
  annots : Array AnnotInfo
  overloads : Array Overloads
  errors : Array ErrorInfo
  frames : Array Frame
  actions : Array Action
  table : Table String Nat
  vms : Array Vm
  classTable : Table String Nat
  /-- The registered frames by the types of their methods. -/
  frameTable : Table String Nat
  /-- The parameter types that every method is checked against. -/
  checkedTypes : List Descriptor
  /-- The classes that are being read, by the number of their reading. -/
  readings : Array (Option Nat)
  types : Nat
  numbered : List Identity
  trace : List TraceNote
  deriving Inhabited

namespace Store

/-- A step of the machine; what it changes before a fault stays changed. -/
abbrev Act (α : Type) : Type := ExceptT Fault (StateM Store) α

def firstActions : Array Action :=
  (Operation.all.map fun (name, op, _) => (⟨name, some op, 0⟩ : Action)).toArray

/-- The names under which the first actions are known. -/
def firstTable : Table String Nat :=
  Operation.all.zipIdx.flatMap fun ((name, _, further), i) => (name, i) :: further.map (·, i)

/-- A store with nothing but the first actions. -/
def initial : Store where
  lists := #[]
  objects := #[]
  classes := #[]
  methods := #[]
  fields := #[]
  annots := #[]
  overloads := #[]
  errors := #[]
  frames := #[]
  actions := firstActions
  table := firstTable
  vms := #[]
  classTable := []
  frameTable := []
  checkedTypes := []
  readings := #[]
  types := 0
  numbered := []
  trace := []

def attempt {α : Type} (x : Except Fault α) : Act α :=
  ExceptT.mk (pure x)

/-- How many lists inside one another, or errors that carry one another, are followed. -/
def nestingLimit : Nat := 1000

def items (i : Nat) : Act (List Value) := do
  pure (((← get).lists[i]?).getD [])

def newList (xs : List Value) : Act Value := do
  let i := (← get).lists.size
  modify fun s => { s with lists := s.lists.push xs }
  pure (.list i)

def setItems (i : Nat) (xs : List Value) : Act Unit :=
  modify fun s => { s with lists := s.lists.setIfInBounds i xs }

def classInfo (i : Nat) : Act ClassInfo := do
  pure (((← get).classes[i]?).getD default)

def updateClass (i : Nat) (f : ClassInfo → ClassInfo) : Act Unit :=
  modify fun s => { s with classes := s.classes.modify i f }

def methodInfo (i : Nat) : Act MethodInfo := do
  pure (((← get).methods[i]?).getD default)

def updateMethod (i : Nat) (f : MethodInfo → MethodInfo) : Act Unit :=
  modify fun s => { s with methods := s.methods.modify i f }

def fieldInfo (i : Nat) : Act FieldInfo := do
  pure (((← get).fields[i]?).getD default)

def updateField (i : Nat) (f : FieldInfo → FieldInfo) : Act Unit :=
  modify fun s => { s with fields := s.fields.modify i f }

def annotInfo (i : Nat) : Act AnnotInfo := do
  pure (((← get).annots[i]?).getD default)

def updateAnnot (i : Nat) (f : AnnotInfo → AnnotInfo) : Act Unit :=
  modify fun s => { s with annots := s.annots.modify i f }

def overloadInfo (i : Nat) : Act Overloads := do
  pure (((← get).overloads[i]?).getD default)

def objectInfo (i : Nat) : Act ObjectInfo := do
  pure (((← get).objects[i]?).getD default)

def updateObject (i : Nat) (f : ObjectInfo → ObjectInfo) : Act Unit :=
  modify fun s => { s with objects := s.objects.modify i f }

def errorInfo (i : Nat) : Act ErrorInfo := do
  pure (((← get).errors[i]?).getD default)

def newError (name : String) (carried : Option Value) : Act Value := do
  let i := (← get).errors.size
  modify fun s => { s with errors := s.errors.push ⟨name, carried⟩ }
  pure (.error i)

def frameInfo (i : Nat) : Act Frame := do
  pure (((← get).frames[i]?).getD .empty)

def updateFrame (i : Nat) (f : Frame → Frame) : Act Unit :=
  modify fun s => { s with frames := s.frames.modify i f }

def newFrame (f : Frame) : Act Nat := do
  let i := (← get).frames.size
  modify fun s => { s with frames := s.frames.push f }
  pure i

def actionInfo (i : Nat) : Act Action := do
  pure (((← get).actions[i]?).getD default)

def updateAction (i : Nat) (f : Action → Action) : Act Unit :=
  modify fun s => { s with actions := s.actions.modify i f }

/-- Makes an action and enters it under its names into the common table. -/
def newAction (opcode : String) (operation? : Option Operation) (further : List String) : Act Nat := do
  let i := (← get).actions.size
  modify fun s =>
    { s with actions := s.actions.push ⟨opcode, operation?, 0⟩
             table := (opcode :: further).foldl (fun t name => t.set name i) s.table }
  pure i

def vmInfo (i : Nat) : Act Vm := do
  pure (((← get).vms[i]?).getD default)

/-- Makes a machine. An empty choice of actions is none. -/
def newVm (actions : Table String Nat) (strict traced : Bool) : Act Nat := do
  let i := (← get).vms.size
  let vm : Vm := ⟨if actions.isEmpty then none else some actions, strict, traced⟩
  modify fun s => { s with vms := s.vms.push vm }
  pure i

def actionsOf (vm : Nat) : Act (Table String Nat) := do
  match (← vmInfo vm).actions? with
  | some t => pure t
  | none => pure (← get).table

def newType (d : Descriptor) : Act Value := do
  let n := (← get).types
  modify fun s => { s with types := n + 1 }
  pure (.type n d)

def ofLiteral : Literal → Act Value
  | .int n => pure (.int n)
  | .bool b => pure (.bool b)
  | .float x => pure (.float x)
  | .text t => pure (.text t)
  | .type d => newType d

def parseValue (s : String) : Act Value := do
  ofLiteral (← attempt (Literal.parse s))

/-- The number of what is asked for: the next one if it was not asked for before. -/
def number (x : Identity) : Act Nat := do
  let old := (← get).numbered
  match old.idxOf? x with
  | some i => pure (i + 1)
  | none =>
    modify fun s => { s with numbered := old ++ [x] }
    pure (old.length + 1)

/-- What a class or a member of a class has in common with all of them. -/
def member? : Value → Act (Option Member)
  | .cls i => do pure (some (← classInfo i).toMember)
  | .method i => do pure (some (← methodInfo i).toMember)
  | .field i => do pure (some (← fieldInfo i).toMember)
  | .annot i => do pure (some (← annotInfo i).toMember)
  | _ => pure none

def holds : Value → Act Bool
  | .null => pure false
  | .bool b => pure b
  | .int n => pure (n != 0)
  | .float x => pure !x.isZero
  | .text t => pure !t.points.isEmpty
  | .octets bs => pure !bs.isEmpty
  | .list i => do pure !(← items i).isEmpty
  | _ => pure true

/-- Raises an error of the running program. The name of its class stands for the general name of such
errors in its wording. -/
def raise {α : Type} (name message : String) : Act α :=
  throw (.raised name (name.intercalate (Text.splitParts "ExecutionError" message)))

end Store

end Dalvik
