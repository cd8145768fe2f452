import Dalvik.Machine.Opcode
import Dalvik.Machine.Run
import Dalvik.Reader.Run

/-!
# Loading classes

A class is made from the events of its source. A method's instructions are bound to actions while they are
read; labels count as positions of their own but take no place among the instructions. A class is
registered after its source has been read to the end.
-/

namespace Dalvik

inductive LoadNode where
  /-- A class, by the number of its reading, for a machine. -/
  | cls (vm reading : Nat)
  | method (id frame : Nat)
  | field (id : Nat)
  | annot (id : Nat)
  deriving DecidableEq, Repr, Inhabited

namespace LoadNode

open Store

def shape : LoadNode → Shape
  | cls _ _ => .classDef
  | method _ _ => .method
  | field _ => .field
  | annot _ => .annot

/-- The number of an action that exists from the start. -/
def firstAction (name : String) : Nat :=
  (firstTable.get? name).getD 0

def newReading (c? : Option Nat) : Act Nat := do
  let i := (← get).readings.size
  modify fun s => { s with readings := s.readings.push c? }
  pure i

def classRead (reading : Nat) : Act Nat := do
  match ((← get).readings[reading]?).join with
  | some c => pure c
  | none => throw .noOperation

def number (d : Datum) : Int :=
  d.int?.getD 0

def addAnnot (owner : Value) (flags type : Datum) (add : Value → Act Unit) : Act (Option LoadNode) := do
  let a ← newAnnot owner type.plain (number flags)
  add (.annot a)
  pure (some (.annot a))

def addInner (vm owner : Nat) (name flags : Datum) : Act LoadNode := do
  let inner ← newClass (.cls owner) name.plain (number flags) []
  setMember owner name.plain (.cls inner)
  pure (.cls vm (← newReading (some inner)))

def addMethod (vm owner : Nat) (name flags parameters result : Datum) : Act LoadNode := do
  let sig := name.plain ++ "(" ++ "".intercalate (parameters.texts?.getD []) ++ ")" ++ result.plain
  let m ← newMethod (some vm) owner sig (number flags)
  let frame ← newFrame .empty
  registerFrame vm m frame
  setMember owner name.plain (.method m)
  pure (.method m frame)

/-- Makes a field of a class; a value that does not count is none. -/
def addField (owner : Nat) (name flags type value : Datum) : Act LoadNode := do
  let v ← if value.holds then parseValue value.plain else pure .null
  let f ← newField type.plain (.cls owner) (name.plain ++ ":" ++ type.plain) (number flags) name.plain v
  setMember owner name.plain (.field f)
  pure (.field f)

def onClass (vm reading : Nat) : Event → Act (Option LoadNode)
  | .classDef name flags => do
    let c ← newClass .null name.plain (number flags) []
    modify fun s => { s with readings := s.readings.setIfInBounds reading (some c) }
    pure none
  | .superClass name => do
    let c ← classRead reading
    match name.text? with
    | none => throw .noOperation
    | some s =>
      let t ← newType (← attempt (Descriptor.ofString s))
      updateClass c fun x => { x with super := t }
      pure none
  | .implements name => do
    let c ← classRead reading
    let d ← attempt (Descriptor.ofString name.plain)
    updateClass c fun x => { x with interfaces := x.interfaces ++ [d] }
    pure none
  | .annot flags type => do
    let c ← classRead reading
    addAnnot (.cls c) flags type fun a => updateClass c fun x => { x with annots := x.annots ++ [a] }
  | .innerClass name flags => do
    pure (some (← addInner vm (← classRead reading) name flags))
  | .field name flags type value? => do
    pure (some (← addField (← classRead reading) name flags type (value?.getD .absent)))
  | .method name flags parameters result => do
    pure (some (← addMethod vm (← classRead reading) name flags parameters result))
  | _ => pure none

def addInstruction (frame action : Nat) (operands : Datum) : Act Unit :=
  updateFrame frame fun f =>
    { f with instructions := f.instructions.push ⟨action, operands⟩, loaded := f.loaded + 1 }

/-- Binds an instruction to an action of the machine. An instruction without an action does nothing, or what
the action for all others does, unless the machine is strict. -/
def bindInstruction (frame : Nat) (name : String) (operands : Datum) : Act Unit := do
  match (← frameInfo frame).vm? with
  | none => throw .noOperation
  | some vm =>
    let actions ← actionsOf vm
    if !Opcode.isKnown name then throw (.invalidOpcode name)
    match actions.get? name with
    | some a => addInstruction frame a operands
    | none =>
      if (← vmInfo vm).strict then throw .noEntry
      else
        let other := ((actions.get? "*").or (actions.get? "nop")).getD (firstAction "nop")
        addInstruction frame other operands

def onMethod (m frame : Nat) : Event → Act (Option LoadNode)
  | .annot flags type =>
    addAnnot (.method m) flags type fun a => updateMethod m fun x => { x with annots := x.annots ++ [a] }
  | .label name => do
    updateFrame frame fun f =>
      { f with labels := f.labels.set name.plain f.loaded, loaded := f.loaded + 1,
               lastLabel? := some name.plain }
    pure none
  | .locals n => do
    updateMethod m fun x => { x with locals? := some (number n) }
    pure none
  | .registers n => do
    let count := (← get).checkedTypes.length
    updateMethod m fun x => { x with locals? := some (number n - count) }
    pure none
  | .catching type labels | .catchingAll type labels => do
    match labels.texts? with
    | some [start, _, handler] =>
      updateFrame frame fun f => { f with handlers := f.handlers.set start (type.plain, handler) }
    | _ => throw .partCount
    pure none
  | .jump label => do
    addInstruction frame (firstAction "goto") label
    pure none
  | .call variant operands owner target => do
    addInstruction frame (firstAction "invoke") (.list [variant, operands, owner, target])
    pure none
  | .ret variant operands => do
    let name := if variant.holds then "return-" ++ variant.plain else "return"
    bindInstruction frame name operands
    pure none
  | .instruction name operands => do
    bindInstruction frame name.plain operands
    pure none
  | .arrayData _ values => do
    let vs ← (values.items?.getD []).mapM fun d => match d with
      | .literal v => ofLiteral v
      | d => pure (.ofString d.plain)
    let l ← newList vs
    updateFrame frame fun f => { f with arrays := f.arrays.set f.lastLabel? l }
    pure none
  | .packedSwitch first labels => do
    updateFrame frame fun f =>
      { f with switches := f.switches.set f.lastLabel? (.packed first (labels.items?.getD [])) }
    pure none
  | .sparseSwitch branches => do
    let entries := match branches with
      | .table es => es
      | _ => []
    updateFrame frame fun f => { f with switches := f.switches.set f.lastLabel? (.sparse entries) }
    pure none
  | _ => pure none

def onAnnot (a : Nat) : Event → Act (Option LoadNode)
  | .value name value => do
    let v ← parseValue value.plain
    updateAnnot a fun x => { x with values := x.values.set (.ofString name.plain) v }
    pure none
  | .array name values => do
    let vs ← (values.texts?.getD []).mapM parseValue
    let l ← newList vs
    updateAnnot a fun x => { x with values := x.values.set (.ofString name.plain) l }
    pure none
  | .subAnnot name flags type => do
    addAnnot (.annot a) flags type fun sub =>
      updateAnnot a fun x => { x with values := x.values.set (.ofString name.plain) sub }
  | _ => pure none

def deliver : LoadNode → Event → Act (Option LoadNode)
  | cls vm reading, e => onClass vm reading e
  | method m frame, e => onMethod m frame e
  | field f, .annot flags type =>
    addAnnot (.field f) flags type fun a => updateField f fun x => { x with annots := x.annots ++ [a] }
  | field _, _ => pure none
  | annot a, e => onAnnot a e

end LoadNode

namespace Store

/-- A step of the machine as a step of reading. -/
def reading {α : Type} (x : Act α) : Read LoadNode Store α := do
  let (r, s) := x.run.run (← get).world
  modify fun t => { t with world := s }
  Read.attempt r

def loadHost : Host LoadNode Store where
  hears n v := n.shape.hears v
  hasShape n s := n.shape == s
  deliver n e := reading (n.deliver e)
  copy? := none

def loadReader : Reader LoadNode Store := ⟨.standard, loadHost⟩

/-- Makes the class of a source and registers it, with any reader to whose host the constructs that are
being loaded belong. -/
def defineWith {ν σ : Type} (r : Reader ν σ) (node : LoadNode → ν)
    (step : {α : Type} → Act α → Read ν σ α) (vm : Nat) (input : Input) : Read ν σ Nat := do
  let i ← step (LoadNode.newReading none)
  r.visit input (some (node (.cls vm i)))
  step do registerClass? ((← get).readings[i]?).join

/-- Makes the class of a source and registers it. -/
def define (vm : Nat) (input : Input) : Read LoadNode Store Nat :=
  defineWith loadReader id reading vm input

/-- Makes the class of a source, registers it, and runs its static initialiser if wanted. -/
def load (vm : Nat) (input : Input) (init : Bool) : Read LoadNode Store Nat := do
  let c ← define vm input
  if init then reading (initClass runner c)
  pure c

end Store

end Dalvik
