import Dalvik.Machine.Arithmetic
import Dalvik.Machine.Intrinsic
import Dalvik.Machine.Overload

/-!
# Running methods

One instruction is performed at a time: an action is started for a frame and gets its operands, which are
names of registers, labels, fields, classes and literals. A method runs until its frame is finished; only
then an error that was noted on the way is raised. Running is bounded by a number of steps, and a run that
exceeds the bound is a fault of its own.
-/

namespace Dalvik.Store

open Dalvik.Text

/-- How the method of a frame is run: by a machine, for a method, on a frame. -/
abbrev Runner : Type := Nat → Nat → Nat → Act Unit

/-- A call: what it is made on, its plain arguments, and its named arguments. -/
structure Arguments where
  instance? : Value
  values : List Value
  named : Table String Value

/-- The types that a value of a basic type can have as an argument. -/
def basicTypes : List ((Value → Bool) × List String) :=
  [(fun v => v.int?.isSome,
     ["B", "S", "I", "J", "Ljava/lang/Byte;", "Ljava/lang/Short;", "Ljava/lang/Integer;",
      "Ljava/lang/Long;"]),
   (fun v => match v with | .float _ => true | _ => false,
     ["F", "D", "Ljava/lang/Double;", "Ljava/lang/Float;"]),
   (fun v => match v with | .text _ => true | _ => false,
     ["Ljava/lang/String;", "C", "Ljava/lang/Character;"]),
   (fun v => match v with | .bool _ => true | _ => false, ["Z", "Ljava/lang/Boolean;"])]

/-- Checks an argument against the type of its parameter, which has to be a registered class too. -/
def checkArgument (d : Descriptor) (v : Value) : Act Unit := do
  for (fits, names) in basicTypes do
    if names.contains d.text && !fits v then throw (.argumentType d.text v.typeName)
  unless (← get).classTable.has d.text do throw (.noSuchClass d.text)

/-- The registers of a call's arguments: those that are named, then the plain ones in order. -/
def argumentRegisters (start : Nat) (args : Arguments) : Table String Value :=
  let named := args.named.filter fun (k, _) => Overload.namesRegister k
  args.values.zipIdx.foldl (fun t (v, i) => Table.set t s!"p{start + i}" v) named

/-- Checks the arguments of a call and puts them into the registers of a frame. -/
def bindArguments (isStatic : Bool) (frame : Nat) (args : Arguments) : Act Unit := do
  let types := (← get).checkedTypes
  let registers := argumentRegisters (if isStatic then 0 else 1) args
  if types.length != registers.length then throw (.argumentCount types.length registers.length)
  for (d, _, v) in types.zip registers do checkArgument d v
  updateFrame frame fun f =>
    { f with registers := registers.foldl (fun t (k, v) => Table.set t k v) f.registers }

/-- Calls a method through a machine: its frame is reset, gets the arguments, is run, and is reset again. -/
def callOn (run : Runner) (vm : Nat) (target : Value) (args : Arguments) : Act Value := do
  let method := match target with
    | .method m => some m
    | _ => none
  let found? ← match method with
    | some m => do pure ((← get).frameTable.get? (← methodInfo m).type.text |>.map fun f => (m, f))
    | none => pure none
  match found? with
  | none => throw (.unregistered (← plain target))
  | some (m, frame) =>
    updateFrame frame Frame.reset
    match (← methodInfo m).locals? with
    | none => throw .noOperation
    | some n =>
      let isStatic := Access.meets (← methodInfo m).modifiers Access.static
      updateFrame frame fun f =>
        { f with registers := (List.range n.toNat).map fun i => (s!"v{i}", Value.null) }
      unless isStatic do
        unless ← holds args.instance? do throw .noOperation
        updateFrame frame fun f => { f with registers := f.registers.set "p0" args.instance? }
      bindArguments isStatic frame args
      run vm m frame
      let f ← frameInfo frame
      if ← holds f.error then raiseValue f.error
      updateFrame frame Frame.reset
      pure f.returned

def callMethod (run : Runner) (m : Nat) (args : Arguments) : Act Value := do
  let info ← methodInfo m
  match info.vm? with
  | none => throw .inactiveMethod
  | some vm =>
    if Access.meets info.modifiers Access.abstract then throw .abstractMethod
    callOn run vm (.method m) args

def hintsOf (args : Arguments) : Act Overload.Hints := do
  let registers := (args.named.filter fun (k, _) => Overload.namesRegister k).length
  match args.named.get? "returns" with
  | none | some .null => pure ⟨registers, none⟩
  | some v => pure ⟨registers, some (← holds v)⟩

/-- Calls a method, or the one that is meant among the methods of a name. Every method is checked against
the same parameter types, and none tells the type of its result. -/
def callValue (run : Runner) (target : Value) (args : Arguments) : Act Value := do
  match target with
  | .method m => callMethod run m args
  | .overloads i =>
    let o ← overloadInfo i
    let count := (← get).checkedTypes.length
    let candidates := o.methods.map fun _ => (⟨count, none⟩ : Overload.Candidate)
    let k ← attempt (Overload.choose o.name candidates args.values.length (← hintsOf args))
    match o.methods[k]? with
    | some m => callMethod run m args
    | none => throw .noElement
  | _ => throw .operandType

def construct (run : Runner) (o : Nat) (values : List Value) : Act Unit := do
  let target ← methodOf (← objectInfo o).cls Signature.init
  let _ ← callValue run target ⟨.object o, values, []⟩

/-- Runs the static initialiser of a class, if it has one. -/
def initClass (run : Runner) (c : Nat) : Act Unit := do
  match ← methodIn Signature.classInit (← classInfo c).methods with
  | none => pure ()
  | some target => let _ ← callValue run target ⟨.null, [], []⟩

/-! ### Operands -/

def currentFrame (a : Nat) : Act Nat := do
  pure (← actionInfo a).frame

/-- The machine of the frame for which an action was started last. -/
def currentVm (a : Nat) : Act Nat := do
  match (← frameInfo (← currentFrame a)).vm? with
  | some vm => pure vm
  | none => throw .noOperation

def register (a : Nat) (name : Datum) : Act Value := do
  let f ← frameInfo (← currentFrame a)
  match name with
  | .list _ | .table _ => throw .operandType
  | _ =>
    match name.text?.bind f.registers.get? with
    | some v => pure v
    | none => throw (.noSuchRegister name.plain)

def setRegister (a : Nat) (name : Datum) (v : Value) : Act Unit := do
  match name with
  | .list _ | .table _ => throw .operandType
  | _ => updateFrame (← currentFrame a) fun f => { f with registers := f.registers.set name.plain v }

/-- The value of a literal operand, which has to be a text. -/
def literal (d : Datum) : Act Value :=
  match d.text? with
  | some s => parseValue s
  | none => throw .operandType

def classOperand (a : Nat) (d : Datum) : Act Nat := do
  let _ ← currentVm a
  match d with
  | .list _ | .table _ => throw .operandType
  | _ => classNamed d.plain

def halvesOf (sep : String) (d : Datum) : Act (String × String) :=
  match d.text? with
  | none => throw .noOperation
  | some s =>
    match splitParts sep s with
    | [x, y] => pure (x, y)
    | _ => throw .partCount

/-- The class and the name in an operand that names a field. -/
def fieldOperand (d : Datum) : Act (String × String) := do
  let (owner, field) ← halvesOf "->" d
  let (name, _) ← halvesOf ":" (.text field)
  pure (owner, name)

def objectOperand (a : Nat) (name : Datum) : Act Nat := do
  match ← register a name with
  | .object o => pure o
  | v =>
    raise "ClassCastError"
      s!"Could not cast '<class '{v.typeName}'>' to <class 'smali.bridge.lang.SmaliObject'>"

def lengthOf : Value → Act Nat
  | .text t => pure t.length
  | .octets bs => pure bs.length
  | .list i => do pure (← items i).length
  | _ => throw .operandType

/-! ### Control -/

def jump (a : Nat) (label : Datum) : Act Unit := do
  let i ← currentFrame a
  let f ← frameInfo i
  match label with
  | .list _ | .table _ => throw .operandType
  | _ =>
    match label.text?.bind fun l => (f.labels.get? l).map (l, ·) with
    | some (l, p) => updateFrame i fun f => { f with label? := some l, position := p }
    | none => raise "NoSuchLabelError" label.plain

def finish (a : Nat) (v : Value) : Act Unit := do
  updateFrame (← currentFrame a) fun f => { f with returned := v, finished := true }

def isOneOf (d : Datum) (words : List String) : Bool :=
  d.text?.any words.contains

/-- Calls a built-in method on the value of the first register. -/
def invokeIntrinsic (a : Nat) (methods : List (String × Intrinsic)) (registers owner method : Datum) :
    Act Unit := do
  let first ← match registers.items? with
    | some (r :: _) => pure r
    | some [] => throw .noElement
    | none => throw .operandType
  let v ← register a first
  match method.text?.bind fun s => methods.lookup s with
  | none => raise "NoSuchMethodError" s!"method '{method.plain}' not defined for {owner.plain}!"
  | some f =>
    let result ← f.run v
    updateFrame (← currentFrame a) fun fr => { fr with callResult := result }

/-- Calls a method of a class, or of the super class of the object at hand if the call names that. The
result goes to the frame for which the call action was started last, which a call inside the method may
have changed. -/
def invokeMethod (run : Runner) (a : Nat) (variant registers owner method : Datum) : Act Unit := do
  let names ← match registers.items? with
    | some names => pure names
    | none => throw .operandType
  let values ← names.mapM (register a)
  let (inst, rest, super?) ← if variant.text? == some "static" then pure (Value.null, values, none)
    else
      match values with
      | [] => throw .noElement
      | .object o :: rest =>
        let super := (← classInfo (← objectInfo o).cls).super
        let super? ← match super, owner.text? with
          | .text t, some s => do
            if t = .ofString s then
              let _ ← currentVm a
              pure (some (← classNamed s))
            else pure none
          | _, _ => pure none
        pure (.object o, rest, super?)
      | _ :: _ => throw .noOperation
  let c ← match super? with
    | some c => pure c
    | none => classOperand a owner
  let target ← methodOf c method.plain
  let vm ← currentVm a
  let result ← callOn run vm target ⟨inst, rest, []⟩
  updateFrame (← currentFrame a) fun f => { f with callResult := result }

/-- A call instruction. Calls of other variants than these three do nothing. -/
def invoke (run : Runner) (a : Nat) (variant registers owner method : Datum) : Act Unit := do
  if isOneOf variant ["direct", "virtual", "static"] then
    match owner.text?.bind fun s => Intrinsic.all.lookup s with
    | some methods => invokeIntrinsic a methods registers owner method
    | none => invokeMethod run a variant registers owner method

def switchAt (a : Nat) (label : Datum) : Act Switch := do
  let f ← frameInfo (← currentFrame a)
  let key := match label with
    | .absent => some none
    | d => d.text?.map some
  match key.bind f.switches.get? with
  | some s => pure s
  | none => throw .noEntry

/-- The branch of an index among labels, which may be the characters of a text. -/
def branchAt (a : Nat) (labels : List Datum) (index : Value) : Act Unit := do
  if ← related .lt index (.int 0) then pure ()
  else if ← related .ge index (.int labels.length) then pure ()
  else
    match index.int? with
    | none => throw .operandType
    | some i =>
      match labels[i.toNat]? with
      | some l => jump a l
      | none => throw .noElement

/-- Branches over consecutive keys. A switch over any keys is taken for one if it has two branches: the
first key counts as the first key, and the characters of the second as the labels. -/
def packedSwitch (a : Nat) (name label : Datum) : Act Unit := do
  let (first, labels) ← match ← switchAt a label with
    | .packed first labels => pure (first, labels)
    | .sparse [(k, _), (l, _)] => pure (k, (l.items?).getD [])
    | .sparse _ => throw .partCount
  let v ← register a name
  branchAt a labels (← apply .sub v (← literal first))

/-- Goes to the label of the first key that equals a value. -/
def firstBranch (a : Nat) (v : Value) : List (Datum × Datum) → Act Unit
  | [] => pure ()
  | (k, l) :: rest => do
    if ← equal (← literal k) v then jump a l else firstBranch a v rest

def sparseSwitch (a : Nat) (name label : Datum) : Act Unit := do
  let s ← switchAt a label
  let v ← register a name
  match s with
  | .sparse branches => firstBranch a v branches
  | .packed _ _ => throw .noOperation

/-! ### Objects and arrays -/

/-- What a new value of a basic type is. -/
def basicValue (type : String) : Option (Act Value) :=
  if occurs type.toList "ISBJ".toList then some (pure (.int 0))
  else if occurs type.toList "FD".toList then some (pure (.float .zero))
  else if ["Ljava/lang/String;", "C", "Ljava/lang/Character;"].contains type then
    some (pure (.ofString ""))
  else if ["Ljava/lang/Integer;", "Ljava/lang/Byte;", "Ljava/lang/Long", "Ljava/lang/Short;"].contains type
  then some (pure (.int 0))
  else if ["Ljava/lang/Boolean", "Z"].contains type then some (pure (.bool false))
  else if ["Ljava/util/ArrayList;", "Ljava/util/LinkedList;"].contains type then some (newList [])
  else none

/-- Makes a value of a basic type, or an object whose constructor is called. -/
def makeInstance (run : Runner) (a : Nat) (name type : Datum) : Act Unit := do
  match type.text? with
  | none => throw .operandType
  | some t =>
    match basicValue t with
    | some make => setRegister a name (← make)
    | none =>
      let o ← newObject (← classOperand a type)
      match o with
      | .object i => construct run i []
      | _ => pure ()
      setRegister a name o

/-- The elements that a new array of a type starts with. -/
def freshElement (d : Descriptor) : Value :=
  if d.kind = .primitive then
    if occurs d.simpleName.toList "BSIJ".toList then .int 0
    else if occurs d.simpleName.toList "FD".toList then .float .zero
    else .null
  else .null

def makeArray (a : Nat) (dest count type : Datum) : Act Unit := do
  match type.text? with
  | none => throw .noOperation
  | some t =>
    let d ← attempt (Descriptor.ofString t)
    match (← register a count).int? with
    | none => throw .operandType
    | some n => setRegister a dest (← newList (List.replicate n.toNat (freshElement d)))

/-- Checks the class of an object; other values pass. -/
def checkCast (a : Nat) (name type : Datum) : Act Unit := do
  match ← register a name with
  | .object o =>
    let c := (← objectInfo o).cls
    let d ← classOperand a type
    unless ← assignable c (some d) do
      let wanted ← plain (.cls d)
      let actual ← plain (.cls c)
      raise "ClassCastError" s!"Could not cast {wanted} to {actual}"
  | _ => pure ()

def elementAt (v index : Value) : Act Value := do
  match v, index.int? with
  | .list i, some n =>
    match (← items i)[n.toNat]? with
    | some x => pure x
    | none => throw .noElement
  | .text t, some n =>
    match t.points[n.toNat]? with
    | some p => pure (.text ⟨[p]⟩)
    | none => throw .noElement
  | .octets bs, some n =>
    match bs[n.toNat]? with
    | some b => pure (.int b.toNat)
    | none => throw .noElement
  | .overloads i, some n =>
    match (← overloadInfo i).methods[n.toNat]? with
    | some m => pure (.method m)
    | none => throw .noElement
  | .object o, _ => do
    let _ ← objectInfo o
    throw (.noSuchField (← plain index))
  | .cls _, _ => throw .emptyKey
  | .annot i, _ => do
    match (← annotInfo i).values.find? fun (k, _) => k == index with
    | some (_, x) => pure x
    | none => pure .null
  | _, _ => throw .operandType

/-- Whether an index is no position for a length. The length is that of the register's name. -/
def outside (index : Value) (past : Relation) (name : Datum) : Act Bool := do
  if ← related .lt index (.int 0) then pure true
  else
    match name.text? with
    | some s => related past index (.int s.length)
    | none => throw .operandType

def outOfBounds {α : Type} (index array : Value) : Act α := do
  let shown ← plain index
  let length ← lengthOf array
  raise "IndexOutOfBoundsError" s!"Index {shown} is out of bounds for length {length}"

def arrayGet (a : Nat) (dest array index : Datum) : Act Unit := do
  let i ← register a index
  let v ← register a array
  if ← outside i .ge array then outOfBounds i v
  setRegister a dest (← elementAt v i)

/-- Writes an element; at the position right behind the last one a list grows. -/
def arrayPut (a : Nat) (src array index : Datum) : Act Unit := do
  let i ← register a index
  let v ← register a array
  if ← outside i .gt array then outOfBounds i v
  let width := (array.text?.map String.length).getD 0
  if ← equal (.int width) i then
    match v with
    | .list l =>
      let x ← register a src
      setItems l ((← items l) ++ [x])
    | _ => throw .noOperation
  else
    let x ← register a src
    match v, i.int? with
    | .list l, some n =>
      let xs ← items l
      if n.toNat < xs.length then setItems l (xs.set n.toNat x) else throw .noElement
    | .object _, _ => throw (.noSuchField (← plain i))
    | .cls _, _ => throw .invalidKey
    | .annot k, _ => updateAnnot k fun info => { info with values := info.values.set i x }
    | _, _ => throw .operandType

/-! ### Instructions -/

/-- What an operation does with the value of one register. -/
def convert (a : Nat) (f : Value → Act Value) (dest src : Datum) : Act Unit := do
  setRegister a dest (← f (← register a src))

def branchIf (a : Nat) (r : Relation) (x y : Value) (label : Datum) : Act Unit := do
  if ← related r x y then jump a label

/-- Performs an operation with its operands. A wrong number of operands is a fault. -/
def operate (run : Runner) (a : Nat) (op : Operation) (operands : List Datum) : Act Unit := do
  match op, operands with
  | .idle, _ => pure ()
  | .returnVoid, [] => finish a .null
  | .returnValue, [r] => finish a (← register a r)
  | .jump, [l] => jump a l
  | .invoke, [variant, registers, owner, method] => invoke run a variant registers owner method
  | .throwError, [r] =>
    let v ← register a r
    let e ← newError "RuntimeError" (some v)
    updateFrame (← currentFrame a) fun f => { f with error := e }
  | .keepBits mask, [d, s] => convert a (fun v => do pure (.int (← masked v mask))) d s
  | .toByte, [d, s] => convert a unpacked d s
  | .toFloat, [d, s] => convert a toFloat d s
  | .staticPut, [r, place] =>
    let v ← register a r
    let (owner, name) ← fieldOperand place
    let f ← fieldOf (← classOperand a (.text owner)) name
    updateField f fun x => { x with value := v }
  | .staticGet, [r, place] =>
    let (owner, name) ← fieldOperand place
    let f ← fieldOf (← classOperand a (.text owner)) name
    setRegister a r (← fieldInfo f).value
  | .fieldGet, [d, s, place] =>
    let o ← objectOperand a s
    let (_, name) ← fieldOperand place
    setRegister a d (← getField o name)
  | .fieldPut, [s, o, place] =>
    let o ← objectOperand a o
    let (_, name) ← fieldOperand place
    setField o name (← register a s)
  | .loadConst, [r, v] => setRegister a r (← literal v)
  | .loadClass, [r, name] => setRegister a r (.cls (← classOperand a name))
  | .moveResult, [r] => setRegister a r (← frameInfo (← currentFrame a)).callResult
  | .move, [d, s] => setRegister a d (← register a s)
  | .moveError, [d] => setRegister a d (← frameInfo (← currentFrame a)).error
  | .newInstance, [r, type] => makeInstance run a r type
  | .newArray, [d, n, type] => makeArray a d n type
  | .checkCast, [r, type] => checkCast a r type
  | .packedSwitch, [r, l] => packedSwitch a r l
  | .sparseSwitch, [r, l] => sparseSwitch a r l
  | .branch r, [x, y, l] => branchIf a r (← register a x) (← register a y) l
  | .branchZero r, [x, l] => branchIf a r (← register a x) (.int 0) l
  | .arrayLength, [d, s] => convert a (fun v => do pure (.int (← lengthOf v))) d s
  | .fillArray, [d, l] =>
    let f ← frameInfo (← currentFrame a)
    let key := match l with
      | .absent => some none
      | l => l.text?.map some
    match key.bind f.arrays.get? with
    | some v => setRegister a d v
    | none => throw .noEntry
  | .arrayGet, [d, x, i] => arrayGet a d x i
  | .arrayPut, [s, x, i] => arrayPut a s x i
  | .negate, [d, s] => convert a negated d s
  | .complement, [d, s] => convert a complemented d s
  | .inPlace op, [d, s] =>
    let x ← register a d
    setRegister a d (← applyInPlace op x (← register a s))
  | .binary op, [d, x, y] =>
    let v ← register a x
    setRegister a d (← apply op v (← register a y))
  | .withLiteral op mask, [d, x, c] =>
    let v ← register a x
    setRegister a d (← apply op v (.int (← masked (← literal c) mask)))
  | .literalMinus mask, [d, x, c] =>
    let n ← masked (← literal c) mask
    setRegister a d (← apply .sub (.int n) (← register a x))
  | .noteError, operands =>
    let v : Value := match operands with
      | d :: _ => .ofString d.plain
      | [] => .ofString "custom"
    updateFrame (← currentFrame a) fun f => { f with error := v }
  | _, _ => throw .operandCount

def spread (operands : Datum) : Act (List Datum) :=
  if !operands.holds then pure []
  else
    match operands.items? with
    | some xs => pure xs
    | none => throw .operandType

/-- Starts an action for a frame. -/
def perform (run : Runner) (a : Nat) (frame : Nat) (operands : Datum) : Act Unit := do
  updateAction a fun x => { x with frame := frame }
  match (← actionInfo a).operation? with
  | none => pure ()
  | some op => operate run a op (← spread operands)

def note (vm : Nat) (n : TraceNote) : Act Unit := do
  if (← vmInfo vm).traced then modify fun s => { s with trace := n :: s.trace }

def instructionAt (f : Frame) : Act Instruction :=
  let i := if f.position < 0 then f.position + f.instructions.size else f.position
  if i < 0 then throw .noElement
  else
    match f.instructions[i.toNat]? with
    | some x => pure x
    | none => throw .noElement

/-- Runs a method in at most `n` steps, until its frame is finished. -/
def runWithin : Nat → Runner
  | 0, _, _, _ => throw .endless
  | n + 1, vm, method, frame => do
    let f ← frameInfo frame
    if f.finished then pure ()
    else
      let x ← instructionAt f
      let sig := (← methodInfo method).signature
      let opcode := (← actionInfo x.action).opcode
      note vm (.before sig opcode x.operands)
      perform (runWithin n) x.action frame x.operands
      updateFrame frame fun f => { f with position := f.position + 1 }
      note vm (.after sig opcode)
      runWithin n vm method frame

def frameOf (target : Value) : Act Nat := do
  match target with
  | .method m =>
    match (← get).frameTable.get? (← methodInfo m).type.text with
    | some f => pure f
    | none => throw .noEntry
  | _ => throw .noEntry

/-- One of the methods of a name. -/
def methodAt (target : Value) (index : Int) : Act Value := do
  match target with
  | .overloads i =>
    let ms := (← overloadInfo i).methods
    let k := if index < 0 then index + ms.length else index
    match if k < 0 then none else ms[k.toNat]? with
    | some m => pure (.method m)
    | none => throw .noElement
  | _ => throw .operandType

/-- Adds types to those that every method is checked against, through any method. -/
def addCheckedTypes (target : Value) (types : List Descriptor) : Act (List Descriptor) := do
  match target with
  | .method _ =>
    modify fun s => { s with checkedTypes := s.checkedTypes ++ types }
    pure (← get).checkedTypes
  | _ => throw .noOperation

def actionNamed (name : Datum) : Act Nat := do
  match name.text?.bind (← get).table.get? with
  | some a => pure a
  | none => throw (.noAction name.plain)

/-- Makes an action that does nothing, from its name and its further names. -/
def declareAction (details : List Datum) : Act Nat := do
  let (name, further) ← match details with
    | [] => pure (Datum.absent, Datum.absent)
    | [name] => pure (name, Datum.absent)
    | [name, further] => pure (name, further)
    | _ => throw .operandCount
  if !name.holds then throw .namelessAction
  let names ← spread further
  newAction name.plain none (names.map Datum.plain)

def displayAction (a : Nat) : Act String := do
  let id ← number (.action a)
  let name := (← actionInfo a).opcode
  pure s!"<{name} at 0x{hexadecimal id}>"

/-- The number of steps that a method may take beyond the number of its instructions. -/
def stepLimit : Nat := 1000000

/-- Runs a method until its frame is finished. Code without jumps always comes to its end. -/
def runner : Runner := fun vm method frame => do
  runWithin ((← frameInfo frame).instructions.size + stepLimit) vm method frame

end Dalvik.Store
