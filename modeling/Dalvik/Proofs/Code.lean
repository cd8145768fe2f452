import Dalvik.Proofs.Quiet

/-!
# Running leaves the code alone

A frame holds the code of a method and the state of its run. `Frame.code` forgets the run: what is left are
the instructions, the labels, the handlers, the data of arrays and switches, and the machine. No
instruction changes it, in whatever frame, however calls are nested (`Store.KeepsCode.runWithin`).

What an instruction looks at and what it can change is said once, for any property of steps that allows it: an
operation that calls nothing looks at the frame for which its action was started, changes the run of that frame and
nothing else of the frames (`Store.Serving.operate`), and a call starts actions and resets the frames that it runs in
(`Store.Sustaining.operate`). Contracts are such properties (`Store.Sustains`).
-/

namespace Dalvik

open Store

/-- A frame without what running changes. -/
def Frame.code (f : Frame) : Frame :=
  { f with registers := [], label? := none, error := .null, finished := false, position := 0,
           returned := .null, callResult := .null }

namespace Store

variable {α β : Type}
variable {x : Act α} {k : α → Act β} (s : Store)

/-- The frame of a number. -/
def frame (s : Store) (i : Nat) : Frame :=
  (s.frames[i]?).getD .empty

/-- One round of the loop that runs a method, from what its frame is at the start of the round. -/
def iteration (n vm m i : Nat) (f : Frame) : Act Unit := do
  let x ← instructionAt f
  let sig := (← methodInfo m).signature
  let opcode := (← actionInfo x.action).opcode
  note vm (.before sig opcode x.operands)
  perform (runWithin n) x.action i x.operands
  updateFrame i fun f => { f with position := f.position + 1 }
  note vm (.after sig opcode)

theorem runWithin_succ (n vm m i : Nat) : runWithin (n + 1) vm m i = (do
      let f ← frameInfo i
      if f.finished then pure ()
      else
        iteration n vm m i f
        runWithin n vm m i) := by
  simp [runWithin, iteration]

/-- The action of a number. -/
def action (s : Store) (a : Nat) : Action :=
  (s.actions[a]?).getD default

/-- The method of a number. -/
def method (s : Store) (m : Nat) : MethodInfo :=
  (s.methods[m]?).getD default

/-- The object of a number. -/
def object (s : Store) (o : Nat) : ObjectInfo :=
  (s.objects[o]?).getD default

/-- The class of a number. -/
def cls (s : Store) (c : Nat) : ClassInfo :=
  (s.classes[c]?).getD default

/-- The field of a number. -/
def field (s : Store) (f : Nat) : FieldInfo :=
  (s.fields[f]?).getD default

@[simp] theorem outcome_objectInfo (o : Nat) : outcome (objectInfo o) s = (.ok (s.object o), s) := rfl

@[simp] theorem outcome_classInfo (c : Nat) : outcome (classInfo c) s = (.ok (s.cls c), s) := rfl

@[simp] theorem outcome_fieldInfo (f : Nat) : outcome (fieldInfo f) s = (.ok (s.field f), s) := rfl

@[simp] theorem outcome_methodInfo (m : Nat) : outcome (methodInfo m) s = (.ok (s.method m), s) := rfl

@[simp] theorem outcome_frameInfo (i : Nat) : outcome (frameInfo i) s = (.ok (s.frame i), s) := rfl

@[simp] theorem outcome_actionInfo (a : Nat) : outcome (actionInfo a) s = (.ok (s.action a), s) := rfl

@[simp] theorem outcome_currentFrame (a : Nat) : outcome (currentFrame a) s = (.ok (s.action a).frame, s) := rfl

@[simp] theorem outcome_updateFrame (i : Nat) (g : Frame → Frame) :
    outcome (updateFrame i g) s = (.ok (), { s with frames := s.frames.modify i g }) := rfl

/-- A property of steps that blind steps have, and sequences of steps that have it. -/
structure Composing (writes : Bool) (K : {α : Type} → Act α → Prop) : Prop where
  blind : ∀ {α : Type} {x : Act α}, Blind writes x → K x
  bind : ∀ {α β : Type} {x : Act α} {k : α → Act β}, K x → (∀ r, K (k r)) → K (x >>= k)

/-- A property of steps that look at the frame for which an action was started last. -/
structure Attending (q : Bool) (K : {α : Type} → Act α → Prop) (a : Nat) : Prop extends Composing q K where
  own : ∀ {α : Type} {k : Frame → Act α}, (∀ f, K (k f)) → K (do k (← frameInfo (← currentFrame a)))

/-- A property of steps that look at the frame for which an action was started last, and change its run. Every
operation but a call has such a property. -/
structure Serving (K : {α : Type} → Act α → Prop) (a : Nat) : Prop extends Attending true K a where
  update : ∀ {g : Frame → Frame}, (∀ f, (g f).code = f.code) → K (do updateFrame (← currentFrame a) g)
  jump : ∀ label, K (jump a label)

/-- A property of steps that look at one frame and change its run. -/
structure Freeing (K : {α : Type} → Act α → Prop) (i : Nat) : Prop extends Composing true K where
  look : ∀ {α : Type} {k : Frame → Act α}, (∀ f, K (k f)) → K (frameInfo i >>= k)
  frame : ∀ {g : Frame → Frame}, (∀ f, (g f).code = f.code) → K (updateFrame i g)

/-- The frames that were reset and the actions that were started in the course of a call. -/
structure Scope where
  live : Nat → Prop
  started : Nat → Prop

namespace Scope

def enter (S : Scope) (i : Nat) : Scope := { S with live := fun j => j = i ∨ S.live j }

def start (S : Scope) (a : Nat) : Scope := { S with started := fun b => b = a ∨ S.started b }

theorem live_enter (S : Scope) (i : Nat) : (S.enter i).live i := .inl rfl

theorem started_start (S : Scope) (a : Nat) : (S.start a).started a := .inl rfl

/-- The scope of everything. -/
def all : Scope := ⟨fun _ => True, fun _ => True⟩

end Scope

/-- A property of steps in a scope: they look at frames after they were reset, and serve actions after they were
started. Every run has such a property (`Sustaining.runWithin`). -/
structure Sustaining (K : Scope → {α : Type} → Act α → Prop) : Prop where
  composing : ∀ S, Composing true (K S)
  serving : ∀ {S : Scope} {a : Nat}, S.started a → Serving (K S) a
  freeing : ∀ {S : Scope} {i : Nat}, S.live i → Freeing (K S) i
  reset : ∀ {S : Scope} {i : Nat} {α : Type} {k : PUnit → Act α}, K (S.enter i) (k ⟨⟩) →
    K S (updateFrame i Frame.reset >>= k)
  start : ∀ {S : Scope} {a i : Nat} {α : Type} {k : PUnit → Act α}, S.live i → K (S.start a) (k ⟨⟩) →
    K S ((updateAction a fun x => { x with frame := i }) >>= k)
  action : ∀ {S : Scope} {a : Nat} {α : Type} {k : Action → Act α}, (∀ x j, k { x with frame := j } = k x) →
    (∀ x, K S (k x)) → K S (actionInfo a >>= k)

namespace Composing

variable {q : Bool} {K : {α : Type} → Act α → Prop} (h : Composing q K)

theorem ite (_ : Composing q K) {p : Prop} [Decidable p] {y : Act α} (hx : p → K x) (hy : ¬p → K y) :
    K (if p then x else y) :=
  iteInduction (motive := K) hx hy

include h

theorem of_pure (r : α) : K (pure r : Act α) := h.blind (.of_pure r)

theorem of_throw (f : Fault) : K (throw f : Act α) := h.blind (.of_throw f)

theorem of_throw_bind {f : Fault} : K (throw f >>= k) := h.blind .of_throw_bind

theorem blind_bind (hx : Blind q x) (hk : ∀ r, K (k r)) : K (x >>= k) :=
  h.bind (h.blind hx) hk

theorem mapM {f : α → Act β} (hf : ∀ r, K (f r)) (xs : List α) : K (xs.mapM f) := by
  induction xs with
  | nil => exact h.of_pure _
  | cons x xs ih =>
    rw [List.mapM_cons]
    exact h.bind (hf x) fun _ => h.bind ih fun _ => h.of_pure _

omit h in
/-- A look at the store that sees no frames, no actions and no notes. -/
theorem get_bind (h : Composing true K) {k : Store → Act α} (heq : ∀ s d, Setting.Fits d s → k (s.within d) = k s)
    (hk : ∀ s, K (k s)) : K (get >>= k) := by
  let bare (s : Store) : Store := { s with frames := #[], actions := #[], trace := [] }
  have hbare : Blind true (do pure (bare (← get)) : Act Store) := by
    refine .of_get_bind (fun _ => .of_pure _) fun s d hd => ?_
    obtain ⟨h₁, h₂, h₃⟩ := hd
    simp only [bare, within, h₁, h₂, h₃]
  have hsame : (get >>= k : Act α) = (do pure (bare (← get)) : Act Store) >>= k := by
    simp only [bind_assoc, pure_bind]
    refine bind_congr fun s => ?_
    exact heq (bare s) ⟨s.frames, s.actions, s.classTable, s.frameTable, s.checkedTypes, s.trace⟩ ⟨rfl, rfl, rfl⟩
  rw [hsame]
  exact h.blind_bind hbare hk

end Composing

namespace Attending

variable {q : Bool} {K : {α : Type} → Act α → Prop} {a : Nat} (h : Attending q K a)

include h

theorem currentVm : K (currentVm a) := by
  refine h.own fun f => ?_
  split
  · exact h.of_pure _
  · exact h.of_throw _

theorem register (name : Datum) : K (register a name) := by
  refine h.own fun f => ?_
  split
  · exact h.of_throw _
  · exact h.of_throw _
  · split
    · exact h.of_pure _
    · exact h.of_throw _

theorem classOperand (d : Datum) : K (classOperand a d) := by
  refine h.bind h.currentVm fun _ => ?_
  split
  · exact h.of_throw _
  · exact h.of_throw _
  · exact h.blind (.classNamed _)

theorem objectOperand (name : Datum) : K (objectOperand a name) := by
  refine h.bind (h.register name) fun v => ?_
  split
  · exact h.of_pure _
  · exact h.blind (.raise _ _)

theorem switchAt (label : Datum) : K (switchAt a label) := by
  refine h.own fun f => ?_
  dsimp only
  split
  · exact h.of_pure _
  · exact h.of_throw _

theorem checkCast (name type : Datum) : K (checkCast a name type) := by
  refine h.bind (h.register name) fun v => ?_
  split
  · refine h.blind_bind (.look fun _ _ => rfl) fun _ => h.bind (h.classOperand type) fun d => ?_
    refine h.blind_bind (.assignable _ _) fun _ => h.ite (fun _ => h.of_pure _) fun _ => ?_
    exact h.blind_bind (.plain _) fun _ => h.blind_bind (.plain _) fun _ => h.blind (.raise _ _)
  · exact h.of_pure _

end Attending

namespace Serving

variable {K : {α : Type} → Act α → Prop} {a : Nat} (h : Serving K a) (name label : Datum)

include h

theorem setRegister (name : Datum) (v : Value) : K (setRegister a name v) := by
  unfold Store.setRegister
  split
  · exact h.of_throw _
  · exact h.of_throw _
  · exact h.update fun _ => rfl

theorem finish (v : Value) : K (finish a v) := h.update fun _ => rfl

theorem convert {f : Value → Act Value} (hf : ∀ v, Blind true (f v)) (dest src : Datum) : K (convert a f dest src) :=
  h.bind (h.register src) fun v => h.blind_bind (hf v) fun _ => h.setRegister dest _

theorem branchIf (r : Relation) (x y : Value) (label : Datum) : K (branchIf a r x y label) :=
  h.blind_bind (.related r x y) fun _ => h.ite (fun _ => h.jump label) fun _ => h.of_pure _

theorem branchAt (labels : List Datum) (index : Value) : K (branchAt a labels index) := by
  refine h.blind_bind (.related _ _ _) fun _ => h.ite (fun _ => h.of_pure _) fun _ => ?_
  refine h.blind_bind (.related _ _ _) fun _ => h.ite (fun _ => h.of_pure _) fun _ => ?_
  split
  · exact h.of_throw _
  · split
    · exact h.jump _
    · exact h.of_throw _

theorem packedSwitch : K (packedSwitch a name label) := by
  have rest : ∀ (first : Datum) (labels : List Datum), K (do
      let v ← register a name
      Store.branchAt a labels (← apply .sub v (← literal first))) := by
    intro first labels
    refine h.bind (h.register name) fun v => h.blind_bind (.literal first) fun k => ?_
    exact h.blind_bind (.apply _ _ _) fun i => h.branchAt labels i
  refine h.bind (h.switchAt label) fun sw => ?_
  split
  · exact rest _ _
  · exact rest _ _
  · exact h.of_throw_bind

theorem firstBranch (v : Value) (branches : List (Datum × Datum)) : K (firstBranch a v branches) := by
  induction branches with
  | nil => exact h.of_pure _
  | cons branch rest ih =>
    refine h.blind_bind (.literal _) fun k => h.blind_bind (.equal _ _) fun _ => ?_
    exact h.ite (fun _ => h.jump _) fun _ => ih

theorem sparseSwitch : K (sparseSwitch a name label) := by
  refine h.bind (h.switchAt label) fun sw => h.bind (h.register name) fun v => ?_
  split
  · exact h.firstBranch v _
  · exact h.of_throw _

theorem invokeIntrinsic (methods : List (String × Intrinsic)) (registers owner method : Datum) :
    K (invokeIntrinsic a methods registers owner method) := by
  unfold Store.invokeIntrinsic
  dsimp only
  split
  · refine h.blind_bind (.of_pure _) fun r => h.bind (h.register r) fun v => ?_
    split
    · exact h.blind (.raise _ _)
    · exact h.blind_bind (.intrinsic _ v) fun _ => h.update fun _ => rfl
  · exact h.of_throw_bind
  · exact h.of_throw_bind

theorem makeArray (dest count type : Datum) : K (makeArray a dest count type) := by
  unfold Store.makeArray
  split
  · exact h.of_throw _
  · refine h.blind_bind (.attempt _) fun d => h.bind (h.register count) fun v => ?_
    split
    · exact h.of_throw _
    · exact h.blind_bind (.newList _) fun _ => h.setRegister dest _

theorem arrayGet (dest array index : Datum) : K (arrayGet a dest array index) := by
  refine h.bind (h.register index) fun i => h.bind (h.register array) fun v => ?_
  refine h.blind_bind (.outside i _ array) fun _ => h.ite (fun _ => h.blind .outOfBounds_bind) fun _ => ?_
  exact h.blind_bind (.elementAt v i) fun _ => h.setRegister dest _

theorem arrayPut (src array index : Datum) : K (arrayPut a src array index) := by
  refine h.bind (h.register index) fun i => h.bind (h.register array) fun v => ?_
  refine h.blind_bind (.outside i _ array) fun _ => h.ite (fun _ => h.blind .outOfBounds_bind) fun _ => ?_
  refine h.blind_bind (.equal _ _) fun _ => h.ite (fun _ => ?_) fun _ => ?_
  · split
    · exact h.bind (h.register src) fun _ => h.blind ((Blind.items _).bind fun _ => .setItems _ _)
    · exact h.of_throw _
  · refine h.bind (h.register src) fun x => ?_
    split
    · exact h.blind ((Blind.items _).bind fun _ => .ite (fun _ => .setItems _ _) fun _ => .of_throw _)
    · exact h.blind_bind (.plain _) fun _ => h.of_throw _
    · exact h.of_throw _
    · exact h.blind (.updateAnnot _ _)
    · exact h.of_throw _

theorem operate {run : Runner} {op : Operation} {operands : List Datum} (hcall : op ≠ .invoke)
    (hmake : op ≠ .newInstance) : K (operate run a op operands) := by
  have register {β : Type} {k : Value → Act β} (name : Datum) (hk : ∀ v, K (k v)) :
      K (register a name >>= k) := h.bind (h.register name) hk
  have fieldIn {k : Nat → Act Unit} (p : String × String) (hk : ∀ f, K (k f)) :
      K (do k (← fieldOf (← classOperand a (.text p.1)) p.2)) :=
    h.bind (h.classOperand _) fun i => h.blind_bind (.fieldOf i _) hk
  -- the cases are those of the definition, in its order
  unfold Store.operate
  split
  · exact h.of_pure _
  · exact h.finish _
  · exact register _ fun v => h.finish v
  · exact h.jump _
  · exact absurd rfl hcall
  · exact register _ fun v => h.blind_bind (.newError _ _) fun e => h.update fun _ => rfl
  · exact h.convert (fun v => (Blind.masked v _).bind fun _ => .of_pure _) _ _
  · exact h.convert .unpacked _ _
  · exact h.convert .toFloat _ _
  · refine register _ fun v => h.blind_bind (.fieldOperand _) fun p => fieldIn p fun f => ?_
    exact h.blind (.updateField f _)
  · refine h.blind_bind (.fieldOperand _) fun p => fieldIn p fun f => ?_
    exact h.blind_bind (.look fun _ _ => rfl) fun _ => h.setRegister _ _
  · refine h.bind (h.objectOperand _) fun o => h.blind_bind (.fieldOperand _) fun p => ?_
    exact h.blind_bind (.getField o _) fun _ => h.setRegister _ _
  · refine h.bind (h.objectOperand _) fun o => h.blind_bind (.fieldOperand _) fun p => ?_
    exact register _ fun v => h.blind (.setField o _ v)
  · exact h.blind_bind (.literal _) fun _ => h.setRegister _ _
  · exact h.bind (h.classOperand _) fun _ => h.setRegister _ _
  · exact h.own fun _ => h.setRegister _ _
  · exact register _ fun _ => h.setRegister _ _
  · exact h.own fun _ => h.setRegister _ _
  · exact absurd rfl hmake
  · exact h.makeArray _ _ _
  · exact h.checkCast _ _
  · exact h.packedSwitch _ _
  · exact h.sparseSwitch _ _
  · exact register _ fun x => register _ fun y => h.branchIf _ x y _
  · exact register _ fun x => h.branchIf _ x _ _
  · exact h.convert (fun v => (Blind.lengthOf v).bind fun _ => .of_pure _) _ _
  · refine h.own fun f => ?_
    dsimp only
    split
    · exact h.setRegister _ _
    · exact h.of_throw _
  · exact h.arrayGet _ _ _
  · exact h.arrayPut _ _ _
  · exact h.convert .negated _ _
  · exact h.convert .complemented _ _
  · refine register _ fun x => register _ fun y => ?_
    exact h.blind_bind (.applyInPlace _ x y) fun _ => h.setRegister _ _
  · refine register _ fun x => register _ fun y => ?_
    exact h.blind_bind (.apply _ x y) fun _ => h.setRegister _ _
  · refine register _ fun x => h.blind_bind (.literal _) fun v => ?_
    refine h.blind_bind (.masked v _) fun n => h.blind_bind (.apply _ x _) fun _ => ?_
    exact h.setRegister _ _
  · refine h.blind_bind (.literal _) fun v => h.blind_bind (.masked v _) fun n => ?_
    exact register _ fun x => h.blind_bind (.apply _ _ x) fun _ => h.setRegister _ _
  · exact h.update fun _ => rfl
  · exact h.of_throw _

end Serving

/-! ### Calls

A call runs a method through a runner; the runner is assumed to have the property, and the last lemma ties the
knot. -/

namespace Freeing

variable {K : {α : Type} → Act α → Prop} {i : Nat} (h : Freeing K i)

include h

theorem update_bind {g : Frame → Frame} {k : PUnit → Act α} (hg : ∀ f, (g f).code = f.code)
    (hk : ∀ r, K (k r)) : K (updateFrame i g >>= k) :=
  h.bind (h.frame hg) hk

theorem bindArguments (isStatic : Bool) (args : Arguments) : K (bindArguments isStatic i args) := by
  refine h.get_bind (fun s d hd => by simp only [within, hd.checkedTypes]) fun s => ?_
  refine h.ite (fun _ => h.of_throw_bind) fun _ => h.blind_bind (.forIn fun p _ => ?_) fun _ => h.frame fun _ => rfl
  exact (Blind.checkArgument _ _).bind fun _ => .of_pure _

/-- What a call does after its frame was reset. -/
theorem call {run : Runner} {vm m : Nat} (hrun : K (run vm m i)) (args : Arguments) : K (do
    match (← methodInfo m).locals? with
    | none => throw .noOperation
    | some n =>
      let isStatic := Access.meets (← methodInfo m).modifiers Access.static
      updateFrame i fun f =>
        { f with registers := (List.range n.toNat).map fun i => (s!"v{i}", Value.null) }
      unless isStatic do
        unless ← holds args.instance? do throw .noOperation
        updateFrame i fun f => { f with registers := f.registers.set "p0" args.instance? }
      Store.bindArguments isStatic i args
      run vm m i
      let f ← frameInfo i
      if ← holds f.error then raiseValue f.error
      updateFrame i Frame.reset
      pure f.returned) := by
  have ending (f : Frame) : K (do
      if ← holds f.error then raiseValue f.error
      updateFrame i Frame.reset
      pure f.returned) := by
    refine h.blind_bind (.holds _) fun failed => ?_
    split
    · refine h.blind_bind (.raiseValue _) fun (_ : PUnit) => ?_
      exact h.update_bind (fun _ => rfl) fun _ => h.of_pure _
    · exact h.update_bind (fun _ => rfl) fun _ => h.of_pure _
  have body := fun isStatic : Bool =>
    h.bind (h.bindArguments isStatic args) fun _ => h.bind hrun fun _ => h.look ending
  refine h.blind_bind (.look fun _ _ => rfl) fun info => ?_
  split
  · exact h.of_throw _
  · refine h.blind_bind (.look fun _ _ => rfl) fun info' => h.update_bind (fun _ => rfl) fun _ => ?_
    refine h.ite (fun _ => body _) fun _ => h.blind_bind (.holds _) fun present => ?_
    refine h.ite (fun _ => ?_) fun _ => h.of_throw_bind
    exact h.update_bind (fun _ => rfl) fun _ => body _

end Freeing

namespace Sustaining

variable {K : Scope → {α : Type} → Act α → Prop} (h : Sustaining K) {S : Scope}

include h

section Calls

variable {run : Runner} (hrun : ∀ {S : Scope} (vm m i : Nat), S.live i → K S (run vm m i))

include hrun

theorem callOn (vm : Nat) (target : Value) (args : Arguments) : K S (callOn run vm target args) := by
  have unregistered : K S (do throw (.unregistered (← plain target)) : Act Value) :=
    (h.composing S).blind_bind (.plain _) fun _ => (h.composing S).of_throw _
  unfold Store.callOn
  dsimp only
  split
  · refine (h.composing S).get_bind (fun s d hd => by simp only [within, hd.frameTable]) fun s => ?_
    refine (h.composing S).blind_bind (.look fun _ _ => rfl) fun info => ?_
    refine (h.composing S).blind_bind (.of_pure _) fun found => ?_
    split
    · exact unregistered
    · exact h.reset ((h.freeing (S.live_enter _)).call (hrun vm _ _ (S.live_enter _)) args)
  · exact unregistered

theorem callMethod (m : Nat) (args : Arguments) : K S (callMethod run m args) := by
  refine (h.composing S).blind_bind (.look fun _ _ => rfl) fun info => ?_
  split
  · exact (h.composing S).of_throw _
  · exact (h.composing S).ite (fun _ => (h.composing S).of_throw_bind) fun _ => h.callOn hrun _ _ args

theorem callValue (target : Value) (args : Arguments) : K S (callValue run target args) := by
  unfold Store.callValue
  split
  · exact h.callMethod hrun _ args
  · refine (h.composing S).blind_bind (.look fun _ _ => rfl) fun o => ?_
    refine (h.composing S).get_bind (fun s d hd => by simp only [within, hd.checkedTypes]) fun s => ?_
    refine (h.composing S).blind_bind (.hintsOf args) fun hints => (h.composing S).blind_bind (.attempt _) fun k => ?_
    split
    · exact h.callMethod hrun _ args
    · exact (h.composing S).of_throw _
  · exact (h.composing S).of_throw _

theorem construct (o : Nat) (values : List Value) : K S (construct run o values) := by
  refine (h.composing S).blind_bind (.look fun _ _ => rfl) fun info => ?_
  refine (h.composing S).blind_bind (.methodOf _ _) fun target => ?_
  exact (h.composing S).bind (h.callValue hrun _ _) fun _ => (h.composing S).of_pure _

variable {a : Nat} (ha : S.started a) (variant registers owner method : Datum)

include ha

theorem invokeMethod : K S (invokeMethod run a variant registers owner method) := by
  have serving := h.serving ha
  have call : ∀ (inst : Value) (rest : List Value) (i : Nat), K S (do
      let target ← methodOf i method.plain
      let vm ← currentVm a
      let result ← Store.callOn run vm target ⟨inst, rest, []⟩
      updateFrame (← currentFrame a) fun f => { f with callResult := result }) := by
    intro inst rest i
    refine serving.blind_bind (.methodOf i _) fun target => serving.bind serving.currentVm fun vm => ?_
    exact serving.bind (h.callOn hrun vm target _) fun _ => serving.update fun _ => rfl
  have ownCall : ∀ (inst : Value) (rest : List Value), K S (do
      let i ← classOperand a owner
      let target ← methodOf i method.plain
      let vm ← currentVm a
      let result ← Store.callOn run vm target ⟨inst, rest, []⟩
      updateFrame (← currentFrame a) fun f => { f with callResult := result }) := fun inst rest =>
    serving.bind (serving.classOperand owner) fun i => call inst rest i
  unfold Store.invokeMethod
  dsimp only
  split
  · refine serving.blind_bind (.of_pure _) fun names => ?_
    refine serving.bind (serving.mapM serving.register names) fun values => ?_
    refine serving.ite (fun _ => ownCall _ _) fun _ => ?_
    split
    · exact serving.of_throw_bind
    · refine serving.blind_bind (.look fun _ _ => rfl) fun o => serving.blind_bind (.look fun _ _ => rfl) fun info => ?_
      split
      · refine serving.ite (fun _ => ?_) fun _ => ownCall _ _
        exact serving.bind serving.currentVm fun _ => serving.blind_bind (.classNamed _) fun i => call _ _ i
      · exact ownCall _ _
    · exact serving.of_throw_bind
  · exact serving.of_throw_bind

theorem invoke : K S (invoke run a variant registers owner method) := by
  refine (h.composing S).ite (fun _ => ?_) fun _ => (h.composing S).of_pure _
  split
  · exact (h.serving ha).invokeIntrinsic _ registers owner method
  · exact h.invokeMethod hrun ha variant registers owner method

theorem makeInstance (name type : Datum) : K S (makeInstance run a name type) := by
  have serving := h.serving ha
  unfold Store.makeInstance
  split
  · exact serving.of_throw _
  · split
    · rename_i make hmake
      exact serving.blind_bind (.basicValue hmake) fun _ => serving.setRegister name _
    · refine serving.bind (serving.classOperand type) fun i => serving.blind_bind (.newObject i) fun o => ?_
      split
      · exact serving.bind (h.construct hrun _ _) fun _ => serving.setRegister name _
      · exact serving.setRegister name _

theorem operate (op : Operation) (operands : List Datum) : K S (operate run a op operands) := by
  have miscounted : K S (throw .operandCount : Act Unit) := (h.composing S).of_throw _
  by_cases hcall : op = .invoke
  · unfold Store.operate
    split
    all_goals first | exact h.invoke hrun ha _ _ _ _ | exact miscounted | contradiction
  · by_cases hmake : op = .newInstance
    · unfold Store.operate
      split
      all_goals first | exact h.makeInstance hrun ha _ _ | exact miscounted | contradiction
    · exact (h.serving ha).operate hcall hmake

omit ha in
theorem perform {i : Nat} (hi : S.live i) (operands : Datum) : K S (perform run a i operands) := by
  refine h.start hi (h.action (fun _ _ => rfl) fun x => ?_)
  split
  · exact (h.composing _).of_pure _
  · exact (h.composing _).blind_bind (.spread operands) fun _ => h.operate hrun (S.started_start a) _ _

end Calls

theorem iteration {n : Nat} (hrun : ∀ {S : Scope} (vm m i : Nat), S.live i → K S (runWithin n vm m i))
    (vm m : Nat) {i : Nat} (hi : S.live i) (f : Frame) : K S (iteration n vm m i f) := by
  have freeing := h.freeing hi
  refine freeing.blind_bind (.instructionAt f) fun x => freeing.blind_bind (.look fun _ _ => rfl) fun info => ?_
  refine h.action (fun _ _ => rfl) fun action => freeing.blind_bind (.note vm _) fun _ => ?_
  refine freeing.bind (h.perform hrun hi x.operands) fun _ => ?_
  exact freeing.update_bind (fun _ => rfl) fun _ => freeing.blind (.note vm _)

theorem runWithin (n vm m i : Nat) (hi : S.live i) : K S (runWithin n vm m i) := by
  induction n generalizing S vm m i with
  | zero => exact (h.composing S).of_throw _
  | succ n ih =>
    rw [runWithin_succ]
    refine (h.freeing hi).look fun f => (h.composing S).ite (fun _ => (h.composing S).of_pure _) fun _ => ?_
    exact (h.composing S).bind (h.iteration ih vm m hi f) fun _ => ih vm m i hi

theorem runner (vm m i : Nat) (hi : S.live i) : K S (runner vm m i) :=
  (h.freeing hi).look fun _ => h.runWithin _ vm m i hi

end Sustaining

/-! ### Contracts -/

/-- A contract that is kept by quiet steps, and by changes of the run of the frame for which an action was
started last. -/
structure Serves (c : Contract Store) (a : Nat) : Prop where
  quiet : ∀ {α : Type} {x : Act α}, Quiet x → c.Kept x
  current : ∀ {s : Store} {g : Frame → Frame}, c.holds s → (∀ f, (g f).code = f.code) →
    c.KeptAt (updateFrame (s.action a).frame g) s

/-- A contract that is kept by quiet steps, and by changes of the run of one frame. -/
structure Frees (c : Contract Store) (i : Nat) : Prop where
  quiet : ∀ {α : Type} {x : Act α}, Quiet x → c.Kept x
  frame : ∀ {g : Frame → Frame}, (∀ f, (g f).code = f.code) → c.Kept (updateFrame i g)

/-- A contract that is kept by quiet steps, by changes of the run of any frame, and by starting actions. -/
structure Sustains (c : Contract Store) : Prop where
  quiet : ∀ {α : Type} {x : Act α}, Quiet x → c.Kept x
  frame : ∀ i {g : Frame → Frame}, (∀ f, (g f).code = f.code) → c.Kept (updateFrame i g)
  start : ∀ a i, c.Kept (updateAction a fun x => { x with frame := i })

section Contracts

variable {c : Contract Store}

theorem composing_of_quiet (quiet : ∀ {α : Type} {x : Act α}, Quiet x → c.Kept x) (q : Bool) : Composing q c.Kept :=
  ⟨fun hx => quiet hx.quiet, Contract.Kept.bind⟩

theorem Serves.serving {a : Nat} (h : Serves c a) : Serving c.Kept a where
  toComposing := composing_of_quiet h.quiet true
  own hk := (h.quiet (.look _)).bind fun _ => (h.quiet (.look _)).bind hk
  update hg s hs := Contract.keptAt_bind_of_ok (outcome_currentFrame s a) (c.refl s) (h.current hs hg)
  jump label s hs := by
    have composing := composing_of_quiet h.quiet true
    refine Contract.keptAt_bind_of_ok (outcome_currentFrame s a) (c.refl s) ?_
    refine Contract.keptAt_bind_of_ok (outcome_frameInfo s _) (c.refl s) ?_
    split
    · exact composing.of_throw _ s hs
    · exact composing.of_throw _ s hs
    · split
      · exact h.current hs fun _ => rfl
      · exact composing.blind (.raise _ _) s hs

theorem Frees.freeing {i : Nat} (h : Frees c i) : Freeing c.Kept i where
  toComposing := composing_of_quiet h.quiet true
  look hk := (h.quiet (.look _)).bind hk
  frame := h.frame

variable (h : Sustains c)

include h

theorem Sustains.sustaining : Sustaining fun _ => c.Kept where
  composing _ := composing_of_quiet h.quiet true
  serving _ := Serves.serving ⟨h.quiet, fun hs hg => h.frame _ hg _ hs⟩
  freeing _ := Frees.freeing ⟨h.quiet, h.frame _⟩
  reset {_ i _ _} hk := (h.frame i (g := Frame.reset) fun _ => rfl).bind fun _ => hk
  start _ hk := (h.start _ _).bind fun _ => hk
  action _ hk := (h.quiet (.look _)).bind hk

theorem Sustains.callOn {run : Runner} (hrun : ∀ vm m i, c.Kept (run vm m i)) (vm : Nat)
    (target : Value) (args : Arguments) : c.Kept (callOn run vm target args) :=
  h.sustaining.callOn (S := .all) (fun vm m i _ => hrun vm m i) vm target args

theorem Sustains.callValue (target : Value) (args : Arguments) : c.Kept (callValue runner target args) :=
  h.sustaining.callValue (S := .all) h.sustaining.runner target args

theorem Sustains.runWithin (n vm m i : Nat) : c.Kept (runWithin n vm m i) :=
  h.sustaining.runWithin (S := .all) n vm m i trivial

end Contracts

/-! ### The code -/

/-- The contract of steps that leave the code of every frame alone. -/
def codeContract : Contract Store where
  holds _ := True
  leads s t := ∀ i, (t.frame i).code = (s.frame i).code
  admits _ _ := True
  refl _ _ := rfl
  trans h h' i := (h' i).trans (h i)

/-- A step that leaves the code of every frame alone. -/
def KeepsCode (x : Act α) : Prop := codeContract.Kept x

theorem Quiet.keepsCode (hx : Quiet x) : KeepsCode x := by
  intro s hs
  refine ⟨trivial, fun i => ?_, fun _ _ => trivial⟩
  rw [frame, (hx s hs).leads.1]
  rfl

theorem KeepsCode.updateFrame (i : Nat) {g : Frame → Frame} (hg : ∀ f, (g f).code = f.code) :
    KeepsCode (updateFrame i g) := by
  refine fun s hs => .of_ok (outcome_modify s _) hs fun j => ?_
  simp only [frame, Array.getElem?_modify]
  split
  · cases s.frames[j]? with
    | none => rfl
    | some f => exact hg f
  · rfl

theorem codeContract_sustains : Sustains codeContract where
  quiet := Quiet.keepsCode
  frame := KeepsCode.updateFrame
  start _ _ s hs := .of_ok (outcome_modify s _) hs fun _ => rfl

namespace KeepsCode

theorem runWithin (n vm m i : Nat) : KeepsCode (runWithin n vm m i) :=
  codeContract_sustains.runWithin n vm m i

theorem iteration (n vm m i : Nat) (f : Frame) : KeepsCode (iteration n vm m i f) :=
  codeContract_sustains.sustaining.iteration (S := .all) (codeContract_sustains.sustaining.runWithin n) vm m trivial f

end KeepsCode

end Store

end Dalvik
