import Dalvik.Proofs.Isolation
import Dalvik.Proofs.Pairing

/-!
# What loading and running keep

Stores come about by making machines, loading classes, making objects and calling methods (`Store.Reached`). Loading
changes a store in a few ways (`Store.Loading`), and enters lines into frames in a few ways (`Frame.Entry`); a property
of steps that allows for these is one of all that loading does. Running changes the runs of frames and starts actions.
Whatever else the two do leaves the frames alone, so a contract that allows for their changes of frames holds in every
store that can be reached, once it holds in the first one (`Store.Reached.holds`). The parameter types that methods are
checked against are one example: they are kept in one list for all methods, and nothing is ever added to it
(`Store.Reached.checkedTypes`).
-/

namespace Dalvik

open LoadNode Contract

/-- The changes of a frame by what is loaded into it. -/
inductive Frame.Entry : (Frame → Frame) → Prop
  | machine (vm : Nat) : Entry fun f => { f with vm? := some vm }
  | instruction (x : Instruction) :
      Entry fun f => { f with instructions := f.instructions.push x, loaded := f.loaded + 1 }
  | label (w : String) : Entry fun f =>
      { f with labels := f.labels.set (Reader.labelName w) f.loaded, loaded := f.loaded + 1,
               lastLabel? := some (Reader.labelName w) }
  | handler (start type target : String) : Entry fun f => { f with handlers := f.handlers.set start (type, target) }
  | array (v : Value) : Entry fun f => { f with arrays := f.arrays.set f.lastLabel? v }
  | switch (s : Switch) : Entry fun f => { f with switches := f.switches.set f.lastLabel? s }

namespace Store

variable {α : Type} {c : Contract Store}

/-! ### Loading -/

/-- The store with other frames registered. -/
def registering (w : Store) (table : Table String Nat) : Store := { w with frameTable := table }

/-- The objects, the classes and their fields, the frames and the actions of a store, and nothing else of it. -/
def core (w : Store) : Store :=
  { Store.initial with objects := w.objects, classes := w.classes, fields := w.fields, frames := w.frames,
                       actions := w.actions, checkedTypes := w.checkedTypes }

/-- A change that leaves the core of a store alone, and has nothing to do with which frames are registered. -/
structure Apart (g : Store → Store) : Prop where
  core : ∀ w, (g w).core = w.core
  table : ∀ w table, g (w.registering table) = (g w).registering table

theorem Apart.keeps {g : Store → Store} (hg : Apart g) (f : Store → α) (hf : ∀ w : Store, f w.core = f w) (w : Store) :
    f (g w) = f w := by
  rw [← hf, hg.core, hf]

/-- A property of steps that all of loading has: it looks at anything but the registered frames, makes classes and
fields, changes what a class has beside its name and its fields and what a field has beside its name and its value, makes
and registers frames, and enters lines into them. -/
structure Loading (K : {α : Type} → Act α → Prop) : Prop where
  ret : ∀ {α : Type} (a : α), K (pure a)
  throw : ∀ {α : Type} (f : Fault), K (throw f : Act α)
  bind : ∀ {α β : Type} {x : Act α} {k : α → Act β}, K x → (∀ a, K (k a)) → K (x >>= k)
  look : ∀ {α : Type} {k : Store → Act α}, (∀ w table, k (w.registering table) = k w) → (∀ w, K (k w)) → K (get >>= k)
  apart : ∀ {g : Store → Store}, Apart g → K (modify g)
  makeClass : ∀ {x : ClassInfo}, x.fields = [] → (∃ n, x.name = .ofString n) →
    K (modify fun s => { s with classes := s.classes.push x })
  updateClass : ∀ i {g : ClassInfo → ClassInfo}, (∀ x, (g x).fields = x.fields ∧ (g x).name = x.name) →
    K (updateClass i g)
  enterField : ∀ owner {x : FieldInfo}, (∀ o, x.value ≠ .object o) → K (do
    let f := (← get).fields.size
    modify fun s => { s with fields := s.fields.push x }
    setMember owner x.name (.field f)
    pure (LoadNode.field f))
  updateField : ∀ i {g : FieldInfo → FieldInfo}, (∀ x, (g x).name = x.name ∧ (g x).value = x.value) →
    K (updateField i g)
  fresh : K (newFrame .empty)
  register : ∀ vm m i, K (registerFrame vm m i)
  entry : ∀ i {g : Frame → Frame}, Frame.Entry g → K (updateFrame i g)

namespace Loading

variable {β : Type} {K : {α : Type} → Act α → Prop} (h : Loading K) (i : Nat) {f : Store → α} (vm owner : Nat)

include h

theorem throw_bind {f : Fault} {k : α → Act β} : K (MonadExcept.throw f >>= k) := h.throw f

omit h in
theorem ite (_ : Loading K) {p : Prop} [Decidable p] {x y : Act α} (hx : p → K x) (hy : ¬p → K y) :
    K (if p then x else y) :=
  iteInduction (motive := K) hx hy

theorem attempt (x : Except Fault α) : K (attempt x) := by
  cases x with
  | ok a => exact h.ret a
  | error f => exact h.throw f

theorem mapM {f : α → Act β} (hf : ∀ a, K (f a)) (xs : List α) : K (xs.mapM f) := by
  induction xs with
  | nil => exact h.ret _
  | cons x xs ih =>
    rw [List.mapM_cons]
    exact h.bind (hf x) fun _ => h.bind ih fun _ => h.ret _

theorem find (hf : ∀ w table, f (w.registering table) = f w) : K (do pure (f (← get)) : Act α) :=
  h.look (fun w table => by rw [hf]) fun _ => h.ret _

theorem make {g : Store → Store} (hf : ∀ w table, f (w.registering table) = f w) (hg : K (modify g)) :
    K (do let a := f (← get); modify g; pure a : Act α) :=
  h.look (fun w table => by rw [hf]) fun _ => h.bind hg fun _ => h.ret _

theorem newList (xs : List Value) : K (newList xs) :=
  h.look (fun _ _ => rfl) fun _ => h.bind (h.apart ⟨fun _ => rfl, fun _ _ => rfl⟩) fun _ => h.ret _

theorem newType (d : Descriptor) : K (newType d) :=
  h.look (fun _ _ => rfl) fun _ => h.bind (h.apart ⟨fun _ => rfl, fun _ _ => rfl⟩) fun _ => h.ret _

theorem ofLiteral (v : Literal) : K (ofLiteral v) := by
  cases v with
  | type d => exact h.newType d
  | _ => exact h.ret _

theorem parseValue (s : String) : K (parseValue s) := h.bind (h.attempt _) h.ofLiteral

theorem updateMethod (g : MethodInfo → MethodInfo) : K (updateMethod i g) :=
  h.apart ⟨fun _ => rfl, fun _ _ => rfl⟩

theorem updateAnnot (g : AnnotInfo → AnnotInfo) : K (updateAnnot i g) :=
  h.apart ⟨fun _ => rfl, fun _ _ => rfl⟩

theorem newMember (type : String) (parent : Value) (signature : String) (modifiers : Int) (annots : List Value) :
    K (newMember type parent signature modifiers annots) := by
  have holds : K (holds parent) := by
    unfold Store.holds
    split
    case h_7 => exact h.bind (h.find fun _ _ => rfl) fun _ => h.ret _
    all_goals exact h.ret _
  exact h.bind (h.attempt _) fun _ => h.bind holds fun _ => h.ite (fun _ => h.throw_bind) fun _ => h.ret _

theorem newClass (parent : Value) (signature : String) (modifiers : Int) (annots : List Value) :
    K (newClass parent signature modifiers annots) :=
  h.bind (h.newMember _ _ _ _ _) fun _ => h.make (fun _ _ => rfl) (h.makeClass rfl ⟨_, rfl⟩)

theorem newMethod (vm? : Option Nat) (owner : Nat) (signature : String) (modifiers : Int) :
    K (newMethod vm? owner signature modifiers) := by
  refine h.bind (h.find fun _ _ => rfl) fun info => h.bind (h.newMember _ _ _ _ _) fun m => ?_
  split
  · exact h.throw _
  · refine h.bind (h.attempt _) fun _ => h.bind (h.attempt _) fun _ => h.bind (h.attempt _) fun _ => ?_
    exact h.make (fun _ _ => rfl) (h.apart ⟨fun _ => rfl, fun _ _ => rfl⟩)

theorem newReading (c? : Option Nat) : K (newReading c?) :=
  h.make (fun _ _ => rfl) (h.apart ⟨fun _ => rfl, fun _ _ => rfl⟩)

theorem classRead (reading : Nat) : K (classRead reading) := by
  refine h.look (fun _ _ => rfl) fun w => ?_
  split
  · exact h.ret _
  · exact h.throw _

theorem addAnnot (owner : Value) (flags type : Datum) {add : Value → Act Unit} (hadd : ∀ v, K (add v)) :
    K (addAnnot owner flags type add) := by
  refine h.bind (h.bind (h.newMember _ _ _ _ _) fun _ => h.make (fun _ _ => rfl) (h.apart ⟨fun _ => rfl, fun _ _ => rfl⟩)) fun _ =>
    h.bind (hadd _) fun _ => h.ret _

theorem addInner (name flags : Datum) : K (addInner vm owner name flags) := by
  refine h.bind (h.newClass _ _ _ _) fun _ => h.bind (h.ite (fun _ => h.throw_bind) fun _ => ?_) fun _ =>
    h.bind (h.newReading _) fun _ => h.ret _
  exact h.updateClass _ fun _ => ⟨rfl, rfl⟩

theorem addField (owner : Nat) (name flags type value : Datum) : K (addField owner name flags type value) := by
  have rest {v : Value} (hv : ∀ o, v ≠ .object o) : K (do
      let f ← newField type.plain (.cls owner) (name.plain ++ ":" ++ type.plain) (LoadNode.number flags) name.plain v
      setMember owner name.plain (.field f)
      pure (LoadNode.field f)) := by
    simp only [newField, bind_assoc, pure_bind]
    exact h.bind (h.newMember _ _ _ _ _) fun m => h.enterField owner (x := ⟨m, name.plain, v⟩) hv
  have literal (lit : Literal) {k : Value → Act LoadNode} (hk : ∀ {v : Value}, (∀ o, v ≠ .object o) → K (k v)) :
      K (Store.ofLiteral lit >>= k) := by
    cases lit with
    | type d =>
      simp only [Store.ofLiteral, Store.newType, bind_assoc, pure_bind]
      exact h.look (fun _ _ => rfl) fun _ => h.bind (h.apart ⟨fun _ => rfl, fun _ _ => rfl⟩) fun _ => hk nofun
    | _ => exact hk nofun
  refine h.ite (fun _ => ?_) fun _ => rest nofun
  unfold Store.parseValue
  rw [bind_assoc]
  exact h.bind (h.attempt _) fun lit => literal lit rest

theorem addMethod (name flags parameters result : Datum) : K (addMethod vm owner name flags parameters result) := by
  refine h.bind (h.newMethod _ _ _ _) fun m => h.bind h.fresh fun i => h.bind (h.register _ _ _) fun _ =>
    h.bind (h.ite (fun _ => h.throw_bind) fun _ => h.bind (h.find fun _ _ => rfl) fun info => ?_) fun _ => h.ret _
  split
  · exact h.apart ⟨fun _ => rfl, fun _ _ => rfl⟩
  · refine h.look (fun _ _ => rfl) fun _ => h.bind (h.apart ⟨fun _ => rfl, fun _ _ => rfl⟩) fun _ => ?_
    exact h.updateClass _ fun _ => ⟨rfl, rfl⟩

theorem onClass (vm reading : Nat) (e : Event) : K (onClass vm reading e) := by
  unfold LoadNode.onClass
  split
  · exact h.bind (h.newClass _ _ _ _) fun c =>
      h.bind (h.apart ⟨fun _ => rfl, fun _ _ => rfl⟩) fun _ => h.ret _
  · refine h.bind (h.classRead _) fun c => ?_
    split
    · exact h.throw _
    · exact h.bind (h.attempt _) fun d => h.bind (h.newType d) fun t =>
        h.bind (h.updateClass _ fun _ => ⟨rfl, rfl⟩) fun _ => h.ret _
  · exact h.bind (h.classRead _) fun c => h.bind (h.attempt _) fun d =>
      h.bind (h.updateClass _ fun _ => ⟨rfl, rfl⟩) fun _ => h.ret _
  · exact h.bind (h.classRead _) fun c => h.addAnnot _ _ _ fun _ => h.updateClass _ fun _ => ⟨rfl, rfl⟩
  · exact h.bind (h.classRead _) fun c => h.bind (h.addInner _ _ _ _) fun _ => h.ret _
  · exact h.bind (h.classRead _) fun c => h.bind (h.addField _ _ _ _ _) fun _ => h.ret _
  · exact h.bind (h.classRead _) fun c => h.bind (h.addMethod _ _ _ _ _ _) fun _ => h.ret _
  · exact h.ret _

theorem bindInstruction (name : String) (operands : Datum) :
    K (bindInstruction i name operands) := by
  have add (a : Nat) : K (addInstruction i a operands) := h.entry i (.instruction ⟨a, operands⟩)
  refine h.bind (h.find fun _ _ => rfl) fun f => ?_
  split
  · exact h.throw _
  · refine h.bind (h.bind (h.find fun _ _ => rfl) fun info => ?_) fun table => ?_
    · split
      · exact h.ret _
      · exact h.find fun _ _ => rfl
    · refine h.ite (fun _ => h.throw_bind) fun _ => ?_
      split
      · exact add _
      · exact h.bind (h.find fun _ _ => rfl) fun info => h.ite (fun _ => h.throw _) fun _ => add _

theorem onMethod (m i : Nat) {e : Event} (he : e.Told ∨ ∃ text, e = .comment text) :
    K (onMethod m i e) := by
  have ending {x : Act Unit} (hx : K x) : K (do x; pure (none : Option LoadNode)) := h.bind hx fun _ => h.ret _
  have entry {g : Frame → Frame} (hg : Frame.Entry g) : K (do updateFrame i g; pure (none : Option LoadNode)) :=
    ending (h.entry i hg)
  unfold LoadNode.onMethod
  split
  · exact h.addAnnot _ _ _ fun _ => h.updateMethod _ _
  · rcases he with ⟨w, rfl⟩ | ⟨text, htext⟩
    · exact entry (.label w)
    · cases htext
  · exact ending (h.updateMethod _ _)
  · exact h.look (fun _ _ => rfl) fun w => ending (h.updateMethod _ _)
  · split
    · exact entry (.handler _ _ _)
    · exact h.throw_bind
  · split
    · exact entry (.handler _ _ _)
    · exact h.throw_bind
  · exact entry (.instruction ⟨_, _⟩)
  · exact entry (.instruction ⟨_, _⟩)
  · exact ending (h.bindInstruction _ _ _)
  · exact ending (h.bindInstruction _ _ _)
  · refine h.bind (h.mapM (fun d => ?_) _) fun vs => h.bind (h.newList _) fun l => entry (.array l)
    split
    · exact h.ofLiteral _
    · exact h.ret _
  · exact entry (.switch _)
  · exact entry (.switch _)
  · exact h.ret _

theorem onAnnot (a : Nat) (e : Event) : K (onAnnot a e) := by
  unfold LoadNode.onAnnot
  split
  · exact h.bind (h.parseValue _) fun _ => h.bind (h.updateAnnot _ _) fun _ => h.ret _
  · exact h.bind (h.mapM h.parseValue _) fun _ => h.bind (h.newList _) fun _ =>
      h.bind (h.updateAnnot _ _) fun _ => h.ret _
  · exact h.addAnnot _ _ _ fun _ => h.updateAnnot _ _
  · exact h.ret _

theorem deliver (n : LoadNode) {e : Event} (he : e.Told ∨ ∃ text, e = .comment text) : K (n.deliver e) := by
  unfold LoadNode.deliver
  split
  · exact h.onClass _ _ _
  · exact h.onMethod _ _ he
  · exact h.addAnnot _ _ _ fun _ => h.updateField _ fun _ => ⟨rfl, rfl⟩
  · exact h.ret _
  · exact h.onAnnot _ _

end Loading

/-- A contract of the machine as one of sessions that load into it. -/
def loading (c : Contract Store) : Contract (Session LoadNode Store) where
  holds s := c.holds s.world
  leads s t := c.leads s.world t.world
  admits _ _ := True
  refl _ := c.refl _
  trans h h' := c.trans h h'

theorem loading_reading {x : Act α} (hx : c.Kept x) : (loading c).Kept (reading x) := by
  rintro ⟨src, k, st, w⟩ hs
  have hkept := hx w hs
  refine ⟨?_, ?_, fun _ _ => trivial⟩
  · exact hkept.holds
  · exact hkept.leads

namespace Loading

variable {c : Contract Store} (h : Loading c.Kept)

include h

theorem define (vm : Nat) (input : Input) : (loading c).Kept (define vm input) := by
  refine (loading_reading (h.newReading none)).bind fun i => Kept.bind (fun s hs => ?_) fun _ =>
    loading_reading (h.look (fun _ _ => rfl) fun w => ?_)
  · have hvisit := loadReader.visit_keeps (fun w => c.holds w ∧ c.leads s.world w) loadHost_private (fun _ ht => ht)
      (fun n e he t ht => ?_) input (.cls vm i) ⟨hs, c.refl _⟩
    · exact ⟨hvisit.1, hvisit.2, fun _ _ => trivial⟩
    · have hkept := h.deliver n he t.world ht.1
      exact ⟨hkept.holds, c.trans ht.2 hkept.leads⟩
  · unfold registerClass?
    split
    · exact h.throw _
    · exact h.bind (h.bind (h.find fun _ _ => rfl) fun _ => h.apart ⟨fun _ => rfl, fun _ _ => rfl⟩) fun _ => h.ret _

theorem newVm (actions : Table String Nat) (strict traced : Bool) : c.Kept (newVm actions strict traced) :=
  h.make (fun _ _ => rfl) (h.apart ⟨fun _ => rfl, fun _ _ => rfl⟩)

end Loading

/-- A contract that is kept by quiet steps, by making frames, and by what is loaded into frames. -/
structure Builds (c : Contract Store) : Prop where
  quiet : ∀ {α : Type} {x : Act α}, Quiet x → c.Kept x
  fresh : c.Kept (newFrame .empty)
  entry : ∀ i {g : Frame → Frame}, Frame.Entry g → c.Kept (updateFrame i g)

theorem Builds.loading (h : Builds c) : Loading c.Kept where
  ret := kept_pure
  throw f := h.quiet (Blind.of_throw (q := true) f).quiet
  bind := Kept.bind
  look _ hk := kept_get.bind hk
  apart hg := h.quiet (.of_modify fun w => 
    ⟨hg.keeps frames (fun _ => rfl) w, hg.keeps actions (fun _ => rfl) w, hg.keeps checkedTypes (fun _ => rfl) w⟩)
  makeClass _ _ := h.quiet (.of_modify fun _ => by exact ⟨rfl, rfl, rfl⟩)
  updateClass _ _ _ := h.quiet (.of_modify fun _ => by exact ⟨rfl, rfl, rfl⟩)
  enterField _ _ _ := kept_get.bind fun _ => (h.quiet (.of_modify fun _ => by exact ⟨rfl, rfl, rfl⟩)).bind fun _ =>
    (kept_ite (fun _ => h.quiet (Blind.of_throw (q := true) _).quiet) fun _ =>
      h.quiet (.of_modify fun _ => by exact ⟨rfl, rfl, rfl⟩)).bind fun _ => kept_pure _
  updateField _ _ _ := h.quiet (.of_modify fun _ => by exact ⟨rfl, rfl, rfl⟩)
  fresh := h.fresh
  register vm _ i := (h.quiet (.look _)).bind fun _ => kept_get.bind fun _ =>
    kept_ite (fun _ => kept_pure _) fun _ =>
      (h.quiet (.of_modify fun _ => by exact ⟨rfl, rfl, rfl⟩)).bind fun _ => h.entry i (.machine vm)
  entry := h.entry

theorem Builds.load (h : Builds c) (hrun : Sustains c) (vm : Nat) (input : Input) (init : Bool) :
    (Store.loading c).Kept (load vm input init) := by
  have initClass (k : Nat) : c.Kept (initClass runner k) := by
    refine (h.quiet (.look _)).bind fun info => (h.quiet (Blind.methodIn (q := true) _ _).quiet).bind fun found => ?_
    split
    · exact kept_pure _
    · exact (hrun.callValue _ _).bind fun _ => kept_pure _
  refine (h.loading.define vm input).bind fun k => kept_ite (fun _ => ?_) fun _ => kept_pure _
  exact (loading_reading (initClass k)).bind fun _ => kept_pure _

/-! ### Stores that can be reached -/

/-- The stores that come about by making machines, loading classes, making objects and calling methods, any
of which may end in a fault. -/
inductive Reached : Store → Prop
  | initial : Reached .initial
  | machine {w : Store} (actions : Table String Nat) (strict traced : Bool) :
      Reached w → Reached (outcome (newVm actions strict traced) w).2
  | load {s : Session LoadNode Store} (vm : Nat) (input : Input) (init : Bool) :
      Reached s.world → Reached (outcome (load vm input init) s).2.world
  | object {w : Store} (c : Nat) : Reached w → Reached (outcome (newObject c) w).2
  | call {w : Store} (target : Value) (args : Arguments) :
      Reached w → Reached (outcome (callValue runner target args) w).2

theorem Reached.holds (hload : Builds c) (hrun : Sustains c) (hinitial : c.holds .initial)
    {w : Store} (h : Reached w) : c.holds w := by
  induction h with
  | initial => exact hinitial
  | @machine w actions strict traced _ ih =>
    exact (hload.loading.newVm actions strict traced w ih).holds
  | @load s vm input init _ ih => exact (hload.load hrun vm input init s ih).holds
  | @object w k _ ih => exact (hload.quiet (Blind.newObject k).quiet w ih).holds
  | @call w target args _ ih => exact (hrun.callValue target args w ih).holds

/-- The contract of stores without types to check arguments against. -/
def typesContract : Contract Store where
  holds s := s.checkedTypes = []
  leads _ _ := True
  admits _ _ := True
  refl _ := trivial
  trans _ _ := trivial

theorem Reached.checkedTypes {w : Store} (h : Reached w) : w.checkedTypes = [] := by
  have quiet {α : Type} {x : Act α} (hx : Quiet x) : typesContract.Kept x :=
    fun s hs => ⟨(hx s trivial).leads.2.2.trans hs, trivial, fun _ _ => trivial⟩
  refine Reached.holds (c := typesContract) ?_ ?_ rfl h
  · exact ⟨quiet, fun s hs => .of_ok (bind_ok s rfl) hs trivial,
      fun i g _ s hs => .of_ok (outcome_updateFrame s i g) hs trivial⟩
  · exact ⟨quiet, fun i g _ s hs => .of_ok (outcome_updateFrame s i g) hs trivial,
      fun _ _ s hs => .of_ok (outcome_modify s _) hs trivial⟩

end Store

end Dalvik
