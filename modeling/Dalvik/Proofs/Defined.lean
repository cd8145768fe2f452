import Dalvik.Proofs.Heap
import Dalvik.Proofs.Reach

/-!
# Defining classes keeps the store in order

A class is defined while there may be classes, but no objects: what is loaded makes fields and enters them into the
tables of classes, and touches neither registers nor the values of fields that are there already. So every store that
comes about by defining classes (`Store.Loaded`) is in order, and its fields have the values they were declared with.
-/

namespace Dalvik.Store

open Contract LoadNode Option Array

variable {w : Store}
variable {w' : Store} {p : Place} {i : Nat} {operands d : Datum}

/-- A change that keeps the objects, the fields and their values, and the registers. -/
structure Tame (w w' : Store) : Prop where
  objects : w'.objects = w.objects
  tables : ∀ c, (w'.cls c).fields = (w.cls c).fields
  names : ∀ c, isPlainName (w.cls c).name = true → isPlainName (w'.cls c).name = true
  count : w'.fields.size = w.fields.size
  fields : ∀ f, (w'.field f).name = (w.field f).name ∧ (w'.field f).value = (w.field f).value
  registers : ∀ i, (w'.frame i).registers = (w.frame i).registers

/-- The contract of loading: the store stays in order while there are no objects, and fields keep the values that they
were declared with. -/
def loadContract : Contract Store where
  holds w := Ordered w ∧ w.objects = #[]
  leads w w' := w.fields.size ≤ w'.fields.size ∧ ∀ f < w.fields.size, (w'.field f).value = (w.field f).value
  admits _ _ := True
  refl _ := ⟨Nat.le_refl _, fun _ _ => rfl⟩
  trans h h' := ⟨Nat.le_trans h.1 h'.1, fun f hf => (h'.2 f (Nat.lt_of_lt_of_le hf h.1)).trans (h.2 f hf)⟩

theorem Tame.ordered (htame : Tame w w') (h : Ordered w) (hobjects : w.objects = #[]) : Ordered w' := by
  have hfieldIn (c : Nat) (name : String) : w'.fieldIn? c name = w.fieldIn? c name := by
    rw [fieldIn?, fieldIn?, htame.tables]
  refine ⟨fun c => htame.names c (h.names c), ?_, ?_, ?_, ?_⟩
  · intro c name f hf
    rw [hfieldIn] at hf
    rw [htame.count, (htame.fields f).1]
    exact h.fields hf
  · intro o name f ho
    rw [htame.objects, hobjects] at ho
    exact absurd ho (Nat.not_lt_zero o)
  · intro i name o ho
    rw [htame.registers] at ho
    rw [htame.objects]
    exact h.registers ho
  · intro p o hp
    have hvalue : w'.valueAt? p = w.valueAt? p := by
      cases p with
      | own o name => simp only [valueAt?, object, htame.objects]
      | common f => simp only [valueAt?, (htame.fields f).2]
    rw [hvalue] at hp
    rw [htame.objects]
    exact h.references hp

theorem loads_modify {g : Store → Store} (hg : ∀ w, Tame w (g w)) : loadContract.Kept (modify g) :=
  fun w hw => .of_ok (outcome_modify w g) ⟨(hg w).ordered hw.1 hw.2, (hg w).objects.trans hw.2⟩
    ⟨Nat.le_of_eq (hg w).count.symm, fun f _ => ((hg w).fields f).2⟩

theorem loads_updateFrame (i : Nat) {g : Frame → Frame} (hg : Frame.Entry g) : loadContract.Kept (updateFrame i g) := by
  refine loads_modify fun w => ⟨rfl, fun _ => rfl, fun _ h => h, rfl, fun _ => ⟨rfl, rfl⟩, fun j => ?_⟩
  simp only [frame, getElem?_modify]
  split
  · cases w.frames[j]? with
    | none => rfl
    | some f => cases hg <;> rfl
  · rfl

theorem field_push (w : Store) (x : FieldInfo) (f : Nat) :
    ({ w with fields := w.fields.push x } : Store).field f = if f = w.fields.size then x else w.field f := by
  simp only [field, getElem?_push]
  split <;> rfl

theorem Ordered.pushField (h : Ordered w) (x : FieldInfo) (hx : ∀ o, x.value ≠ .object o) :
    Ordered { w with fields := w.fields.push x } := by
  have hkeep {c f : Nat} {name : String} (hf : w.fieldIn? c name = some f) : f ≠ w.fields.size :=
    Nat.ne_of_lt (h.fields hf).1
  refine ⟨h.names, ?_, ?_, h.registers, ?_⟩
  · intro c name f hf
    rw [field_push, if_neg (hkeep hf), size_push]
    have hfield := h.fields hf
    exact ⟨by omega, hfield.2⟩
  · intro o name f ho hf hown
    rw [isCommon, field_push, if_neg (hkeep hf)] at hown
    exact h.values ho hf hown
  · intro p o hp
    cases p with
    | own o' name => exact h.references (p := .own o' name) hp
    | common f =>
      rw [valueAt?, field_push] at hp
      split at hp
      · exact absurd (some.inj hp) (hx o)
      · exact h.references (p := .common f) hp

theorem Ordered.enterField (h : Ordered w) (hobjects : w.objects = #[]) (owner : Nat) {key : String} {f : Nat}
    (hf : f < w.fields.size) (hname : (w.field f).name = key) :
    Ordered { w with classes := w.classes.modify owner fun c => { c with fields := c.fields.set key f } } := by
  have hcls (c : Nat) : (({ w with classes := w.classes.modify owner fun c =>
      { c with fields := c.fields.set key f } } : Store).cls c).name = (w.cls c).name ∧
      ∀ name g, ({ w with classes := w.classes.modify owner fun c => { c with fields := c.fields.set key f } } :
        Store).fieldIn? c name = some g → w.fieldIn? c name = some g ∨ name = key ∧ g = f := by
    simp only [fieldIn?, cls, getElem?_modify]
    split
    · cases w.classes[c]? with
      | none => exact ⟨rfl, fun _ _ => .inl⟩
      | some x =>
        refine ⟨rfl, fun name g hg => ?_⟩
        simp only [map_some, getD_some, Table.get?_set] at hg
        split at hg
        · exact .inr ⟨‹_›, (some.inj hg).symm⟩
        · exact .inl hg
    · exact ⟨rfl, fun _ _ => .inl⟩
  refine ⟨fun c => (hcls c).1 ▸ h.names c, ?_, ?_, h.registers, h.references⟩
  · intro c name g hg
    rcases (hcls c).2 name g hg with hg | ⟨rfl, rfl⟩
    · exact h.fields hg
    · exact ⟨hf, hname⟩
  · intro o name g ho
    rw [hobjects] at ho
    exact absurd ho (Nat.not_lt_zero o)

theorem outcome_newField (type : String) (owner : Nat) (signature : String) (modifiers : Int) (name : String) (v : Value)
    (w : Store) : outcome (newField type (.cls owner) signature modifiers name v) w = match Descriptor.ofString type with
      | .ok d => (.ok w.fields.size, { w with fields := w.fields.push ⟨⟨d, signature, modifiers, [], .cls owner⟩, name, v⟩ })
      | .error g => (.error g, w) := by
  rw [newField, newMember]
  cases Descriptor.ofString type <;> rfl

theorem outcome_setMember_field (owner : Nat) (key : String) (f : Nat) (w : Store) :
    outcome (setMember owner key (.field f)) w = if key.isEmpty then (.error .invalidKey, w)
      else (.ok (), { w with classes := w.classes.modify owner fun c => { c with fields := c.fields.set key f } }) := by
  cases h : key.isEmpty <;> simp only [setMember, h] <;> rfl

theorem loads_enterField (owner : Nat) {x : FieldInfo} (hx : ∀ o, x.value ≠ .object o) : loadContract.Kept (do
      let f := (← get).fields.size
      modify fun s => { s with fields := s.fields.push x }
      setMember owner x.name (.field f)
      pure (LoadNode.field f)) := by
  intro w hw
  have hordered := hw.1.pushField x hx
  have hleads : loadContract.leads w { w with fields := w.fields.push x } := by
    refine ⟨by simp, fun f hf => ?_⟩
    rw [field_push, if_neg (Nat.ne_of_lt hf)]
  refine keptAt_bind_of_ok (a := w) rfl (loadContract.refl w) (keptAt_bind_of_ok rfl hleads ?_)
  have hset := outcome_setMember_field owner x.name w.fields.size { w with fields := w.fields.push x }
  cases hkey : x.name.isEmpty with
  | true =>
    rw [if_pos hkey] at hset
    exact .of_error (bind_error _ hset) ⟨hordered, hw.2⟩ (loadContract.refl _) trivial
  | false =>
    rw [if_neg (by rw [hkey]; exact Bool.false_ne_true)] at hset
    refine .of_ok (bind_ok _ hset) ⟨hordered.enterField hw.2 owner (by simp) ?_, hw.2⟩ ⟨Nat.le_refl _, fun _ _ => rfl⟩
    rw [field_push, if_pos rfl]

theorem loads : Loading loadContract.Kept where
  ret := kept_pure
  throw _ _ hs := keptAt_throw hs trivial
  bind := Kept.bind
  look _ hk := kept_get.bind hk
  apart {g} hg := loads_modify fun w => by
    have keeps {β : Type} (f : Store → β) (hf : ∀ w : Store, f w.core = f w) : f (g w) = f w := hg.keeps f hf w
    refine ⟨keeps objects fun _ => rfl, fun c => ?_, fun c h => ?_, keeps (·.fields.size) fun _ => rfl, fun f => ?_,
      fun i => ?_⟩
    · rw [keeps (·.cls c) fun _ => rfl]
    · rwa [keeps (·.cls c) fun _ => rfl]
    · rw [keeps (·.field f) fun _ => rfl]
      exact ⟨rfl, rfl⟩
    · rw [keeps (·.frame i) fun _ => rfl]
  makeClass {x} hfields hname := loads_modify fun w => by
    obtain ⟨n, hname⟩ := hname
    have hcls (c : Nat) : (({ w with classes := w.classes.push x } : Store).cls c) = if c = w.classes.size then x
        else w.cls c := by
      simp only [cls, getElem?_push]
      split <;> rfl
    refine ⟨rfl, fun c => ?_, fun c h => ?_, rfl, fun _ => ⟨rfl, rfl⟩, fun _ => rfl⟩
    · rw [hcls]
      split
      · subst_vars
        rw [cls, getElem?_eq_none (Nat.le_refl _), hfields]
        rfl
      · rfl
    · rw [hcls]
      split
      · rw [hname]
        rfl
      · exact h
  updateClass i {g} hg := loads_modify fun w => by
    have hcls (c : Nat) : (({ w with classes := w.classes.modify i g } : Store).cls c).fields = (w.cls c).fields ∧
        (({ w with classes := w.classes.modify i g } : Store).cls c).name = (w.cls c).name := by
      simp only [cls, getElem?_modify]
      split
      · cases w.classes[c]? with
        | none => exact ⟨rfl, rfl⟩
        | some x => exact hg x
      · exact ⟨rfl, rfl⟩
    exact ⟨rfl, fun c => (hcls c).1, fun c h => (hcls c).2 ▸ h, rfl, fun _ => ⟨rfl, rfl⟩, fun _ => rfl⟩
  enterField owner _ hx := loads_enterField owner hx
  updateField i {g} hg := loads_modify fun w => by
    refine ⟨rfl, fun _ => rfl, fun _ h => h, size_modify, fun f => ?_, fun _ => rfl⟩
    simp only [field, getElem?_modify]
    split
    · cases w.fields[f]? with
      | none => exact ⟨rfl, rfl⟩
      | some x => exact hg x
    · exact ⟨rfl, rfl⟩
  fresh := kept_get.bind fun _ => Kept.bind (loads_modify fun w => by
    refine ⟨rfl, fun _ => rfl, fun _ h => h, rfl, fun _ => ⟨rfl, rfl⟩, fun i => ?_⟩
    simp only [frame, getElem?_push]
    split
    · subst_vars
      rw [getElem?_eq_none (Nat.le_refl _)]
      rfl
    · rfl) fun _ => kept_pure _
  register vm m i := (kept_get.bind fun _ => kept_pure _).bind fun _ => kept_get.bind fun _ =>
    kept_ite (fun _ => kept_pure _) fun _ => Kept.bind
      (loads_modify fun w => ⟨rfl, fun _ => rfl, fun _ h => h, rfl, fun _ => ⟨rfl, rfl⟩, fun _ => rfl⟩)
      fun _ => loads_updateFrame i (.machine vm)
  entry := loads_updateFrame

/-- The stores that come about by making machines and defining classes, whether that succeeds or not. -/
inductive Loaded : Store → Prop
  | initial : Loaded .initial
  | machine {w : Store} (actions : Table String Nat) (strict traced : Bool) :
      Loaded w → Loaded (outcome (newVm actions strict traced) w).2
  | define {s : Session LoadNode Store} (vm : Nat) (input : Input) :
      Loaded s.world → Loaded (outcome (define vm input) s).2.world

theorem Loaded.holds (h : Loaded w) : Ordered w ∧ w.objects = #[] := by
  induction h with
  | initial => exact ⟨⟨fun _ => rfl, nofun, nofun, nofun, by rintro (_ | _) _ ⟨⟩⟩, rfl⟩
  | @machine w actions strict traced _ ih => exact (loads.newVm actions strict traced w ih).holds
  | @define s vm input _ ih => exact (loads.define vm input s ih).holds

/-- The value of a place that nothing was written to: an own field has none, and a static field the one that it was
declared with. -/
def initialAt (w : Store) : Place → Value
  | .own _ _ => .null
  | .common f => (w.field f).value

theorem Loaded.valueAt_eq (h : Loaded w) (p : Place) : w.valueAt p = w.initialAt p := by
  cases p with
  | common f => rfl
  | own o name =>
    rw [valueAt, valueAt?, object, h.holds.2]
    rfl

theorem Declares.unshadowed (h : w.Declares p) : w.Unshadowed p := by
  cases p with
  | common f => trivial
  | own o name =>
    obtain ⟨f, hf, hown⟩ := h
    intro g _ hg
    rwa [some.inj (hg.symm.trans hf)]

theorem addField_value {owner : Nat} {name flags type value : Datum} {n : LoadNode}
    (h : outcome (addField owner name flags type value) w = (.ok n, w')) :
    ∃ f t, n = .field f ∧
      outcome (if value.holds then parseValue value.plain else pure .null) w = (.ok (w'.field f).value, t) := by
  have rest {v : Value} {u : Store} (hrest : outcome (do
      let f ← newField type.plain (.cls owner) (name.plain ++ ":" ++ type.plain) (LoadNode.number flags) name.plain v
      setMember owner name.plain (.field f)
      pure (LoadNode.field f)) u = (.ok n, w')) : ∃ f, n = .field f ∧ (w'.field f).value = v := by
    obtain ⟨f, u₁, hmade, hrest⟩ := outcome_bind_eq_ok u hrest
    obtain ⟨_, u₂, hset, hpure⟩ := outcome_bind_eq_ok u₁ hrest
    rw [outcome_newField] at hmade
    rw [outcome_setMember_field] at hset
    split at hmade
    · obtain ⟨hf, rfl⟩ := Prod.mk.inj hmade
      obtain rfl : u.fields.size = f := Except.ok.inj hf
      split at hset
      · cases hset
      · obtain ⟨-, rfl⟩ := Prod.mk.inj hset
        obtain ⟨hn, rfl⟩ := Prod.mk.inj hpure
        refine ⟨_, (Except.ok.inj hn).symm, ?_⟩
        exact congrArg FieldInfo.value ((field_push u _ _).trans (if_pos rfl))
    · cases hmade
  cases hvalue : value.holds with
  | true =>
    have hsplit : outcome (do
        let v ← parseValue value.plain
        let f ← newField type.plain (.cls owner) (name.plain ++ ":" ++ type.plain) (LoadNode.number flags) name.plain v
        setMember owner name.plain (.field f)
        pure (LoadNode.field f)) w = (.ok n, w') := by
      rw [addField, hvalue] at h
      exact h
    obtain ⟨v, t, hparsed, hrest⟩ := outcome_bind_eq_ok w hsplit
    obtain ⟨f, hn, rfl⟩ := rest hrest
    exact ⟨f, t, hn, hparsed⟩
  | false =>
    rw [addField, hvalue] at h
    obtain ⟨f, hn, hv⟩ := rest h
    exact ⟨f, w, hn, by rw [hv]; rfl⟩

theorem Ordered.value_of_source {op : Operation} (h : Ordered w) (hs : w.source? i op operands = some (d, p)) :
    w.valueAt? p = some (w.valueAt p) ∧ w.Declares p := by
  have hcommon (f : Nat) : w.valueAt? (.common f) = some (w.valueAt (.common f)) ∧ w.Declares (.common f) :=
    ⟨rfl, trivial⟩
  unfold source? at hs
  split at hs
  · obtain ⟨o, ho, hs⟩ := bind_eq_some_iff.mp hs
    obtain ⟨⟨name, f⟩, hfield, hs⟩ := map_eq_some_iff.mp hs
    obtain ⟨-, rfl⟩ := Prod.mk.inj hs
    obtain ⟨q, -, rfl, hf⟩ := objectField?_eq_some.mp hfield
    have hexists := h.lt_of_objectIn ho
    cases hstatic : w.isCommon f with
    | true =>
      rw [placeOf, if_pos hstatic]
      exact hcommon f
    | false =>
      rw [placeOf, if_neg (by rw [hstatic]; exact Bool.false_ne_true)]
      obtain ⟨v, hv⟩ := isSome_iff_exists.mp (h.values hexists hf hstatic)
      exact ⟨by rw [valueAt, hv]; rfl, f, hf, hstatic⟩
  · obtain ⟨f, -, hs⟩ := map_eq_some_iff.mp hs
    obtain ⟨-, rfl⟩ := Prod.mk.inj hs
    exact hcommon f
  · cases hs

theorem Ordered.fault_of_readOnly {a o : Nat} {s place : Datum} (h : Ordered w)
    (hop : (w.action a).operation? = some .fieldPut) (hxs : operands.spread? = some [s, d, place])
    (ho : w.objectIn? i d = some o) (hreadOnly : ∀ name f, w.objectField? o place = some (name, f) → w.isFinal f = true) :
    ∃ g, outcome (perform runner a i operands) w = (.error g, w.started a i) := by
  have heffect : FieldEffect (w.started a i) i .fieldPut operands (outcome (perform runner a i operands) w) :=
    fieldEffect_perform h.names hop rfl
  generalize outcome (perform runner a i operands) w = out at heffect ⊢
  cases heffect with
  | fault g => exact ⟨g, rfl⟩
  | common hput => cases hput
  | through _ hxs' ho' hf hfinal =>
    obtain ⟨rfl, rfl, rfl⟩ : _ ∧ _ ∧ _ := by simpa using hxs.symm.trans hxs'
    obtain rfl := some.inj (ho.symm.trans ho')
    have htrue := hreadOnly _ _ hf
    cases htrue.symm.trans hfinal
  | load hs => simp [source?] at hs

theorem onFields_eq_family : ∀ entry ∈ Operation.all, ∀ name ∈ entry.1 :: entry.2.2,
    entry.2.1.onFields = ["sput", "sget", "iget", "iput"].contains (String.ofList (name.toList.take 4)) ∧
      (entry.2.1.onFields = true → entry.2.1.family = String.ofList (name.toList.take 4)) := by
  decide +kernel

/-- Fields behave as a heap. After any run of instructions on fields, of objects of any classes that were defined:
reading a field of an object yields what was written last to this field of this object, and reading a static field,
through its class or through any object, what was written last to it by either way; writing a field of an object that is
final or not declared fails and changes nothing; and no step changes a declared field that it does not write. A static
field starts with the value of its declaration, which later definitions leave alone. -/
theorem fields_are_heap (hw : Loaded w) (steps : List FieldStep) (hsteps : ∀ s ∈ steps, s.Allowed w) :
    (∀ i a op operands r p, i < w.frames.size → (w.action a).operation? = some op →
      (w.after steps).source? i op operands = some (.text r, p) →
      ∃ t, outcome (perform runner a i operands) (w.after steps) = (.ok (), t) ∧
        (t.frame i).registers.get? r = some (((w.writes steps).reverse.lookup p).getD (w.initialAt p))) ∧
    (∀ i a operands s d place o, (w.action a).operation? = some .fieldPut →
      operands.spread? = some [s, d, place] → (w.after steps).objectIn? i d = some o →
      (∀ name f, (w.after steps).objectField? o place = some (name, f) → (w.after steps).isFinal f = true) →
      ∃ g, outcome (perform runner a i operands) (w.after steps) = (.error g, (w.after steps).started a i)) ∧
    (∀ s : FieldStep, s.Allowed w → ∀ p, (w.after steps).Declares p → (∀ v, s.write? (w.after steps) ≠ some (p, v)) →
      (outcome s.act (w.after steps)).2.valueAt p = (w.after steps).valueAt p) ∧
    (∀ u owner name flags type value n u', outcome (addField owner name flags type value) u = (.ok n, u') →
      ∃ f t, n = .field f ∧
        outcome (if value.holds then parseValue value.plain else pure .null) u = (.ok (u'.field f).value, t)) ∧
    (∀ (s : Session LoadNode Store) vm input, Loaded s.world → ∀ f < s.world.fields.size,
      ((outcome (define vm input) s).2.world.field f).value = (s.world.field f).value) ∧
    ∀ entry ∈ Operation.all, ∀ name ∈ entry.1 :: entry.2.2,
      entry.2.1.onFields = ["sput", "sget", "iget", "iput"].contains (String.ofList (name.toList.take 4)) ∧
        (entry.2.1.onFields = true → entry.2.1.family = String.ofList (name.toList.take 4)) := by
  obtain ⟨hordered, hlater, hvalues⟩ := hw.holds.1.after steps hsteps
  refine ⟨?_, ?_, ?_, ?_, ?_, onFields_eq_family⟩
  · intro i a op operands r p hi hop hs
    obtain ⟨hvalue, hdeclared⟩ := hordered.value_of_source hs
    refine ⟨_, outcome_perform_load ((hlater.operations a).trans hop) hs hvalue, ?_⟩
    have hframe : i < ((w.after steps).started a i).frames.size := hlater.frames.symm ▸ hi
    rw [registers_setRegisterIn, if_pos ⟨rfl, hframe, rfl⟩, hvalues p hdeclared.unshadowed, hw.valueAt_eq]
  · intro i a operands s d place o hop hxs ho hreadOnly
    exact hordered.fault_of_readOnly ((hlater.operations a).trans hop) hxs ho hreadOnly
  · intro s hs p hp hother
    rw [(FieldStep.wrote hordered (hlater.allowed hs)).values p hp.unshadowed]
    cases hwrite : s.write? (w.after steps) with
    | none => rfl
    | some q =>
      obtain ⟨q, v⟩ := q
      have hne : (p == q) = false := by
        rw [beq_eq_false_iff_ne]
        rintro rfl
        exact hother v hwrite
      simp [List.lookup_cons, hne]
  · intro u owner name flags type value n u' h
    exact addField_value h
  · intro s vm input hs f hf
    exact (loads.define vm input s hs.holds).leads.2 f hf

/-- A class with an own field, a static one and a final one. -/
def heapSource : String :=
  ".class public LT;\n.field public x:I\n.field public static s:I = 0x5\n.field public final y:I\n" ++
  ".method public a()V\n.locals 1\nreturn-void\n.end method\n"

@[irreducible] def heapStore : Store :=
  (outcome (define 0 (.text heapSource)) ⟨⟨[]⟩, .start, [], (outcome (newVm [] false false) .initial).2⟩).2.world

/-- Two objects are made; the own field of both and the static field are written. -/
def heapSteps : List FieldStep :=
  let access (name : String) (operands : List String) : FieldStep :=
    .access 0 ⟨firstAction name, .texts operands⟩
  [.make 0 "o" "LT;", .make 0 "p" "LT;", .load 0 "v" (.int 7), .load 0 "u" (.int 8),
    access "iput" ["v", "o", "LT;->x:I"], access "iput" ["u", "p", "LT;->x:I"],
    access "iput" ["v", "p", "LT;->s:I"], access "iput" ["u", "o", "LT;->y:I"]]

/-- The own field of the first object has its own value, the static field what was written through the second object,
and the final field is not written. -/
theorem fields_are_heap_two_objects :
    (∃ t, outcome (perform runner (firstAction "iget") 0 (.texts ["r", "o", "LT;->x:I"]))
        (heapStore.after heapSteps) = (.ok (), t) ∧ (t.frame 0).registers.get? "r" = some (.int 7)) ∧
      (∃ t, outcome (perform runner (firstAction "sget") 0 (.texts ["r", "LT;->s:I"]))
        (heapStore.after heapSteps) = (.ok (), t) ∧ (t.frame 0).registers.get? "r" = some (.int 7)) ∧
      ∃ g, outcome (perform runner (firstAction "iput") 0 (.texts ["u", "o", "LT;->y:I"]))
        (heapStore.after heapSteps) = (.error g, (heapStore.after heapSteps).started (firstAction "iput") 0) := by
  obtain ⟨hframes, hiput, higet, hsget, hobject, hx, hplace, hstatic, hy, hfinal, hown, hcommon⟩ :
      heapStore.frames.size = 1 ∧ (heapStore.action (firstAction "iput")).operation? = some .fieldPut ∧
      (heapStore.action (firstAction "iget")).operation? = some .fieldGet ∧
      (heapStore.action (firstAction "sget")).operation? = some .staticGet ∧
      (heapStore.after heapSteps).objectIn? 0 (.text "o") = some 0 ∧
      (heapStore.after heapSteps).objectField? 0 (.text "LT;->x:I") = some ("x", 0) ∧
      (heapStore.after heapSteps).placeOf 0 "x" 0 = .own 0 "x" ∧
      (heapStore.after heapSteps).staticField? 0 (.text "LT;->s:I") = some 1 ∧
      (heapStore.after heapSteps).objectField? 0 (.text "LT;->y:I") = some ("y", 2) ∧
      (heapStore.after heapSteps).isFinal 2 = true ∧
      (heapStore.writes heapSteps).reverse.lookup (.own 0 "x") = some (.int 7) ∧
      (heapStore.writes heapSteps).reverse.lookup (.common 1) = some (.int 7) := by
    decide +kernel
  have hloaded : Loaded heapStore := by
    unfold heapStore
    exact .define _ _ (.machine _ _ _ .initial)
  have hallowed : ∀ s ∈ heapSteps, s.Allowed heapStore := by
    have hput {operands : Datum} : (FieldStep.access 0 ⟨firstAction "iput", operands⟩).Allowed heapStore :=
      ⟨.fieldPut, hiput, rfl⟩
    have hload {r : String} {n : Int} : (FieldStep.load 0 r (.int n)).Allowed heapStore := fun o => nofun
    intro s hs
    simp only [heapSteps, List.mem_cons, List.not_mem_nil, or_false] at hs
    rcases hs with rfl | rfl | rfl | rfl | rfl | rfl | rfl | rfl
    · trivial
    · trivial
    · exact hload
    · exact hload
    all_goals exact hput
  obtain ⟨hreads, hreadOnly, -⟩ := fields_are_heap hloaded heapSteps hallowed
  refine ⟨?_, ?_, ?_⟩
  · have hs : (heapStore.after heapSteps).source? 0 .fieldGet (.texts ["r", "o", "LT;->x:I"])
        = some (.text "r", .own 0 "x") := by
      simp [source?, Datum.spread?, Datum.texts, Datum.holds, Datum.items?, hobject, hx, hplace]
    simpa [hown] using hreads 0 _ _ _ "r" _ (by omega) higet hs
  · have hs : (heapStore.after heapSteps).source? 0 .staticGet (.texts ["r", "LT;->s:I"])
        = some (.text "r", .common 1) := by
      simp [source?, Datum.spread?, Datum.texts, Datum.holds, Datum.items?, hstatic]
    simpa [hcommon] using hreads 0 _ _ _ "r" _ (by omega) hsget hs
  · refine hreadOnly 0 _ _ _ _ _ 0 hiput rfl hobject ?_
    intro name f hf
    obtain ⟨rfl, rfl⟩ := Prod.mk.inj (some.inj (hf.symm.trans hy))
    exact hfinal

end Dalvik.Store
