import Dalvik.Proofs.Fields

/-!
# Fields as a heap

A store is in order (`Store.Ordered`) if the tables of its classes name fields that exist, its objects have a value for
each of their own fields, and it refers to no object that does not exist. Making objects and the instructions on fields
keep this. Over a run of such steps every place has the value that was written there last, or the value from before
(`Store.Ordered.after`): the second copies of static fields do not matter, since no field of their object is kept there.
-/

namespace Dalvik.Store

open List

variable {w : Store}
variable {c i : Nat} {values : Table String Value} {w' : Store} {op : Operation} {operands : Datum}

/-- A store whose classes name fields that exist, whose objects have a value for each of their own fields, and that
refers to no object that does not exist. -/
structure Ordered (w : Store) : Prop where
  names : ∀ c, isPlainName (w.cls c).name = true
  fields : ∀ {c name f}, w.fieldIn? c name = some f → f < w.fields.size ∧ (w.field f).name = name
  values : ∀ {o name f}, o < w.objects.size → w.fieldIn? (w.object o).cls name = some f → w.isCommon f = false →
    (w.valueAt? (.own o name)).isSome
  registers : ∀ {i name o}, (w.frame i).registers.get? name = some (.object o) → o < w.objects.size
  references : ∀ {p o}, w.valueAt? p = some (.object o) → o < w.objects.size

section Changes

variable {o f : Nat} {name : String} {v : Value}

theorem object_setOwn (w : Store) (o : Nat) (name : String) (v : Value) (o' : Nat) :
    (w.setOwn o name v).object o' = if o = o' ∧ o < w.objects.size then
      { w.object o' with values := (w.object o').values.set name v } else w.object o' := by
  unfold object setOwn
  rw [Array.getElem?_modify]
  by_cases ho : o = o'
  · subst ho
    by_cases hsize : o < w.objects.size <;> simp [hsize]
  · simp [ho]

theorem field_setCommon (w : Store) (f : Nat) (v : Value) (f' : Nat) :
    (w.setCommon f v).field f' = if f = f' ∧ f < w.fields.size then { w.field f' with value := v } else w.field f' := by
  unfold field setCommon
  rw [Array.getElem?_modify]
  by_cases hf : f = f'
  · subst hf
    by_cases hsize : f < w.fields.size <;> simp [hsize]
  · simp [hf]

theorem cls_object_setOwn (o' : Nat) : ((w.setOwn o name v).object o').cls = (w.object o').cls := by
  rw [object_setOwn]
  split <;> rfl

theorem modifiers_setCommon (f' : Nat) : ((w.setCommon f v).field f').modifiers = (w.field f').modifiers := by
  rw [field_setCommon]
  split <;> rfl

theorem valueAt?_setOwn (ho : o < w.objects.size) (p : Place) :
    (w.setOwn o name v).valueAt? p = if p = .own o name then some v else w.valueAt? p := by
  cases p with
  | common f => rfl
  | own o' name' =>
    simp only [valueAt?, object_setOwn, ho, and_true, Place.own.injEq]
    by_cases h : o = o'
    · subst h
      simp [Table.get?_set]
    · simp [h, Ne.symm h]

theorem valueAt?_setCommon (hf : f < w.fields.size) (p : Place) :
    (w.setCommon f v).valueAt? p = if p = .common f then some v else w.valueAt? p := by
  cases p with
  | own o name => rfl
  | common f' =>
    simp only [valueAt?, field_setCommon, hf, and_true, Place.common.injEq]
    by_cases h : f = f'
    · simp [h]
    · simp [h, Ne.symm h]

/-- What refers to no object that does not exist. -/
def Refers (w : Store) (v : Value) : Prop := ∀ o, v = .object o → o < w.objects.size

theorem Ordered.started (h : Ordered w) (a i : Nat) : Ordered (w.started a i) :=
  ⟨h.names, h.fields, h.values, h.registers, h.references⟩

theorem registers_setRegisterIn (w : Store) (i : Nat) (r : String) (v : Value) (j : Nat) (name : String) :
    ((w.setRegisterIn i r v).frame j).registers.get? name
      = if i = j ∧ i < w.frames.size ∧ name = r then some v else (w.frame j).registers.get? name := by
  unfold frame setRegisterIn
  rw [Array.getElem?_modify]
  by_cases hij : i = j
  · subst hij
    by_cases hi : i < w.frames.size <;> simp [hi, Table.get?_set]
  · simp [hij]

theorem Ordered.setRegisterIn (h : Ordered w) (hv : w.Refers v) (i : Nat) (r : String) :
    Ordered (w.setRegisterIn i r v) := by
  refine ⟨h.names, h.fields, h.values, ?_, h.references⟩
  intro j name o ho
  rw [registers_setRegisterIn] at ho
  split at ho
  · exact hv o (Option.some.inj ho)
  · exact h.registers ho

theorem Ordered.setOwn (h : Ordered w) (ho : o < w.objects.size) (hv : w.Refers v) : Ordered (w.setOwn o name v) := by
  have hsize : (w.setOwn o name v).objects.size = w.objects.size := Array.size_modify
  refine ⟨h.names, h.fields, ?_, ?_, ?_⟩
  · intro o' name' f' ho' hf' hstatic
    rw [cls_object_setOwn] at hf'
    rw [valueAt?_setOwn ho]
    split
    · rfl
    · exact h.values (hsize ▸ ho') hf' hstatic
  · rw [hsize]
    exact h.registers
  · intro p o' hp
    rw [valueAt?_setOwn ho] at hp
    rw [hsize]
    split at hp
    · exact hv o' (Option.some.inj hp)
    · exact h.references hp

theorem Ordered.setCommon (h : Ordered w) (hf : f < w.fields.size) (hv : w.Refers v) : Ordered (w.setCommon f v) := by
  refine ⟨h.names, ?_, ?_, h.registers, ?_⟩
  · intro c name' f' hf'
    have hfield := h.fields hf'
    rw [field_setCommon]
    exact ⟨by simpa [Store.setCommon] using hfield.1, by split <;> exact hfield.2⟩
  · intro o' name' f' ho' hf' hstatic
    rw [isCommon, modifiers_setCommon] at hstatic
    exact h.values ho' hf' hstatic
  · intro p o' hp
    rw [valueAt?_setCommon hf] at hp
    split at hp
    · exact hv o' (Option.some.inj hp)
    · exact h.references hp

/-! ### Making objects -/

theorem outcome_freshValues (table : Table String Nat) (w : Store) :
    ∃ t, outcome (freshValues table) w = (.ok t, w) ∧ (∀ entry ∈ t, entry.2 = Value.null) ∧
      ∀ entry ∈ table, w.isCommon entry.2 = false → (w.field entry.2).name ∈ t.map Prod.fst := by
  induction table with
  | nil => exact ⟨[], rfl, by simp, by simp⟩
  | cons entry rest ih =>
    obtain ⟨t, ht, hnull, hmem⟩ := ih
    rw [freshValues, bind_ok w (outcome_fieldInfo w _), bind_ok w ht]
    cases hstatic : w.isCommon entry.2 with
    | true =>
      refine ⟨t, by rw [isCommon] at hstatic; simp [hstatic], hnull, ?_⟩
      intro e he hown
      rcases mem_cons.mp he with rfl | he
      · simp [hstatic] at hown
      · exact hmem e he hown
    | false =>
      refine ⟨((w.field entry.2).name, .null) :: t, by rw [isCommon] at hstatic; simp [hstatic], ?_, ?_⟩
      · intro e he
        rcases mem_cons.mp he with rfl | he
        · rfl
        · exact hnull e he
      · intro e he hown
        rcases mem_cons.mp he with rfl | he
        · simp
        · exact mem_cons_of_mem _ (hmem e he hown)

theorem get?_foldl_null (t : List (String × Value)) (hnull : ∀ entry ∈ t, entry.2 = Value.null)
    (acc : Table String Value) (name : String) :
    (t.foldl (fun acc entry => Table.set acc entry.1 entry.2) acc).get? name
      = if name ∈ t.map Prod.fst then some .null else acc.get? name := by
  induction t generalizing acc with
  | nil => simp
  | cons entry rest ih =>
    have hentry := hnull entry mem_cons_self
    rw [foldl_cons, ih (fun e he => hnull e (mem_cons_of_mem _ he)), Table.get?_set, hentry]
    by_cases hrest : name ∈ rest.map Prod.fst
    · simp [hrest]
    · simp [hrest]

/-- The store with a new object, which has no values yet. -/
def addObject (w : Store) (c : Nat) (values : Table String Value) : Store :=
  { w with objects := w.objects.push ⟨c, values⟩ }

theorem newObject_cases (w : Store) (c : Nat) : outcome (newObject c) w = (.error .abstractClass, w) ∨ ∃ values,
      outcome (newObject c) w = (.ok (.object w.objects.size), w.addObject c values) ∧
      (∀ name v, values.get? name = some v → v = .null) ∧
      ∀ entry ∈ (w.cls c).fields, w.isCommon entry.2 = false → (values.get? (w.field entry.2).name).isSome := by
  obtain ⟨t, ht, hnull, hmem⟩ := outcome_freshValues (w.cls c).fields w
  have hget := get?_foldl_null t hnull []
  rw [newObject, bind_ok w (outcome_classInfo w c)]
  split
  · exact .inl rfl
  · right
    refine ⟨_, bind_ok w ht, ?_, ?_⟩
    · intro name v hv
      rw [hget] at hv
      split at hv
      · exact (Option.some.inj hv).symm
      · cases hv
    · intro entry hentry hown
      rw [hget, if_pos (hmem entry hentry hown)]
      rfl

theorem object_addObject (w : Store) (c : Nat) (values : Table String Value) (o : Nat) :
    (w.addObject c values).object o = if o = w.objects.size then ⟨c, values⟩ else w.object o := by
  unfold object addObject
  rw [Array.getElem?_push]
  split <;> simp_all

theorem valueAt_addObject (hnull : ∀ name v, values.get? name = some v → v = .null) (p : Place) :
    (w.addObject c values).valueAt p = w.valueAt p := by
  cases p with
  | common f => rfl
  | own o name =>
    simp only [valueAt, valueAt?, object_addObject]
    split
    · have hfresh : w.object o = default := by
        subst_vars
        simp [object]
      rw [hfresh]
      cases hv : values.get? name with
      | none => rfl
      | some v =>
        rw [hnull name v hv]
        rfl
    · rfl

theorem Ordered.addObject (h : Ordered w) (hnull : ∀ name v, values.get? name = some v → v = .null)
    (hfull : ∀ entry ∈ (w.cls c).fields, w.isCommon entry.2 = false → (values.get? (w.field entry.2).name).isSome) :
    Ordered (w.addObject c values) := by
  have hsize : (w.addObject c values).objects.size = w.objects.size + 1 := by simp [Store.addObject]
  refine ⟨h.names, h.fields, ?_, ?_, ?_⟩
  · intro o name f ho hf hown
    rw [object_addObject] at hf
    simp only [valueAt?, object_addObject]
    split
    · rw [if_pos ‹_›] at hf
      obtain ⟨before, behind, hfields, -⟩ := lookup_eq_some_iff.mp hf
      have hmem : (name, f) ∈ (w.cls c).fields := hfields ▸ mem_append_right _ mem_cons_self
      have hvalue := hfull _ hmem hown
      rwa [(h.fields hf).2] at hvalue
    · rw [if_neg ‹_›] at hf
      exact h.values (by omega) hf hown
  · intro i name o ho
    have := h.registers (i := i) ho
    omega
  · intro p o hp
    cases p with
    | common f =>
      have := h.references (p := .common f) hp
      omega
    | own o' name =>
      simp only [valueAt?, object_addObject] at hp
      split at hp
      · have hv := hnull name _ hp
        cases hv
      · have := h.references (p := .own o' name) hp
        omega

end Changes

/-! ### Runs -/

/-- A later store of a run. -/
structure Later (w w' : Store) : Prop where
  classes : w'.classes = w.classes
  statics : ∀ f, w'.isCommon f = w.isCommon f
  objects : ∀ o < w.objects.size, o < w'.objects.size ∧ (w'.object o).cls = (w.object o).cls
  operations : ∀ a, (w'.action a).operation? = (w.action a).operation?
  frames : w'.frames.size = w.frames.size

theorem Later.refl (w : Store) : Later w w :=
  ⟨rfl, fun _ => rfl, fun _ ho => ⟨ho, rfl⟩, fun _ => rfl, rfl⟩

theorem Later.trans {u v w : Store} (h : Later u v) (h' : Later v w) : Later u w where
  classes := h'.classes.trans h.classes
  statics f := (h'.statics f).trans (h.statics f)
  objects o ho := ⟨(h'.objects o (h.objects o ho).1).1, (h'.objects o (h.objects o ho).1).2.trans (h.objects o ho).2⟩
  operations a := (h'.operations a).trans (h.operations a)
  frames := h'.frames.trans h.frames

theorem later_started (w : Store) (a i : Nat) : Later w (w.started a i) :=
  ⟨rfl, fun _ => rfl, fun _ ho => ⟨ho, rfl⟩, operation_started w a i, rfl⟩

theorem later_setRegisterIn (w : Store) (i : Nat) (r : String) (v : Value) : Later w (w.setRegisterIn i r v) :=
  ⟨rfl, fun _ => rfl, fun _ ho => ⟨ho, rfl⟩, fun _ => rfl, Array.size_modify⟩

theorem later_setCommon (w : Store) (f : Nat) (v : Value) : Later w (w.setCommon f v) :=
  ⟨rfl, fun _ => by rw [isCommon, modifiers_setCommon, isCommon], fun _ ho => ⟨ho, rfl⟩, fun _ => rfl, rfl⟩

theorem later_setOwn (w : Store) (o : Nat) (name : String) (v : Value) : Later w (w.setOwn o name v) :=
  ⟨rfl, fun _ => rfl, fun _ ho => ⟨by simpa [setOwn] using ho, cls_object_setOwn _⟩, fun _ => rfl, rfl⟩

theorem later_addObject (w : Store) (c : Nat) (values : Table String Value) : Later w (w.addObject c values) := by
  refine ⟨rfl, fun _ => rfl, fun o ho => ?_, fun _ => rfl, rfl⟩
  rw [object_addObject, if_neg (by omega)]
  exact ⟨by simp [addObject]; omega, rfl⟩

/-- A place that holds no second copy of a static field. -/
def Unshadowed (w : Store) : Place → Prop
  | .own o name => ∀ f, o < w.objects.size → w.fieldIn? (w.object o).cls name = some f → w.isCommon f = false
  | .common _ => True

theorem Later.unshadowed (h : Later w w') {p : Place} (hp : w'.Unshadowed p) : w.Unshadowed p := by
  cases p with
  | common f => trivial
  | own o name =>
    intro f ho hf
    obtain ⟨ho', hcls⟩ := h.objects o ho
    rw [← h.statics f]
    apply hp f ho'
    rwa [fieldIn?, cls, h.classes, hcls]

/-- A step of a run: an instruction on fields in a frame, a new object in a register, or another value in one. -/
inductive FieldStep where
  | access (i : Nat) (x : Instruction)
  | make (i : Nat) (r cls : String)
  | load (i : Nat) (r : String) (v : Value)

namespace FieldStep

def act : FieldStep → Act Unit
  | access i x => perform runner x.action i x.operands
  | make i r name => do
    let v ← newObject (← classNamed name)
    updateFrame i fun f => { f with registers := f.registers.set r v }
  | load i r v => updateFrame i fun f => { f with registers := f.registers.set r v }

/-- Instructions are instructions on fields, and objects come into registers by being made. -/
def Allowed (w : Store) : FieldStep → Prop
  | access _ x => ∃ op, (w.action x.action).operation? = some op ∧ op.onFields = true
  | make .. => True
  | load _ _ v => ∀ o, v ≠ .object o

/-- What a step is to write, and where. -/
def aim? (w : Store) : FieldStep → Option (Place × Value)
  | access i x => (w.action x.action).operation?.bind (w.assignment? i · x.operands)
  | _ => none

/-- What a step writes, and where: what it is to write, if it succeeds. -/
def write? (w : Store) (s : FieldStep) : Option (Place × Value) :=
  (outcome s.act w).1.toOption.bind fun _ => s.aim? w

end FieldStep

/-- The store after some steps, each of which may fail. -/
def after (w : Store) (steps : List FieldStep) : Store :=
  steps.foldl (fun w s => (outcome s.act w).2) w

/-- What some steps write, in order. -/
def writes (w : Store) : List FieldStep → List (Place × Value)
  | [] => []
  | s :: steps => (s.write? w).toList ++ writes (outcome s.act w).2 steps

theorem Ordered.refers_of_register (h : Ordered w) {name : Datum} {v : Value} (hv : w.registerIn? i name = some v) :
    w.Refers v := by
  rintro o rfl
  obtain ⟨r, -, hr⟩ := Option.bind_eq_some_iff.mp hv
  exact h.registers hr

theorem Ordered.lt_of_objectIn (h : Ordered w) {o : Nat} {name : Datum} (ho : w.objectIn? i name = some o) :
    o < w.objects.size :=
  h.refers_of_register (objectIn?_eq_some.mp ho) o rfl

/-- What one step does: the store stays in order, and the values at all places are those before, but for what was
written. -/
structure Wrote (w : Store) (written? : Option (Place × Value)) (w' : Store) : Prop where
  ordered : Ordered w'
  later : Later w w'
  values : ∀ p, w.Unshadowed p → w'.valueAt p = (written?.toList.lookup p).getD (w.valueAt p)

theorem assignment?_of_source? {q : Datum × Place} (h : w.source? i op operands = some q) :
    w.assignment? i op operands = none := by
  unfold source? at h
  split at h
  · rfl
  · rfl
  · cases h

theorem wrote_none (h : Ordered w') (hlater : Later w w') (hvalues : ∀ p, w'.valueAt p = w.valueAt p) :
    Wrote w none w' :=
  ⟨h, hlater, fun p _ => hvalues p⟩

theorem wrote_some {q : Place} {v : Value} (h : Ordered w') (hlater : Later w w')
    (hvalues : ∀ p, w.Unshadowed p → w'.valueAt? p = if p = q then some v else w.valueAt? p) :
    Wrote w (some (q, v)) w' := by
  refine ⟨h, hlater, fun p hp => ?_⟩
  rw [valueAt, hvalues p hp]
  by_cases hpq : p = q
  · simp [hpq]
  · have hne : (p == q) = false := by simpa using hpq
    simp [hpq, lookup_cons, hne, valueAt]

theorem FieldEffect.wrote {res : Except Fault Unit} {t : Store} (heffect : FieldEffect w i op operands (res, t))
    (h : Ordered w) :
    Wrote w (res.toOption.bind fun _ => w.assignment? i op operands) t := by
  cases heffect with
  | fault g => exact wrote_none h (.refl w) fun _ => rfl
  | @common s place f v hop hxs hstatic hv =>
    obtain ⟨-, q, -, c, -, hf⟩ := staticField?_eq_some.mp hstatic
    have hsize := (h.fields hf).1
    have htarget : w.assignment? i op operands = some (.common f, v) := by simp [assignment?, hop, hxs, hstatic, hv]
    rw [Except.toOption, htarget]
    exact wrote_some (h.setCommon hsize (h.refers_of_register hv)) (later_setCommon w f v) fun p _ =>
      valueAt?_setCommon hsize p
  | @through s d place o f name v hop hxs ho hfield hfinal hv =>
    obtain ⟨q, -, rfl, hf⟩ := objectField?_eq_some.mp hfield
    have hobject := h.lt_of_objectIn ho
    have hrefers := h.refers_of_register hv
    have hsize := (h.fields hf).1
    have htarget : w.assignment? i op operands = some (w.placeOf o q.2 f, v) := by
      simp [assignment?, hop, hxs, ho, hfield, hv]
    rw [Except.toOption, htarget]
    cases hstatic : w.isCommon f with
    | true =>
      have hwritten : w.written o q.2 f v = (w.setCommon f v).setOwn o q.2 v := by rw [written, if_pos hstatic]
      rw [hwritten, placeOf, if_pos hstatic]
      apply wrote_some ((h.setCommon hsize hrefers).setOwn hobject hrefers)
        ((later_setCommon w f v).trans (later_setOwn _ o q.2 v))
      intro p hp
      -- the second copy, with the object, is not looked at
      have hcopy : p ≠ .own o q.2 := by
        rintro rfl
        have hown := hp f hobject hf
        rw [hstatic] at hown
        cases hown
      rw [valueAt?_setOwn (w := w.setCommon f v) hobject, if_neg hcopy, valueAt?_setCommon hsize]
    | false =>
      have hown : ¬w.isCommon f = true := by rw [hstatic]; exact Bool.false_ne_true
      have hwritten : w.written o q.2 f v = w.setOwn o q.2 v := by rw [written, if_neg hown]
      rw [hwritten, placeOf, if_neg hown]
      exact wrote_some (h.setOwn hobject hrefers) (later_setOwn w o q.2 v) fun p _ => valueAt?_setOwn hobject p
  | @load d p v hs hv =>
    rw [Except.toOption, assignment?_of_source? hs]
    refine wrote_none (h.setRegisterIn ?_ i d.plain) (later_setRegisterIn w i d.plain v) fun q => by cases q <;> rfl
    rintro o rfl
    exact h.references hv

theorem FieldStep.wrote {s : FieldStep} (h : Ordered w) (hs : s.Allowed w) :
    Wrote w (s.write? w) (outcome s.act w).2 := by
  cases s with
  | access i x =>
    obtain ⟨op, hop, hfields⟩ := hs
    have heffect : FieldEffect (w.started x.action i) i op x.operands
        (outcome (perform runner x.action i x.operands) w) := fieldEffect_perform h.names hop hfields
    have hact : (access i x).act = perform runner x.action i x.operands := rfl
    have haim : (access i x).aim? w = (w.started x.action i).assignment? i op x.operands := by
      rw [aim?, hop]
      rfl
    rw [write?, hact, haim]
    rcases hout : outcome (perform runner x.action i x.operands) w with ⟨res, t⟩
    rw [hout] at heffect
    have hwrote := heffect.wrote (h.started x.action i)
    refine ⟨hwrote.ordered, (later_started w x.action i).trans hwrote.later, fun p hp => ?_⟩
    have hvalue : (w.started x.action i).valueAt p = w.valueAt p := by cases p <;> rfl
    exact hwrote.values p (by cases p <;> exact hp)
  | make i r name =>
    have hnone : (make i r name).write? w = none := by
      rw [write?]
      cases (outcome (make i r name).act w).1 <;> rfl
    have hsame : Wrote w none w := wrote_none h (.refl w) fun _ => rfl
    rw [hnone, act, classNamed, bind_assoc, bind_ok w (outcome_get w)]
    cases w.classTable.get? name with
    | none => exact hsame
    | some c =>
      rw [pure_bind]
      rcases newObject_cases w c with hfault | ⟨values, hmade, hnull, hfull⟩
      · rw [bind_error w hfault]
        exact hsame
      · rw [bind_ok w hmade]
        have hordered := h.addObject hnull hfull
        have hlater := (later_addObject w c values).trans (later_setRegisterIn _ i r (.object w.objects.size))
        refine wrote_none (hordered.setRegisterIn ?_ i r) hlater fun p => ?_
        · rintro o ho
          obtain rfl : w.objects.size = o := Value.object.inj ho
          simp [addObject]
        · have hregister : ((w.addObject c values).setRegisterIn i r (.object w.objects.size)).valueAt p
              = (w.addObject c values).valueAt p := by cases p <;> rfl
          exact hregister.trans (valueAt_addObject hnull p)
  | load i r v =>
    exact wrote_none (h.setRegisterIn (fun o hv => absurd hv (hs o)) i r) (later_setRegisterIn w i r v)
      fun p => by cases p <;> rfl

theorem Later.allowed {s : FieldStep} (h : Later w w') (hs : s.Allowed w) : s.Allowed w' := by
  cases s with
  | access i x =>
    obtain ⟨op, hop, hfields⟩ := hs
    exact ⟨op, (h.operations _).trans hop, hfields⟩
  | make i r name => trivial
  | load i r v => exact hs

theorem Ordered.after (h : Ordered w) (steps : List FieldStep) (hsteps : ∀ s ∈ steps, s.Allowed w) :
    Ordered (w.after steps) ∧ Later w (w.after steps) ∧ ∀ p, (w.after steps).Unshadowed p →
      (w.after steps).valueAt p = ((w.writes steps).reverse.lookup p).getD (w.valueAt p) := by
  induction steps generalizing w with
  | nil => exact ⟨h, .refl w, fun p _ => rfl⟩
  | cons s steps ih =>
    have hwrote := FieldStep.wrote h (hsteps s mem_cons_self)
    obtain ⟨hordered, hlater, hvalues⟩ := ih hwrote.ordered fun x hx =>
      hwrote.later.allowed (hsteps x (mem_cons_of_mem _ hx))
    refine ⟨hordered, hwrote.later.trans hlater, fun p hp => ?_⟩
    have hunshadowed := (hwrote.later.trans hlater).unshadowed hp
    have hlast := hvalues p hp
    rw [hwrote.values p hunshadowed] at hlast
    rw [writes, reverse_append, lookup_append]
    have hsingle : (s.write? w).toList.reverse = (s.write? w).toList := by cases s.write? w <;> rfl
    rw [hsingle]
    refine hlast.trans ?_
    cases List.lookup p (writes (outcome s.act w).2 steps).reverse <;> rfl

end Dalvik.Store
