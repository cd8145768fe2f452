import Dalvik.Proofs.Loading
import Dalvik.Proofs.Rounds

/-!
# What instructions on fields do

The value of a field that is not static is kept by each object of its class, the value of a static field by the field
itself (`Place`). `Store.assignment?` and `Store.source?` say which place an instruction writes to or reads from, and
`Store.FieldEffect` all that it can do: it fails and changes nothing, writes, or sets a register. Writing a static field
through an object leaves a second copy with the object, which is never looked at.
-/

namespace Dalvik

open Access Datum

variable {v : Value} {o c f : Nat} {d : Datum} {p : String × String} {name : String}

/-- Where the value of a field is kept: with an object, or with the field itself. -/
inductive Place where
  | own (o : Nat) (name : String)
  | common (f : Nat)
  deriving DecidableEq

/-- The operations on fields. -/
def Operation.onFields (op : Operation) : Bool :=
  op = .staticPut ∨ op = .staticGet ∨ op = .fieldGet ∨ op = .fieldPut

/-- What the names of the instructions on fields start with. -/
def Operation.family : Operation → String
  | .staticPut => "sput"
  | .staticGet => "sget"
  | .fieldGet => "iget"
  | .fieldPut => "iput"
  | _ => ""

namespace Datum

/-- The two parts of a text around a separator. -/
def halves? (sep : String) (d : Datum) : Option (String × String) :=
  match d.text?.map (Text.splitParts sep) with
  | some [x, y] => some (x, y)
  | _ => none

/-- The class and the name in an operand that names a field. -/
def fieldName? (d : Datum) : Option (String × String) :=
  (d.halves? "->").bind fun p => (halves? ":" p.2).map fun q => (p.1, q.1)

/-- The operands of an instruction, one by one. -/
def spread? (d : Datum) : Option (List Datum) :=
  if d.holds then d.items? else some []

end Datum

theorem Table.get?_set {κ α : Type} [BEq κ] [LawfulBEq κ] [DecidableEq κ] (t : Table κ α) (k k' : κ) (v : α) :
    (t.set k v).get? k' = if k' = k then some v else t.get? k' := by
  split
  · subst_vars
    exact t.get?_set_self _ v
  · exact get?_set_ne ‹_›

namespace Store

variable {w : Store}

/-- The field that a class declares under a name. -/
def fieldIn? (w : Store) (c : Nat) (name : String) : Option Nat :=
  (w.cls c).fields.get? name

def isCommon (w : Store) (f : Nat) : Bool :=
  meets (w.field f).modifiers static

def isFinal (w : Store) (f : Nat) : Bool :=
  meets (w.field f).modifiers final

/-- The place of a field of an object. -/
def placeOf (w : Store) (o : Nat) (name : String) (f : Nat) : Place :=
  if w.isCommon f then .common f else .own o name

/-- A place where a declared field is kept. -/
def Declares (w : Store) : Place → Prop
  | .own o name => ∃ f, w.fieldIn? (w.object o).cls name = some f ∧ w.isCommon f = false
  | .common _ => True

def valueAt? (w : Store) : Place → Option Value
  | .own o name => (w.object o).values.get? name
  | .common f => some (w.field f).value

/-- The value at a place; where no value is kept, nothing was written. -/
def valueAt (w : Store) (p : Place) : Value :=
  (w.valueAt? p).getD .null

/-- The value of a register in a frame. -/
def registerIn? (w : Store) (i : Nat) (name : Datum) : Option Value :=
  name.text?.bind (w.frame i).registers.get?

/-- The object in a register of a frame. -/
def objectIn? (w : Store) (i : Nat) (name : Datum) : Option Nat :=
  match w.registerIn? i name with
  | some (.object o) => some o
  | _ => none

/-- The static field that an operand names, for a frame that belongs to a machine. -/
def staticField? (w : Store) (i : Nat) (d : Datum) : Option Nat :=
  if (w.frame i).vm?.isSome then
    d.fieldName?.bind fun p => (w.classTable.get? p.1).bind (w.fieldIn? · p.2)
  else none

/-- The field of an object that an operand names, with its name. -/
def objectField? (w : Store) (o : Nat) (d : Datum) : Option (String × Nat) :=
  d.fieldName?.bind fun p => (w.fieldIn? (w.object o).cls p.2).map (p.2, ·)

/-- The place that an instruction writes to, and the value. -/
def assignment? (w : Store) (i : Nat) (op : Operation) (operands : Datum) : Option (Place × Value) :=
  match op, operands.spread? with
  | .fieldPut, some [s, d, place] =>
    (w.objectIn? i d).bind fun o => (w.objectField? o place).bind fun p =>
      (w.registerIn? i s).map (w.placeOf o p.1 p.2, ·)
  | .staticPut, some [s, place] =>
    (w.staticField? i place).bind fun f => (w.registerIn? i s).map (.common f, ·)
  | _, _ => none

/-- The register that an instruction sets, and the place that it reads from. -/
def source? (w : Store) (i : Nat) (op : Operation) (operands : Datum) : Option (Datum × Place) :=
  match op, operands.spread? with
  | .fieldGet, some [d, s, place] =>
    (w.objectIn? i s).bind fun o => (w.objectField? o place).map fun p => (d, w.placeOf o p.1 p.2)
  | .staticGet, some [d, place] => (w.staticField? i place).map (d, .common ·)
  | _, _ => none

/-! ### What single steps do -/

section Steps

variable {α β : Type} {a i : Nat} {x : Act α} {k : α → Act β}

/-- A step that changes nothing in a store. -/
def StillAt (x : Act α) (w : Store) : Prop := (outcome x w).2 = w

section

variable (hx : StillAt x w)

include hx

theorem StillAt.outcome_bind : outcome (x >>= k) w = match (outcome x w).1 with
    | .ok b => outcome (k b) w
    | .error f => (.error f, w) := by
  have hw : outcome x w = ((outcome x w).1, w) := Prod.ext rfl hx
  rw [Dalvik.outcome_bind, hw]
  cases (outcome x w).1 <;> rfl

theorem StillAt.bind (hk : ∀ b, (outcome x w).1 = .ok b → StillAt (k b) w) : StillAt (x >>= k) w := by
  rw [StillAt, hx.outcome_bind]
  cases h : (outcome x w).1 with
  | ok b => exact hk b h
  | error f => rfl

theorem StillAt.bind_ok_iff {b : β} {t : Store} :
    outcome (x >>= k) w = (.ok b, t) ↔ ∃ c, (outcome x w).1 = .ok c ∧ outcome (k c) w = (.ok b, t) := by
  rw [hx.outcome_bind]
  cases (outcome x w).1 with
  | ok c => simp
  | error f => simp

theorem StillAt.bind_fst_iff {b : β} : (outcome (x >>= k) w).1 = .ok b ↔
    ∃ c, (outcome x w).1 = .ok c ∧ (outcome (k c) w).1 = .ok b := by
  rw [hx.outcome_bind]
  cases (outcome x w).1 with
  | ok c => simp
  | error f => simp

end

theorem stillAt_register (a : Nat) (name : Datum) (w : Store) : StillAt (register a name) w := by
  rw [StillAt, register, bind_ok w (outcome_currentFrame w a), bind_ok w (outcome_frameInfo w _)]
  split
  · rfl
  · rfl
  · split <;> rfl

theorem register_ok_iff (ha : (w.action a).frame = i) {name : Datum} :
    (outcome (register a name) w).1 = .ok v ↔ w.registerIn? i name = some v := by
  subst ha
  rw [register, bind_ok w (outcome_currentFrame w a), bind_ok w (outcome_frameInfo w _), registerIn?]
  split
  · simp [text?]
  · simp [text?]
  · split <;> simp [*]

theorem outcome_registerIn (ha : (w.action a).frame = i) {name : Datum} (h : w.registerIn? i name = some v) :
    outcome (register a name) w = (.ok v, w) :=
  Prod.ext ((register_ok_iff ha).mpr h) (stillAt_register a name w)

theorem stillAt_objectOperand (a : Nat) (name : Datum) (w : Store) : StillAt (objectOperand a name) w := by
  apply (stillAt_register a name w).bind
  intro v _
  cases v <;> rfl

theorem objectOperand_ok_iff (ha : (w.action a).frame = i) {name : Datum} :
    (outcome (objectOperand a name) w).1 = .ok o ↔ w.registerIn? i name = some (.object o) := by
  rw [← register_ok_iff ha, objectOperand, (stillAt_register a name w).outcome_bind]
  cases (outcome (register a name) w).1 with
  | ok v => cases v <;> simp [raise]
  | error f => simp

theorem stillAt_halvesOf (sep : String) (d : Datum) (w : Store) : StillAt (halvesOf sep d) w := by
  unfold halvesOf
  split
  · rfl
  · split <;> rfl

theorem stillAt_fieldOperand (d : Datum) (w : Store) : StillAt (fieldOperand d) w :=
  (stillAt_halvesOf "->" d w).bind fun _ _ => (stillAt_halvesOf ":" _ w).bind fun _ _ => rfl

theorem halvesOf_ok_iff {sep : String} : (outcome (halvesOf sep d) w).1 = .ok p ↔ d.halves? sep = some p := by
  unfold halvesOf halves?
  cases d.text? with
  | none => simp
  | some s =>
    dsimp only [Option.map_some]
    rcases Text.splitParts sep s with _ | ⟨x, _ | ⟨y, _ | ⟨z, rest⟩⟩⟩ <;> simp

theorem fieldOperand_eq (d : Datum) : fieldOperand d = halvesOf "->" d >>= fun q =>
    halvesOf ":" (.text q.2) >>= fun r => pure (q.1, r.1) := rfl

theorem fieldOperand_ok_iff : (outcome (fieldOperand d) w).1 = .ok p ↔ d.fieldName? = some p := by
  have hrest (q : String × String) : (outcome (halvesOf ":" (.text q.2) >>= fun r => pure (q.1, r.1)) w).1 = .ok p ↔
      (halves? ":" q.2).map (fun r => (q.1, r.1)) = some p := by
    rw [(stillAt_halvesOf ":" _ w).bind_fst_iff]
    simp [halvesOf_ok_iff]
  rw [fieldOperand_eq, (stillAt_halvesOf "->" d w).bind_fst_iff, fieldName?, Option.bind_eq_some_iff]
  simp only [halvesOf_ok_iff, hrest]

theorem stillAt_fieldOf (c : Nat) (name : String) (w : Store) : StillAt (fieldOf c name) w := by
  rw [StillAt, fieldOf, bind_ok w (outcome_classInfo w c)]
  split <;> rfl

theorem fieldOf_ok_iff : (outcome (fieldOf c name) w).1 = .ok f ↔ w.fieldIn? c name = some f := by
  rw [fieldOf, bind_ok w (outcome_classInfo w c), fieldIn?]
  split <;> simp [*]

theorem stillAt_classOperand (a : Nat) (name : String) (w : Store) : StillAt (classOperand a (.text name)) w := by
  apply StillAt.bind
  · rw [StillAt, currentVm, bind_ok w (outcome_currentFrame w a), bind_ok w (outcome_frameInfo w _)]
    split <;> rfl
  · intro vm _
    rw [StillAt, classNamed, bind_ok w (outcome_get w)]
    split <;> rfl

theorem classOperand_ok_iff (ha : (w.action a).frame = i) : (outcome (classOperand a (.text name)) w).1 = .ok c ↔
      (w.frame i).vm?.isSome ∧ w.classTable.get? name = some c := by
  subst ha
  unfold classOperand currentVm
  rw [bind_assoc, bind_ok w (outcome_currentFrame w a), bind_assoc, bind_ok w (outcome_frameInfo w _)]
  cases (w.frame (w.action a).frame).vm? with
  | none => simp
  | some vm =>
    rw [pure_bind, classNamed, bind_ok w (outcome_get w)]
    cases h : w.classTable.get? (Datum.text name).plain <;> simp_all [Datum.plain]

theorem stillAt_getField (o : Nat) (name : String) (w : Store) : StillAt (getField o name) w := by
  rw [StillAt, getField, bind_ok w (outcome_objectInfo w o), (stillAt_fieldOf _ name w).outcome_bind]
  split
  · rw [bind_ok w (outcome_fieldInfo w _)]
    split
    · rfl
    · split <;> rfl
  · rfl

theorem getField_ok_iff : (outcome (getField o name) w).1 = .ok v ↔ ∃ f, w.fieldIn? (w.object o).cls name = some f ∧
      if w.isCommon f then (w.field f).value = v else (w.object o).values.get? name = some v := by
  rw [getField, bind_ok w (outcome_objectInfo w o), (stillAt_fieldOf _ name w).bind_fst_iff]
  simp only [fieldOf_ok_iff]
  apply exists_congr
  intro f
  apply and_congr_right
  rw [bind_ok w (outcome_fieldInfo w f), isCommon]
  cases meets (w.field f).modifiers static with
  | true => simp
  | false => cases (w.object o).values.get? name <;> simp

/-- The store with a new value in a static field. -/
def setCommon (w : Store) (f : Nat) (v : Value) : Store :=
  { w with fields := w.fields.modify f fun x => { x with value := v } }

/-- The store with a new value with an object. -/
def setOwn (w : Store) (o : Nat) (name : String) (v : Value) : Store :=
  { w with objects := w.objects.modify o fun x => { x with values := x.values.set name v } }

/-- The store with a field written through an object. -/
def written (w : Store) (o : Nat) (name : String) (f : Nat) (v : Value) : Store :=
  (if w.isCommon f then w.setCommon f v else w).setOwn o name v

/-- Names that are shown without a number. -/
def isPlainName : Value → Bool
  | .null | .text _ => true
  | _ => false

theorem stillAt_plain (hv : isPlainName v = true) (w : Store) : StillAt (plain v) w := by
  cases v with
  | null => rfl
  | text t => rfl
  | _ => cases hv

theorem setField_cases (o : Nat) (name : String) (v : Value) : (∃ g t, outcome (setField o name v) w = (.error g, t) ∧
      (t = w ∨ t = (outcome (plain (w.cls (w.object o).cls).name) w).2)) ∨
      ∃ f, w.fieldIn? (w.object o).cls name = some f ∧ w.isFinal f = false ∧
        outcome (setField o name v) w = (.ok (), w.written o name f v) := by
  rw [setField, bind_ok w (outcome_objectInfo w o), (stillAt_fieldOf _ name w).outcome_bind]
  cases hres : (outcome (fieldOf (w.object o).cls name) w).1 with
  | error g => exact .inl ⟨g, w, rfl, .inl rfl⟩
  | ok f =>
    have hf := fieldOf_ok_iff.mp hres
    dsimp only
    rw [bind_ok w (outcome_fieldInfo w f)]
    cases hfinal : w.isFinal f with
    | true =>
      left
      rw [isFinal] at hfinal
      rw [if_pos hfinal, bind_ok w (outcome_classInfo w _), outcome_bind]
      rcases outcome (plain (w.cls (w.object o).cls).name) w with ⟨_ | s, t⟩
      · exact ⟨_, t, rfl, .inr rfl⟩
      · exact ⟨_, t, rfl, .inr rfl⟩
    | false =>
      right
      refine ⟨f, hf, hfinal, ?_⟩
      rw [isFinal] at hfinal
      rw [if_neg (by simp [hfinal])]
      rw [written, isCommon]
      cases meets (w.field f).modifiers static <;> rfl

/-- The store with a new value in a register. -/
def setRegisterIn (w : Store) (i : Nat) (name : String) (v : Value) : Store :=
  { w with frames := w.frames.modify i fun f => { f with registers := f.registers.set name v } }

theorem setRegister_cases (ha : (w.action a).frame = i) (name : Datum) (v : Value) :
    outcome (setRegister a name v) w = (.error .operandType, w) ∨
      outcome (setRegister a name v) w = (.ok (), w.setRegisterIn i name.plain v) := by
  subst ha
  cases name with
  | list _ => exact .inl rfl
  | table _ => exact .inl rfl
  | _ => exact .inr rfl

end Steps

/-! ### What an instruction on fields does -/

section Effects

theorem outcome_perform {run : Runner} {a : Nat} {op : Operation} (hop : (w.action a).operation? = some op) (i : Nat)
    (operands : Datum) : outcome (perform run a i operands) w = match operands.spread? with
      | some xs => outcome (operate run a op xs) (w.started a i)
      | none => (.error .operandType, w.started a i) := by
  have hspread (u : Store) : outcome (spread operands) u = match operands.spread? with
      | some xs => (.ok xs, u)
      | none => (.error .operandType, u) := by
    unfold spread spread?
    cases operands.holds with
    | false => rfl
    | true => cases operands.items? <;> rfl
  rw [perform, bind_ok w (outcome_start w a i), bind_ok _ (outcome_actionInfo _ a), operation_started, hop]
  rw [outcome_bind, hspread]
  cases operands.spread? <;> rfl

variable {run : Runner} {a i : Nat} {op : Operation} {operands : Datum}

/-- All that an instruction on fields can do: fail, write a static field, write a field through an object, or set a
register. -/
inductive FieldEffect (w : Store) (i : Nat) (op : Operation) (operands : Datum) : Except Fault Unit × Store → Prop
  | fault (g : Fault) : FieldEffect w i op operands (.error g, w)
  | common {s place : Datum} {f : Nat} {v : Value} (hop : op = .staticPut)
      (hxs : operands.spread? = some [s, place]) (hf : w.staticField? i place = some f)
      (hv : w.registerIn? i s = some v) : FieldEffect w i op operands (.ok (), w.setCommon f v)
  | through {s d place : Datum} {o f : Nat} {name : String} {v : Value} (hop : op = .fieldPut)
      (hxs : operands.spread? = some [s, d, place]) (ho : w.objectIn? i d = some o)
      (hf : w.objectField? o place = some (name, f)) (hfinal : w.isFinal f = false)
      (hv : w.registerIn? i s = some v) : FieldEffect w i op operands (.ok (), w.written o name f v)
  | load {d : Datum} {p : Place} {v : Value} (hs : w.source? i op operands = some (d, p))
      (hv : w.valueAt? p = some v) : FieldEffect w i op operands (.ok (), w.setRegisterIn i d.plain v)

theorem objectIn?_eq_some {name : Datum} : w.objectIn? i name = some o ↔ w.registerIn? i name = some (.object o) := by
  unfold objectIn?
  cases w.registerIn? i name with
  | none => simp
  | some v => cases v <;> simp

theorem objectField?_eq_some : w.objectField? o d = some (name, f) ↔
    ∃ p, d.fieldName? = some p ∧ p.2 = name ∧ w.fieldIn? (w.object o).cls name = some f := by
  unfold objectField?
  rw [Option.bind_eq_some_iff]
  apply exists_congr
  intro p
  apply and_congr_right
  rw [Option.map_eq_some_iff]
  grind

theorem staticField?_eq_some : w.staticField? i d = some f ↔ (w.frame i).vm?.isSome ∧
    ∃ p, d.fieldName? = some p ∧ ∃ c, w.classTable.get? p.1 = some c ∧ w.fieldIn? c p.2 = some f := by
  unfold staticField?
  cases (w.frame i).vm?.isSome <;> simp [Option.bind_eq_some_iff]

theorem valueAt?_of_getField : (outcome (getField o name) w).1 = .ok v ↔
      ∃ f, w.fieldIn? (w.object o).cls name = some f ∧ w.valueAt? (w.placeOf o name f) = some v := by
  rw [getField_ok_iff]
  apply exists_congr
  intro f
  apply and_congr_right
  unfold placeOf
  cases w.isCommon f <;> simp [valueAt?]

theorem FieldEffect.bind {α : Type} {x : Act α} {k : α → Act Unit} (hx : StillAt x w)
    (hk : ∀ b, (outcome x w).1 = .ok b → FieldEffect w i op operands (outcome (k b) w)) :
    FieldEffect w i op operands (outcome (x >>= k) w) := by
  rw [hx.outcome_bind]
  cases h : (outcome x w).1 with
  | ok b => exact hk b h
  | error g => exact .fault g

theorem FieldEffect.setRegister (ha : (w.action a).frame = i) {p : Place} (hs : w.source? i op operands = some (d, p))
    (hv : w.valueAt? p = some v) :
    FieldEffect w i op operands (outcome (setRegister a d v) w) := by
  rcases setRegister_cases ha d v with h | h
  · rw [h]
    exact .fault _
  · rw [h]
    exact .load hs hv

theorem FieldEffect.bind_static (ha : (w.action a).frame = i) {place : Datum} {k : Nat → Act Unit}
    (hk : ∀ f, w.staticField? i place = some f → FieldEffect w i op operands (outcome (k f) w)) :
    FieldEffect w i op operands (outcome (do
      let (owner, name) ← fieldOperand place
      let f ← fieldOf (← classOperand a (.text owner)) name
      k f) w) := by
  apply FieldEffect.bind (stillAt_fieldOperand place w)
  intro p hp
  apply FieldEffect.bind (stillAt_classOperand a p.1 w)
  intro c hc
  rw [classOperand_ok_iff ha] at hc
  apply FieldEffect.bind (stillAt_fieldOf c p.2 w)
  intro f hf
  rw [fieldOf_ok_iff] at hf
  exact hk f (staticField?_eq_some.mpr ⟨hc.1, p, fieldOperand_ok_iff.mp hp, c, hc.2, hf⟩)

theorem fieldEffect_operate (hnames : ∀ c, isPlainName (w.cls c).name = true) (hop : op.onFields = true)
    (ha : (w.action a).frame = i) {xs : List Datum} (hxs : operands.spread? = some xs) :
    FieldEffect w i op operands (outcome (operate run a op xs) w) := by
  have hcases : op = .staticPut ∨ op = .staticGet ∨ op = .fieldGet ∨ op = .fieldPut := by
    simpa [Operation.onFields] using hop
  rcases hcases with rfl | rfl | rfl | rfl
  · rcases xs with _ | ⟨r, _ | ⟨place, _ | ⟨z, rest⟩⟩⟩
    iterate 2 exact .fault _
    · apply FieldEffect.bind (stillAt_register a r w)
      intro v hv
      rw [register_ok_iff ha] at hv
      apply FieldEffect.bind_static ha
      intro f hf
      exact .common rfl hxs hf hv
    · exact .fault _
  · rcases xs with _ | ⟨r, _ | ⟨place, _ | ⟨z, rest⟩⟩⟩
    iterate 2 exact .fault _
    · apply FieldEffect.bind_static ha
      intro f hf
      rw [bind_ok w (outcome_fieldInfo w f)]
      exact .setRegister ha (p := .common f) (by simp [source?, hxs, hf]) rfl
    · exact .fault _
  · rcases xs with _ | ⟨d, _ | ⟨s, _ | ⟨place, _ | ⟨z, rest⟩⟩⟩⟩
    iterate 3 exact .fault _
    · apply FieldEffect.bind (stillAt_objectOperand a s w)
      intro o ho
      rw [objectOperand_ok_iff ha, ← objectIn?_eq_some] at ho
      apply FieldEffect.bind (stillAt_fieldOperand place w)
      intro p hp
      apply FieldEffect.bind (stillAt_getField o p.2 w)
      intro v hv
      obtain ⟨f, hf, hv⟩ := valueAt?_of_getField.mp hv
      have hfield := objectField?_eq_some.mpr ⟨p, fieldOperand_ok_iff.mp hp, rfl, hf⟩
      exact .setRegister ha (by simp [source?, hxs, ho, hfield]) hv
    · exact .fault _
  · rcases xs with _ | ⟨s, _ | ⟨d, _ | ⟨place, _ | ⟨z, rest⟩⟩⟩⟩
    iterate 3 exact .fault _
    · apply FieldEffect.bind (stillAt_objectOperand a d w)
      intro o ho
      rw [objectOperand_ok_iff ha, ← objectIn?_eq_some] at ho
      apply FieldEffect.bind (stillAt_fieldOperand place w)
      intro p hp
      apply FieldEffect.bind (stillAt_register a s w)
      intro v hv
      rw [register_ok_iff ha] at hv
      rcases setField_cases o p.2 v with ⟨g, t, h, ht⟩ | ⟨f, hf, hfinal, h⟩
      · obtain rfl : t = w := ht.elim id fun ht => ht.trans (stillAt_plain (hnames _) w)
        rw [h]
        exact .fault g
      · rw [h]
        have hfield := objectField?_eq_some.mpr ⟨p, fieldOperand_ok_iff.mp hp, rfl, hf⟩
        exact .through rfl hxs ho hfield hfinal hv
    · exact .fault _

theorem fieldEffect_perform (hnames : ∀ c, isPlainName (w.cls c).name = true)
    (hop : (w.action a).operation? = some op) (hfields : op.onFields = true) :
    FieldEffect (w.started a i) i op operands (outcome (perform run a i operands) w) := by
  rw [outcome_perform hop]
  cases hxs : operands.spread? with
  | none => exact .fault _
  | some xs => exact fieldEffect_operate (w := w.started a i) hnames hfields (frame_action_started hop i) hxs

theorem outcome_perform_load (hop : (w.action a).operation? = some op) {r : String} {p : Place}
    (hs : w.source? i op operands = some (.text r, p)) (hv : w.valueAt? p = some v) :
    outcome (perform run a i operands) w = (.ok (), (w.started a i).setRegisterIn i r v) := by
  have ha := frame_action_started hop i
  rw [outcome_perform hop]
  change (w.started a i).source? i op operands = some (.text r, p) at hs
  change (w.started a i).valueAt? p = some v at hv
  generalize w.started a i = u at ha hs hv ⊢
  have hset : outcome (setRegister a (.text r) v) u = (.ok (), u.setRegisterIn i r v) := by
    subst ha
    rfl
  unfold source? at hs
  split at hs
  · rename_i d s place hxs
    obtain ⟨o, ho, hs⟩ := Option.bind_eq_some_iff.mp hs
    obtain ⟨⟨name, f⟩, hfield, hs⟩ := Option.map_eq_some_iff.mp hs
    obtain ⟨rfl, rfl⟩ := Prod.mk.inj hs
    obtain ⟨q, hq, rfl, hf⟩ := objectField?_eq_some.mp hfield
    rw [hxs]
    refine (stillAt_objectOperand a s u).bind_ok_iff.mpr ⟨o, ?_, ?_⟩
    · rwa [objectOperand_ok_iff ha, ← objectIn?_eq_some]
    refine (stillAt_fieldOperand place u).bind_ok_iff.mpr ⟨q, fieldOperand_ok_iff.mpr hq, ?_⟩
    exact (stillAt_getField o q.2 u).bind_ok_iff.mpr ⟨v, valueAt?_of_getField.mpr ⟨f, hf, hv⟩, hset⟩
  · rename_i d place hxs
    obtain ⟨f, hstatic, hs⟩ := Option.map_eq_some_iff.mp hs
    obtain ⟨rfl, rfl⟩ := Prod.mk.inj hs
    obtain ⟨hvm, q, hq, c, hc, hf⟩ := staticField?_eq_some.mp hstatic
    obtain rfl : (u.field f).value = v := by simpa [valueAt?] using hv
    rw [hxs]
    refine (stillAt_fieldOperand place u).bind_ok_iff.mpr ⟨q, fieldOperand_ok_iff.mpr hq, ?_⟩
    refine (stillAt_classOperand a q.1 u).bind_ok_iff.mpr ⟨c, (classOperand_ok_iff ha).mpr ⟨hvm, hc⟩, ?_⟩
    exact (stillAt_fieldOf c q.2 u).bind_ok_iff.mpr ⟨f, fieldOf_ok_iff.mpr hf, hset⟩
  · cases hs

end Effects

end Store

end Dalvik
