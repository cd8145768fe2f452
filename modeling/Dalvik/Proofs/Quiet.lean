import Dalvik.Machine.Run
import Dalvik.Proofs.Outcome

/-!
# Steps of the machine that look past its frames

Making and comparing values, looking up classes and members, showing values: none of these looks at a frame or at an
action, or changes one. So such a step does the same wherever frames and actions stand, and leaves them as they are
(`Store.Blind`), whether it succeeds or ends in a fault. Most of these steps leave alone all else that they find in the
store, too (`Store.Retains`). The lemmas follow the functions from the access to the store up to the operations on
objects.
-/

namespace Dalvik

variable {s t : Store} {f : Store → Store}

/-- What surrounds the values of a store: the frames and the actions, the tables of what is registered, and the notes
that were made before. -/
structure Setting where
  frames : Array Frame
  actions : Array Action
  classTable : Table String Nat
  frameTable : Table String Nat
  checkedTypes : List Descriptor
  notes : List TraceNote

/-- A setting has the tables of a store. -/
structure Setting.Fits (d : Setting) (s : Store) : Prop where
  classTable : d.classTable = s.classTable
  frameTable : d.frameTable = s.frameTable
  checkedTypes : d.checkedTypes = s.checkedTypes

namespace Store

variable {α β : Type}
variable {x : Act α} {k : α → Act β}

def setting (s : Store) : Setting :=
  ⟨s.frames, s.actions, s.classTable, s.frameTable, s.checkedTypes, []⟩

/-- The store in another setting. -/
def within (s : Store) (d : Setting) : Store :=
  { s with frames := d.frames, actions := d.actions, classTable := d.classTable, frameTable := d.frameTable,
           checkedTypes := d.checkedTypes, trace := s.trace ++ d.notes }

/-- A store stands in its own setting. -/
theorem within_setting (s : Store) : s.within s.setting = s := by
  simp [within, setting]

/-- The lists, objects, fields and annotations that were there are there as before. There may be more lists. -/
structure Retains (s t : Store) : Prop where
  lists : ∀ (l : Nat) xs, s.lists[l]? = some xs → t.lists[l]? = some xs
  objects : t.objects = s.objects
  fields : t.fields = s.fields
  annots : t.annots = s.annots

theorem Retains.refl (s : Store) : s.Retains s := ⟨fun _ _ h => h, rfl, rfl, rfl⟩

theorem Retains.trans {u : Store} (h : s.Retains t) (h' : t.Retains u) : s.Retains u :=
  ⟨fun l xs hl => h'.lists l xs (h.lists l xs hl), h'.objects.trans h.objects, h'.fields.trans h.fields,
    h'.annots.trans h.annots⟩

/-- A step that does the same in every setting with the same tables and leaves it as it is. Unless it `writes`, it
also leaves alone what else it finds in the store. -/
structure Blind (writes : Bool) (x : Act α) : Prop where
  outcome_within : ∀ (s : Store) (d : Setting), d.Fits s →
    outcome x (s.within d) = ((outcome x s).1, (outcome x s).2.within d)
  retains : writes = false → ∀ s : Store, s.Retains (outcome x s).2

namespace Blind

variable {q : Bool} (v : Value) (op : Operator) (a b : Value) (i : Nat) (n : Nat) (signature : String)
  (d : Descriptor) (name : String) (r : Relation) (owner : Nat)

/-! ### Access to the store -/

/-- The setting is left as it is. -/
theorem setting_eq (hx : Blind q x) (s : Store) : (outcome x s).2.setting = s.setting := by
  have h := hx.outcome_within s s.setting ⟨rfl, rfl, rfl⟩
  rw [within_setting] at h
  rw [h]
  rfl

/-- A result alone changes nothing. -/
theorem of_pure (a : α) : Blind q (pure a) := ⟨fun _ _ _ => rfl, fun _ => .refl⟩

/-- A fault leaves the store as it is. -/
theorem of_throw (f : Fault) : Blind q (throw f : Act α) := ⟨fun _ _ _ => rfl, fun _ => .refl⟩

/-- Nothing is done behind a fault. -/
theorem of_throw_bind {f : Fault} : Blind q (throw f >>= k) := ⟨fun _ _ _ => rfl, fun _ => .refl⟩

/-- A change looks past the setting where it commutes with changes of the setting. -/
theorem of_modify (hf : ∀ s d, f (s.within d) = (f s).within d) (hs : q = false → ∀ s, Retains s (f s)) :
    Blind q (modify f) :=
  ⟨fun s d _ => by simp only [outcome_modify, hf s d], hs⟩

/-- Steps are put one behind another: the tables, on which the second may depend, are those of the first. -/
theorem bind (hx : Blind q x) (hk : ∀ a, Blind q (k a)) : Blind q (x >>= k) := by
  refine ⟨fun s d hd => ?_, fun hq s => ?_⟩
  · have hset := hx.setting_eq s
    rw [outcome_bind, outcome_bind, hx.outcome_within s d hd]
    rcases h : outcome x s with ⟨r, t⟩
    rw [h] at hset
    cases r with
    | error f => rfl
    | ok a =>
      obtain ⟨h₁, h₂, h₃⟩ := hd
      simp only [setting, Setting.mk.injEq] at hset
      exact (hk a).outcome_within t d
        ⟨h₁.trans hset.2.2.1.symm, h₂.trans hset.2.2.2.1.symm, h₃.trans hset.2.2.2.2.1.symm⟩
  · have hs := hx.retains hq s
    rw [outcome_bind]
    rcases h : outcome x s with ⟨r, t⟩
    rw [h] at hs
    cases r with
    | error f => exact hs
    | ok a => exact hs.trans ((hk a).retains hq t)

/-- What follows may depend on the store, but on the setting only through its tables. -/
theorem of_get_bind {k : Store → Act α} (hk : ∀ s, Blind q (k s))
    (heq : ∀ s d, d.Fits s → k (s.within d) = k s) : Blind q (get >>= k) := by
  refine ⟨fun s d hd => ?_, fun hq s => (hk s).retains hq s⟩
  rw [outcome_bind, outcome_bind, outcome_get]
  dsimp only
  rw [heq s d hd]
  exact (hk s).outcome_within s d hd

theorem of_modify_bind {k : PUnit → Act α} (hf : ∀ s d, f (s.within d) = (f s).within d)
    (hs : q = false → ∀ s, Retains s (f s)) (hk : ∀ a, Blind q (k a)) : Blind q (modify f >>= k) :=
  (of_modify hf hs).bind hk

/-- Making something: its number is read off the store, which is then changed. -/
theorem of_make {f : Store → Store} {g : Store → α} (hf : ∀ s d, f (s.within d) = (f s).within d)
    (hs : q = false → ∀ s, Retains s (f s)) (hg : ∀ s d, g (s.within d) = g s) :
    Blind q (do let s ← get; modify f; pure (g s) : Act α) :=
  of_get_bind (fun _ => of_modify_bind hf hs fun _ => of_pure _) fun s d _ => by rw [hg s d]

theorem ite {p : Prop} [Decidable p] {y : Act α} (hx : p → Blind q x) (hy : ¬p → Blind q y) :
    Blind q (if p then x else y) :=
  iteInduction (motive := Blind q) hx hy

/-- What is read off the store must not depend on the setting. -/
theorem look {f : Store → α} (hf : ∀ s d, f (s.within d) = f s) : Blind q (do pure (f (← get)) : Act α) :=
  of_get_bind (fun _ => of_pure _) fun s d _ => by rw [hf s d]

theorem attempt (x : Except Fault α) : Blind q (attempt x) := by
  cases x with
  | ok a => exact of_pure a
  | error f => exact of_throw f

theorem raise (name message : String) : Blind q (raise name message : Act α) := of_throw _

/-- A step is taken for each element of a list. -/
theorem mapM {f : α → Act β} (hf : ∀ a, Blind q (f a)) (xs : List α) : Blind q (xs.mapM f) := by
  induction xs with
  | nil => exact of_pure _
  | cons x xs ih =>
    rw [List.mapM_cons]
    exact (hf x).bind fun _ => ih.bind fun _ => of_pure _

/-- Each step of a loop may be its last. -/
theorem forIn {xs : List α} {init : β} {f : α → β → Act (ForInStep β)} (hf : ∀ a b, Blind q (f a b)) :
    Blind q (forIn xs init f) := by
  induction xs generalizing init with
  | nil =>
    exact of_pure _
  | cons x xs ih =>
    rw [List.forIn_cons]
    refine (hf x init).bind fun step => ?_
    cases step with
    | done b => exact of_pure _
    | yield b => exact ih

/-! ### Values -/

theorem items : Blind q (items i) := look fun _ _ => rfl

/-- A list is put behind those that were there, which stay. -/
theorem newList (xs : List Value) : Blind q (newList xs) := by
  refine of_make (fun _ _ => rfl) (fun _ s => ⟨fun l ys hl => ?_, rfl, rfl, rfl⟩) fun _ _ => rfl
  have hlt := (Array.getElem?_eq_some_iff.mp hl).1
  rw [Array.getElem?_push, if_neg (Nat.ne_of_lt hlt), hl]

/-- To change a list in place is to write. -/
theorem setItems (xs : List Value) : Blind true (setItems i xs) := of_modify (fun _ _ => rfl) nofun

theorem newType : Blind q (newType d) :=
  of_make (fun _ _ => rfl) (fun _ _ => ⟨fun _ _ h => h, rfl, rfl, rfl⟩) fun _ _ => rfl

theorem newError (carried : Option Value) : Blind q (newError name carried) :=
  of_make (fun _ _ => rfl) (fun _ _ => ⟨fun _ _ h => h, rfl, rfl, rfl⟩) fun _ _ => rfl

theorem ofLiteral (v : Literal) : Blind q (ofLiteral v) := by
  cases v with
  | type d => exact newType d
  | int n => exact of_pure _
  | bool b => exact of_pure _
  | float x => exact of_pure _
  | text t => exact of_pure _

/-- A value is read from a text alone, except that a type is made anew. -/
theorem parseValue (s : String) : Blind q (parseValue s) :=
  (attempt _).bind ofLiteral

theorem literal (d : Datum) : Blind q (literal d) := by
  unfold Store.literal
  split
  · exact parseValue _
  · exact of_throw _

/-- An identity is numbered when it is first asked for, which no list, object or field notices. -/
theorem number (x : Identity) : Blind q (number x) := by
  refine of_get_bind (fun s => ?_) fun _ _ _ => rfl
  dsimp only
  split
  · exact of_pure _
  · exact of_modify_bind (fun _ _ => rfl) (fun _ _ => ⟨fun _ _ h => h, rfl, rfl, rfl⟩) fun _ => of_pure _

theorem member? : Blind q (member? v) := by
  unfold Store.member?
  split
  all_goals first | exact of_pure _ | exact (look fun _ _ => rfl).bind fun _ => of_pure _

theorem holds : Blind q (holds v) := by
  unfold Store.holds
  split
  all_goals first | exact of_pure _ | exact (look fun _ _ => rfl).bind fun _ => of_pure _

/-! ### Comparing -/

/-- Values other than lists: numbers are compared by size, members by signature. -/
theorem equalSimple : Blind q (equalSimple a b) := by
  unfold Store.equalSimple
  split
  · exact of_pure _
  · split
    all_goals first
      | exact of_pure _
      | exact (member? _).bind fun _ => (member? _).bind fun _ => of_pure _

/-- Lists are compared item by item, with less depth for each. -/
theorem equalItems {n : Nat} (h : ∀ a b, Blind q (equalWithin n a b)) (xs ys : List Value) :
    Blind q (equalItems n xs ys) := by
  induction xs generalizing ys with
  | nil =>
    rw [Store.equalItems]
    · exact of_pure _
    · intros
      contradiction
  | cons x xs ih =>
    cases ys with
    | nil =>
      rw [Store.equalItems]
      · exact of_pure _
      · intros
        contradiction
    | cons y ys =>
      unfold Store.equalItems
      refine ite (fun _ => ih ys) fun _ => (h x y).bind fun same => ?_
      exact ite (fun _ => ih ys) fun _ => of_pure _

/-- Values are compared by induction on the depth. -/
theorem equalWithin (a b : Value) : Blind q (equalWithin n a b) := by
  induction n generalizing a b with
  | zero =>
    unfold Store.equalWithin
    split
    · exact of_throw _
    · contradiction
    · exact equalSimple _ _
  | succ n ih =>
    unfold Store.equalWithin
    split
    · contradiction
    · rename_i heq
      cases heq
      refine (items _).bind fun xs => (items _).bind fun ys => ?_
      exact ite (fun _ => of_pure _) fun _ => equalItems ih xs ys
    · exact equalSimple _ _

theorem equal : Blind q (equal a b) :=
  equalWithin _ a b

theorem unequal : Blind q (unequal a b) := by
  exact ite (fun _ => of_pure _) fun _ => (equal a b).bind fun _ => of_pure _

/-- Lists are ordered by the first items in which they differ. -/
theorem firstDifference (xs ys : List Value) : Blind q (firstDifference n xs ys) := by
  induction xs generalizing ys with
  | nil => exact of_pure _
  | cons x xs ih =>
    cases ys with
    | nil => exact of_pure _
    | cons y ys =>
      refine ite (fun _ => ih ys) fun _ => (equalWithin n x y).bind fun same => ?_
      exact ite (fun _ => ih ys) fun _ => of_pure _

/-- The induction is on the depth, as for equality. -/
theorem orderedWithin (n : Nat) (a b : Value) : Blind q (orderedWithin r n a b) := by
  induction n generalizing a b with
  | zero =>
    unfold Store.orderedWithin
    split
    · exact of_pure _
    · split
      · exact of_pure _
      · exact of_pure _
      · exact of_throw _
      · contradiction
      · exact of_throw _
  | succ n ih =>
    unfold Store.orderedWithin
    split
    · exact of_pure _
    · split
      · exact of_pure _
      · exact of_pure _
      · contradiction
      · obtain rfl : n = _ := Nat.succ.inj ‹_›
        refine (items _).bind fun xs => (items _).bind fun ys => ?_
        refine (firstDifference _ xs ys).bind fun d => ?_
        split
        · exact ih _ _
        · exact of_pure _
      · exact of_throw _

/-- All relations between values are decided so. -/
theorem related (a b : Value) : Blind q (related r a b) := by
  unfold Store.related
  split
  · exact equal a b
  · exact unequal a b
  · exact orderedWithin _ _ a b

/-! ### Arithmetic -/

theorem floatOf (n : Int) : Blind q (floatOf n) := by
  unfold Store.floatOf
  split
  · exact of_pure _
  · exact of_throw _

/-- Before an operator is applied, both operands are made numbers of one kind where they can be. -/
theorem pairOf : Blind q (pairOf a b) := by
  unfold Store.pairOf
  split
  · exact of_pure _
  · split
    · exact (floatOf _).bind fun _ => of_pure _
    · exact of_pure _
  · split
    · exact (floatOf _).bind fun _ => of_pure _
    · exact of_pure _
  · split
    · exact of_pure _
    · exact of_pure _

theorem repeatValue (n : Int) (v : Value) : Blind q (repeatValue n v) := by
  unfold Store.repeatValue
  split
  · exact of_pure _
  · exact of_pure _
  · exact (items _).bind fun _ => newList _
  · exact of_throw _

/-- Operands that are no numbers: texts and lists are joined, repeated or filled in. -/
theorem onOthers (a b : Value) : Blind q (onOthers op a b) := by
  unfold Store.onOthers
  split
  · unfold Store.join
    split
    · exact of_pure _
    · exact of_pure _
    · exact (items _).bind fun _ => (items _).bind fun _ => newList _
    · exact of_throw _
  · unfold Store.multiple
    split
    · exact repeatValue _ _
    · exact repeatValue _ _
    · exact of_throw _
  · exact ite (fun _ => of_throw _) fun _ => of_pure _
  · exact ite (fun _ => of_throw _) fun _ => of_pure _
  · exact of_throw _

theorem ratio (a b : Int) : Blind q (ratio a b) :=
  ite (fun _ => of_throw _) fun _ => ite (fun _ => of_pure _) fun _ => of_throw _

theorem shiftUp (a b : Int) : Blind q (shiftUp a b) :=
  ite (fun _ => of_throw _) fun _ => ite (fun _ => of_pure _) fun _ =>
    ite (fun _ => of_throw _) fun _ => of_pure _

theorem shiftDown (a b : Int) : Blind q (shiftDown a b) :=
  ite (fun _ => of_throw _) fun _ => ite (fun _ => of_pure _) fun _ => of_pure _

/-- On integers an operator gives a number or a fault. -/
theorem onInts (a b : Int) : Blind q (onInts op a b) := by
  cases op with
  | floorDiv => exact ite (fun _ => of_throw _) fun _ => of_pure _
  | mod => exact ite (fun _ => of_throw _) fun _ => of_pure _
  | trueDiv => exact ratio a b
  | shl => exact shiftUp a b
  | shr => exact shiftDown a b
  | add | sub | mul | and | or | xor => exact of_pure _

theorem onFloats (x y : Double) : Blind q (onFloats op x y) := by
  cases op with
  | floorDiv | trueDiv | mod => exact ite (fun _ => of_throw _) fun _ => of_pure _
  | shl | shr | and | or | xor => exact of_throw _
  | add | sub | mul => exact of_pure _

/-- An operator is chosen by the kinds of its operands. -/
theorem apply (a b : Value) : Blind q (apply op a b) := by
  unfold Store.apply
  split
  all_goals first
    | exact of_pure _
    | exact of_throw _
    | skip
  refine (pairOf a b).bind fun p => ?_
  split
  · exact onInts _ _ _
  · exact onFloats _ _ _
  · exact onOthers _ _ _

theorem membersOf : Blind q (membersOf v) := by
  unfold Store.membersOf
  split
  · exact items _
  · exact of_pure _
  · exact of_pure _
  · exact (look fun _ _ => rfl).bind fun _ => of_pure _
  all_goals exact of_throw _

/-- The operators that change their first operand write where it is a list. -/
theorem applyInPlace (a b : Value) : Blind true (applyInPlace op a b) := by
  unfold Store.applyInPlace
  split
  · exact (membersOf _).bind fun _ => (items _).bind fun _ => (setItems _ _).bind fun _ => of_pure _
  · split
    · exact (items _).bind fun _ => (setItems _ _).bind fun _ => of_pure _
    · exact of_throw _
  · exact apply _ _ _

theorem masked (mask : Nat) : Blind q (masked v mask) := by
  unfold Store.masked
  split
  · exact of_pure _
  · exact of_throw _

/-- A float is made of a number or a numeral, or there is a fault. -/
theorem toFloat : Blind q (toFloat v) := by
  unfold Store.toFloat
  dsimp only
  split
  · exact of_pure _
  · refine ite (fun _ => of_throw _) fun _ => ?_
    split
    · exact of_pure _
    · exact of_throw _
  · refine ite (fun _ => ?_) fun _ => of_throw _
    split
    · exact of_pure _
    · exact of_throw _
  · split
    · exact (floatOf _).bind fun _ => of_pure _
    · exact of_throw _

theorem negated : Blind q (negated v) := by
  unfold Store.negated
  split
  · exact of_pure _
  · split
    · exact of_pure _
    · exact of_throw _

theorem complemented : Blind q (complemented v) := by
  unfold Store.complemented
  split
  · exact of_pure _
  · exact of_throw _

theorem unpacked : Blind q (unpacked v) := by
  unfold Store.unpacked
  split
  · exact of_pure _
  · exact of_throw _
  · exact of_throw _

/-! ### Showing -/

/-- Lists are shown through their items, by induction on the depth; objects by their numbers. -/
theorem displayWithin (active : List Nat) (v : Value) : Blind q (displayWithin n active v) := by
  induction n generalizing active v with
  | zero =>
    unfold Store.displayWithin
    split
    all_goals first
      | exact of_pure _
      | exact of_throw _
      | contradiction
      | exact (number _).bind fun _ => of_pure _
      | exact (look fun _ _ => rfl).bind fun _ => (number _).bind fun _ => of_pure _
      | skip
    refine (member? _).bind fun m => ?_
    split
    · exact (number _).bind fun _ => of_pure _
    · exact of_pure _
  | succ n ih =>
    unfold Store.displayWithin
    split
    all_goals first
      | exact of_pure _
      | contradiction
      | exact (number _).bind fun _ => of_pure _
      | exact (look fun _ _ => rfl).bind fun _ => (number _).bind fun _ => of_pure _
      | skip
    · obtain rfl : n = _ := Nat.succ.inj ‹_›
      refine ite (fun _ => of_pure _) fun _ => (items _).bind fun xs => ?_
      exact (mapM (fun x => ih _ x) xs).bind fun _ => of_pure _
    · refine (member? _).bind fun m => ?_
      split
      · exact (number _).bind fun _ => of_pure _
      · exact of_pure _

theorem display : Blind q (display v) :=
  displayWithin _ _ v

/-- Errors are shown through the values that they carry, again by induction on the depth. -/
theorem showWithin (v : Value) : Blind q (showWithin n v) := by
  have others (v : Value) {k : Option Member → Act Text} (hsome : ∀ m, Blind q (k (some m)))
      (hnone : Blind q (k none)) : Blind q (Store.member? v >>= k) := by
    refine (member? v).bind fun m => ?_
    cases m with
    | some m => exact hsome m
    | none => exact hnone
  induction n generalizing v with
  | zero =>
    unfold Store.showWithin
    split
    · exact of_pure _
    · exact of_pure _
    · exact (look fun _ _ => rfl).bind fun _ => (look fun _ _ => rfl).bind fun _ => (number _).bind fun _ => of_pure _
    · exact (look fun _ _ => rfl).bind fun _ => of_pure _
    · exact of_throw _
    · contradiction
    · exact others _ (fun _ => of_pure _) ((display _).bind fun _ => of_pure _)
  | succ n ih =>
    unfold Store.showWithin
    split
    · exact of_pure _
    · exact of_pure _
    · exact (look fun _ _ => rfl).bind fun _ => (look fun _ _ => rfl).bind fun _ => (number _).bind fun _ => of_pure _
    · exact (look fun _ _ => rfl).bind fun _ => of_pure _
    · contradiction
    · obtain rfl : n = _ := Nat.succ.inj ‹_›
      refine (look fun _ _ => rfl).bind fun e => ?_
      split
      · exact of_pure _
      · exact (ih _).bind fun t => ite (fun _ => of_pure _) fun _ => of_pure _
    · exact others _ (fun _ => of_pure _) ((display _).bind fun _ => of_pure _)

theorem plainText : Blind q (plainText v) :=
  showWithin _ v

theorem plain : Blind q (plain v) :=
  (plainText v).bind fun _ => of_pure _

/-- Raising a value shows it, and ends in a fault. -/
theorem raiseValue : Blind q (raiseValue v : Act α) := by
  unfold Store.raiseValue
  split
  · exact (look fun _ _ => rfl).bind fun _ => (plain _).bind fun _ => of_throw _
  · exact (plain _).bind fun _ => raise _ _

/-! ### Classes and objects -/

theorem updateField (f : FieldInfo → FieldInfo) : Blind true (updateField i f) :=
  of_modify (fun _ _ => rfl) nofun

theorem updateObject (f : ObjectInfo → ObjectInfo) : Blind true (updateObject i f) :=
  of_modify (fun _ _ => rfl) nofun

theorem updateAnnot (f : AnnotInfo → AnnotInfo) : Blind true (updateAnnot i f) :=
  of_modify (fun _ _ => rfl) nofun

/-- Methods of one name are tried one after another. -/
theorem withSignature (ms : List Nat) : Blind q (withSignature signature ms) := by
  induction ms with
  | nil => exact of_pure _
  | cons m ms ih => exact (look fun _ _ => rfl).bind fun _ => ite (fun _ => of_pure _) fun _ => ih

/-- The methods of a class are searched name by name. -/
theorem methodIn (t : Table String Nat) : Blind q (methodIn signature t) := by
  induction t with
  | nil => exact of_pure _
  | cons entry rest ih =>
    refine ite (fun _ => of_pure _) fun _ => (look fun _ _ => rfl).bind fun o => ?_
    refine (withSignature signature _).bind fun m => ?_
    split
    · exact of_pure _
    · exact ih

theorem methodOf (signature : String) : Blind q (methodOf owner signature) := by
  refine (look fun _ _ => rfl).bind fun _ => (methodIn _ _).bind fun m => ?_
  split
  · exact of_pure _
  · exact of_throw _

theorem fieldOf (name : String) : Blind q (fieldOf owner name) := by
  refine (look fun _ _ => rfl).bind fun c => ?_
  split
  · exact of_pure _
  · exact of_throw _

/-- A class is looked up in a table of the setting. -/
theorem classNamed : Blind q (classNamed name) := by
  refine of_get_bind (fun s => ?_) fun s d hd => by simp only [within, hd.classTable]
  split
  · exact of_pure _
  · exact of_throw _

/-- A new object has the values of the fields of its class. -/
theorem freshValues (t : Table String Nat) : Blind q (freshValues t) := by
  induction t with
  | nil => exact of_pure _
  | cons entry rest ih => exact (look fun _ _ => rfl).bind fun _ => ih.bind fun _ => of_pure _

/-- A new object is an object more, so this writes. -/
theorem newObject (c : Nat) : Blind true (newObject c) := by
  refine (look fun _ _ => rfl).bind fun info => ?_
  split
  · exact of_throw_bind
  · exact (freshValues _).bind fun _ =>
      of_make (fun _ _ => rfl) nofun fun _ _ => rfl

/-- A static field is read off the class, any other off the object. -/
theorem getField (o : Nat) (name : String) : Blind q (getField o name) := by
  refine (look fun _ _ => rfl).bind fun info => (fieldOf _ _).bind fun f => (look fun _ _ => rfl).bind fun field => ?_
  refine ite (fun _ => of_pure _) fun _ => ?_
  split
  · exact of_pure _
  · exact of_throw _

/-- A static field is written both in its class and in the object. -/
theorem setField (o : Nat) (name : String) (v : Value) : Blind true (setField o name v) := by
  refine (look fun _ _ => rfl).bind fun info => (fieldOf _ _).bind fun f => (look fun _ _ => rfl).bind fun field => ?_
  have write : Blind true (do
      if Access.meets field.modifiers Access.static then Store.updateField f fun x => { x with value := v }
      Store.updateObject o fun x => { x with values := x.values.set name v }) := by
    split
    · exact (updateField _ _).bind fun _ => updateObject _ _
    · exact updateObject _ _
  dsimp only
  split
  · exact (look fun _ _ => rfl).bind fun _ => (plain _).bind fun _ => of_throw_bind
  · exact write

/-- Classes are compared as values. -/
theorem assignable (c : Nat) (other : Option Nat) : Blind q (assignable c other) := by
  unfold Store.assignable
  split
  · exact of_pure _
  · refine (look fun _ _ => rfl).bind fun d => (holds _).bind fun _ => ite (fun _ => of_pure _) fun _ => ?_
    refine (unequal _ _).bind fun _ => ite (fun _ => of_pure _) fun _ => ?_
    refine (equal _ _).bind fun _ => ite (fun _ => of_pure _) fun _ => ?_
    exact (look fun _ _ => rfl).bind fun _ => (equal _ _).bind fun _ => ite (fun _ => of_pure _) fun _ => of_throw _

/-- The functions that the machine has of its own leave the store as it is but for the numbers they give out. -/
theorem intrinsic (f : Intrinsic) (v : Value) : Blind q (f.run v) := by
  unfold Intrinsic.run
  split
  all_goals first
    | exact of_pure _
    | exact of_throw _
    | exact (plainText _).bind fun _ => of_pure _
    | exact (number _).bind fun _ => of_pure _
    | exact (look fun _ _ => rfl).bind fun _ => of_pure _
    | skip
  refine (items _).bind fun xs => ?_
  split
  · exact of_pure _
  · exact of_throw _

/-! ### Operands -/

theorem halvesOf (sep : String) (d : Datum) : Blind q (halvesOf sep d) := by
  unfold Store.halvesOf
  split
  · exact of_throw _
  · split
    · exact of_pure _
    · exact of_throw _

theorem fieldOperand (d : Datum) : Blind q (fieldOperand d) :=
  (halvesOf _ _).bind fun _ => (halvesOf _ _).bind fun _ => of_pure _

theorem lengthOf : Blind q (lengthOf v) := by
  unfold Store.lengthOf
  split
  · exact of_pure _
  · exact of_pure _
  · exact (items _).bind fun _ => of_pure _
  · exact of_throw _

/-- Whether a class is loaded is read off the table of the setting. -/
theorem checkArgument (v : Value) : Blind q (checkArgument d v) := by
  refine (forIn fun p _ => ?_).bind fun _ => ?_
  · dsimp only
    split
    · exact of_throw_bind
    · exact of_pure _
  · refine of_get_bind (fun _ => ite (fun _ => of_pure _) fun _ => of_throw _) fun s d hd => ?_
    simp only [within, hd.classTable]

theorem basicValue {type : String} {make : Act Value} (h : basicValue type = some make) : Blind q make := by
  unfold Store.basicValue at h
  repeat' split at h
  all_goals first
    | (obtain rfl := Option.some.inj h; first | exact of_pure _ | exact newList _)
    | cases h

/-- Lists, texts, octets, overloads and annotations have elements. -/
theorem elementAt (v index : Value) : Blind q (elementAt v index) := by
  unfold Store.elementAt
  split
  · refine (items _).bind fun xs => ?_
    split
    · exact of_pure _
    · exact of_throw _
  · split
    · exact of_pure _
    · exact of_throw _
  · split
    · exact of_pure _
    · exact of_throw _
  · refine (look fun _ _ => rfl).bind fun o => ?_
    split
    · exact of_pure _
    · exact of_throw _
  · exact (look fun _ _ => rfl).bind fun _ => (plain _).bind fun _ => of_throw _
  · exact of_throw _
  · refine (look fun _ _ => rfl).bind fun a => ?_
    split
    · exact of_pure _
    · exact of_pure _
  · exact of_throw _

theorem outside (index : Value) (past : Relation) (name : Datum) : Blind q (outside index past name) := by
  refine (related _ _ _).bind fun _ => ite (fun _ => of_pure _) fun _ => ?_
  split
  · exact related _ _ _
  · exact of_throw _

theorem outOfBounds_bind {index array : Value} : Blind q (Store.outOfBounds index array >>= k) := by
  unfold Store.outOfBounds
  simp only [bind_assoc]
  exact (plain _).bind fun _ => (lengthOf _).bind fun _ => of_throw_bind

theorem hintsOf (args : Arguments) : Blind q (hintsOf args) := by
  unfold Store.hintsOf
  split
  · exact of_pure _
  · exact of_pure _
  · exact (holds _).bind fun _ => of_pure _

theorem spread (operands : Datum) : Blind q (spread operands) := by
  refine ite (fun _ => of_pure _) fun _ => ?_
  split
  · exact of_pure _
  · exact of_throw _

/-- A note goes in front of those that the setting brings along. -/
theorem note (vm : Nat) (n : TraceNote) : Blind q (note vm n) :=
  (look fun _ _ => rfl).bind fun _ => ite (fun _ => of_modify (fun _ _ => rfl) fun _ _ =>
    ⟨fun _ _ h => h, rfl, rfl, rfl⟩) fun _ => of_pure _

theorem instructionAt (f : Frame) : Blind q (instructionAt f) := by
  refine ite (fun _ => of_throw _) fun _ => ?_
  split
  · exact of_pure _
  · exact of_throw _

end Blind

/-! ### Steps that leave the frames alone -/

/-- The contract of steps that leave the frames, the actions and the checked types alone. -/
def quietContract : Contract Store where
  holds _ := True
  leads s t := t.frames = s.frames ∧ t.actions = s.actions ∧ t.checkedTypes = s.checkedTypes
  admits _ _ := True
  refl _ := ⟨rfl, rfl, rfl⟩
  trans h h' := ⟨h'.1.trans h.1, h'.2.1.trans h.2.1, h'.2.2.trans h.2.2⟩

/-- A step that leaves the frames, the actions and the checked types alone. -/
def Quiet (x : Act α) : Prop := quietContract.Kept x

/-- Looking past the setting, a step leaves the frames and the actions alone. -/
theorem Blind.quiet {q : Bool} (hx : Blind q x) : Quiet x := by
  intro s _
  have h := hx.setting_eq s
  simp only [setting, Setting.mk.injEq] at h
  exact ⟨trivial, ⟨h.1, h.2.1, h.2.2.2.2.1⟩, fun _ _ => trivial⟩

theorem Blind.leads_of {q : Bool} {res : Except Fault α} (hx : Blind q x) (e : outcome x s = (res, t)) :
    quietContract.leads s t :=
  (hx.quiet s trivial).leads_of e

theorem Quiet.of_modify (hf : ∀ s, quietContract.leads s (f s)) : Quiet (modify f) :=
  fun s hs => .of_ok (outcome_modify s f) hs (hf s)

theorem Quiet.look (f : Store → α) : Quiet (do pure (f (← get)) : Act α) :=
  Contract.kept_get.bind fun _ => Contract.kept_pure _

end Store

end Dalvik
