import Dalvik.Proofs.Calls
import Dalvik.Proofs.Numerals
import Dalvik.Proofs.Reach
import Mathlib.Data.List.Induction

/-!
# Arguments of calls

A call makes the frame of its method ready, binds its arguments to the parameter registers, and runs the
body. The number of arguments has to be the number of types in the one list that all methods are checked
against, whatever parameters the method has. Then the arguments are bound in order; else the call ends before
the first instruction (`Store.call_arguments`). The list is empty in every store that can be reached, so a
call with arguments never enters a body, and a call without arguments always does.
-/

namespace Dalvik

open List Access

variable {α : Type} {b start : Nat} {values : List Value} {t : Table String Value} {name : String} {w : Store}

theorem parameter_ne {a : Nat} (h : a ≠ b) : s!"p{a}" ≠ s!"p{b}" := by
  intro heq
  have hlist := congrArg String.toList heq
  simp only [String.toList_append, append_cancel_left_eq] at hlist
  exact h (Number.toString_injective (String.toList_inj.mp hlist))

theorem Table.set_of_get?_none {κ : Type} [BEq κ] {t : Table κ α} {k : κ} (v : α) (h : t.get? k = none) :
    t.set k v = t ++ [(k, v)] := by
  induction t with
  | nil => rfl
  | cons entry rest ih =>
    obtain ⟨k', v'⟩ := entry
    rw [get?, lookup_cons] at h
    cases hk : k == k' with
    | true => simp [hk] at h
    | false =>
      rw [hk] at h
      simp [set, hk, ih h]

namespace Store

/-! ### Registers of arguments -/

/-- Registers with arguments put into the parameter registers from a number on. -/
def bound (start : Nat) (values : List Value) (t : Table String Value) : Table String Value :=
  values.zipIdx.foldl (fun t p => t.set s!"p{start + p.2}" p.1) t

theorem bound_append (start : Nat) (values : List Value) (v : Value) (t : Table String Value) :
    bound start (values ++ [v]) t = (bound start values t).set s!"p{start + values.length}" v := by
  simp [bound, zipIdx_append]

theorem get?_bound_of_ne (h : ∀ i < values.length, name ≠ s!"p{start + i}") :
    (bound start values t).get? name = t.get? name := by
  induction values using reverseRecOn with
  | nil => rfl
  | append_singleton values v ih =>
    rw [bound_append, Table.get?_set_ne (h _ (by simp))]
    exact ih fun i hi => h i (by simp; omega)

theorem get?_bound {i : Nat} (h : i < values.length) : (bound start values t).get? s!"p{start + i}" = values[i]? := by
  induction values using reverseRecOn with
  | nil => simp at h
  | append_singleton values v ih =>
    rw [bound_append]
    by_cases hi : i = values.length
    · rw [hi, Table.get?_set_self]
      simp
    · have hlt : i < values.length := by
        simp only [length_append, length_singleton] at h
        omega
      rw [Table.get?_set_ne (parameter_ne (by omega)), ih hlt, getElem?_append_left hlt]

/-- The registers of plain arguments are as many as the arguments, and putting them into a table binds the
arguments. -/
theorem argumentRegisters_eq (start : Nat) (inst : Value) (values : List Value) :
    (argumentRegisters start ⟨inst, values, []⟩).length = values.length ∧
      (argumentRegisters start ⟨inst, values, []⟩).map Prod.snd = values ∧
      ∀ t : Table String Value, (argumentRegisters start ⟨inst, values, []⟩).foldl
        (fun t p => t.set p.1 p.2) t = bound start values t := by
  have hregisters : argumentRegisters start ⟨inst, values, []⟩ = bound start values [] := rfl
  rw [hregisters]
  induction values using reverseRecOn with
  | nil => exact ⟨rfl, rfl, fun _ => rfl⟩
  | append_singleton values v ih =>
    obtain ⟨hlength, hvalues, hput⟩ := ih rfl
    have hnew : (bound start values []).get? s!"p{start + values.length}" = none := by
      rw [get?_bound_of_ne fun i hi => parameter_ne (by omega)]
      rfl
    rw [bound_append, Table.set_of_get?_none v hnew]
    refine ⟨by simp [hlength], by simp [hvalues], fun t => ?_⟩
    rw [foldl_append, hput, bound_append]
    rfl

/-! ### Checking -/

/-- The type map accepts a value for a type, which has to be that of a registered class too. -/
def Accepts (w : Store) (d : Descriptor) (v : Value) : Prop :=
  (∀ p ∈ basicTypes, p.2.contains d.text = true → p.1 v = true) ∧ w.classTable.has d.text = true

theorem outcome_forIn_ok {xs : List α} {f : α → PUnit → Act (ForInStep PUnit)}
    (h : ∀ x ∈ xs, outcome (f x ⟨⟩) w = (.ok (.yield ⟨⟩), w)) :
    outcome (forIn xs ⟨⟩ f) w = (.ok ⟨⟩, w) := by
  induction xs with
  | nil => rfl
  | cons x xs ih =>
    rw [forIn_cons, bind_ok w (h x mem_cons_self)]
    exact ih fun y hy => h y (mem_cons_of_mem x hy)

theorem outcome_checkArgument {d : Descriptor} {v : Value} (h : w.Accepts d v) :
    outcome (checkArgument d v) w = (.ok (), w) := by
  obtain ⟨hbasic, hclass⟩ := h
  have hloop : ∀ p ∈ basicTypes, ¬ (p.2.contains d.text && !p.1 v) = true := by
    intro p hp hrefused
    simp only [Bool.and_eq_true, Bool.not_eq_true'] at hrefused
    rw [hbasic p hp hrefused.1] at hrefused
    cases hrefused.2
  unfold checkArgument
  rw [bind_ok w (outcome_forIn_ok fun p hp => ?_), bind_ok w (outcome_get w), if_pos hclass]
  · rfl
  · dsimp only
    rw [if_neg (hloop _ hp)]
    rfl

theorem outcome_bindArguments_of_ne (h : values.length ≠ w.checkedTypes.length) (isStatic : Bool) (j : Nat)
    (inst : Value) :
    outcome (bindArguments isStatic j ⟨inst, values, []⟩) w
      = (.error (.argumentCount w.checkedTypes.length values.length), w) := by
  obtain ⟨hlength, -, -⟩ := argumentRegisters_eq (if isStatic then 0 else 1) inst values
  rw [bindArguments, bind_ok w (outcome_get w)]
  dsimp only
  rw [hlength, if_pos (by simpa using Ne.symm h)]
  rfl

theorem outcome_bindArguments {w : Store} {values : List Value}
    (h : values.length = w.checkedTypes.length) (haccept : ∀ p ∈ w.checkedTypes.zip values, w.Accepts p.1 p.2)
    (isStatic : Bool) (j : Nat) (inst : Value) :
    outcome (bindArguments isStatic j ⟨inst, values, []⟩) w = (.ok (), { w with
      frames := w.frames.modify j fun f =>
        { f with registers := bound (if isStatic then 0 else 1) values f.registers } }) := by
  obtain ⟨hlength, hvalues, hput⟩ := argumentRegisters_eq (if isStatic then 0 else 1) inst values
  rw [bindArguments, bind_ok w (outcome_get w)]
  dsimp only
  rw [hlength, if_neg (by simp [h]), bind_ok w (outcome_forIn_ok fun p hp => ?_), outcome_updateFrame]
  · simp only [← hput]
  · have hmem : (p.1, p.2.2) ∈ w.checkedTypes.zip values := by
      rw [← hvalues, zip_map_right]
      exact mem_map.mpr ⟨p, hp, rfl⟩
    rw [bind_ok w (outcome_checkArgument (haccept _ hmem))]
    rfl

/-! ### Entering the body -/

/-- Whether a method is static. -/
def isStatic (w : Store) (m : Nat) : Bool :=
  meets (w.method m).modifiers static

/-- A method with code that a machine can run in a frame, with a number of local registers. -/
structure Callable (w : Store) (m j vm : Nat) (n : Int) : Prop where
  machine : (w.method m).vm? = some vm
  concrete : meets (w.method m).modifiers abstract = false
  locals : (w.method m).locals? = some n
  frame : w.frameTable.get? (w.method m).type.text = some j
  inBounds : j < w.frames.size

/-- The registers that a body starts with: the local ones without values, the object of a method that is not
static, and the arguments. -/
def firstRegisters (isStatic : Bool) (n : Int) (inst : Value) (values : List Value) : Table String Value :=
  let locals : Table String Value := (range n.toNat).map fun i => (s!"v{i}", .null)
  bound (if isStatic then 0 else 1) values (if isStatic then locals else locals.set "p0" inst)

theorem get?_firstRegisters_object {isStatic : Bool} (h : isStatic = false) (n : Int) (inst : Value)
    (values : List Value) : (firstRegisters isStatic n inst values).get? "p0" = some inst := by
  subst h
  have hne : ∀ i < values.length, "p0" ≠ s!"p{1 + i}" := fun i _ =>
    parameter_ne (a := 0) (b := 1 + i) (by omega)
  simp only [firstRegisters, Bool.false_eq_true, if_false]
  rw [get?_bound_of_ne hne, Table.get?_set_self]

/-- The store in which the body of a method is entered. -/
def ready (w : Store) (m j : Nat) (n : Int) (inst : Value) (values : List Value) : Store :=
  { w with frames := w.frames.modify j fun f =>
      { f.reset with registers := firstRegisters (w.isStatic m) n inst values } }

theorem frame_ready {j : Nat} (hj : j < w.frames.size) (m : Nat) (n : Int) (inst : Value) (values : List Value) :
    (w.ready m j n inst values).frame j
      = { (w.frame j).reset with registers := firstRegisters (w.isStatic m) n inst values } := by
  simp [ready, frame, hj, Array.getElem_modify]

/-- Running a body, and what follows it. -/
def conclude (run : Runner) (vm m j : Nat) : Act Value := do
  run vm m j
  let f ← frameInfo j
  if ← holds f.error then raiseValue f.error
  updateFrame j Frame.reset
  pure f.returned

theorem modify_modify (xs : Array α) (i : Nat) (f g : α → α) :
    (xs.modify i f).modify i g = xs.modify i fun x => g (f x) := by
  refine Array.ext (by simp) fun k hk hk' => ?_
  by_cases hik : i = k <;> simp [Array.getElem_modify, hik]

section

variable {w : Store} {m j vm : Nat} {n : Int} {inst : Value} (h : w.Callable m j vm n)
  (hinst : w.isStatic m = true ∨ ∃ o, inst = .object o) (run : Runner) (values : List Value)

include h hinst

theorem outcome_callOn :
    outcome (callOn run vm (.method m) ⟨inst, values, []⟩) w =
      outcome (do bindArguments (w.isStatic m) j ⟨inst, values, []⟩; conclude run vm m j) (w.ready m j n inst []) := by
  have hinfo : ∀ fs, outcome (methodInfo m) { w with frames := fs }
      = (.ok (w.method m), { w with frames := fs }) := fun _ => rfl
  have hupdate : ∀ fs g, outcome (updateFrame j g) { w with frames := fs }
      = (.ok (), { w with frames := fs.modify j g }) := fun _ _ => rfl
  unfold callOn
  rw [bind_ok w (outcome_get w), bind_ok w (outcome_methodInfo w m), h.frame, Option.map_some, pure_bind]
  rw [bind_ok w (outcome_updateFrame w j _), bind_ok _ (hinfo _), h.locals]
  rw [bind_ok _ (hinfo _), bind_ok _ (hupdate _ _), modify_modify]
  rw [isStatic] at hinst ⊢
  cases hs : meets (w.method m).modifiers static with
  | true =>
    have hready : w.ready m j n inst [] = { w with frames := w.frames.modify j fun f => { f.reset with
        registers := (range n.toNat).map fun i => (s!"v{i}", Value.null) } } := by
      rw [ready, isStatic, hs]
      rfl
    rw [hready]
    rfl
  | false =>
    obtain ⟨o, rfl⟩ := hinst.resolve_left (by simp [hs])
    have hready : w.ready m j n (.object o) [] = { w with frames := w.frames.modify j fun f => { f.reset with
        registers := Table.set ((range n.toNat).map fun i => (s!"v{i}", Value.null)) "p0" (.object o) } } := by
      rw [ready, isStatic, hs]
      rfl
    have hobject : ∀ fs, outcome (holds (.object o)) { w with frames := fs }
        = (.ok true, { w with frames := fs }) := fun _ => rfl
    rw [hready, if_neg Bool.false_ne_true, bind_ok _ (hobject _), if_pos rfl, bind_ok _ (hupdate _ _), modify_modify]
    rfl

theorem outcome_callMethod :
    outcome (callMethod run m ⟨inst, values, []⟩) w =
      outcome (do bindArguments (w.isStatic m) j ⟨inst, values, []⟩; conclude run vm m j) (w.ready m j n inst []) := by
  rw [callMethod, bind_ok w (outcome_methodInfo w m)]
  rw [h.machine, h.concrete]
  exact outcome_callOn h hinst run values

/-! ### Methods of one name -/

end

/-- Among several methods that are all checked against the same types, the number of arguments tells none
apart. -/
theorem choose_several {ms : List Nat} (h : ms.length ≠ 1) (k arguments : Nat) :
    Overload.choose name (ms.map fun _ => ⟨k, none⟩) arguments ⟨0, none⟩
      = .error (.overloadMismatch name) := by
  have hfit : ∀ n, ((((ms.map fun _ => (⟨k, none⟩ : Overload.Candidate)).zipIdx.map
      fun p => (p.2, p.1)).filter fun p => p.2.parameters == n).length ≠ 1) := by
    intro n
    by_cases hn : k = n
    · rw [filter_eq_self.mpr]
      · simpa using h
      · simp only [mem_map, Prod.exists, Prod.mk.injEq, Prod.forall]
        rintro i c ⟨c', i', hmem, rfl, rfl⟩
        obtain ⟨-, -, hc⟩ := mem_zipIdx hmem
        simp [hc, hn]
    · rw [filter_eq_nil_iff.mpr]
      · simp
      · simp only [mem_map, Prod.exists, Prod.mk.injEq, Prod.forall]
        rintro i c ⟨c', i', hmem, rfl, rfl⟩
        obtain ⟨-, -, hc⟩ := mem_zipIdx hmem
        simp [hc, hn]
  unfold Overload.choose
  dsimp only
  split
  · rename_i heq
    have hlen := congrArg length heq
    simp at hlen
    exact absurd hlen h
  · rw [if_pos rfl]
    split
    · rename_i heq
      have hlen := congrArg length heq
      exact absurd hlen (hfit arguments)
    · rfl
    · contradiction

theorem outcome_callValue_overloads {m : Nat} {o : Overloads} (ho : (w.overloads[b]?).getD default = o)
    (hm : m ∈ o.methods) (run : Runner) (inst : Value) (values : List Value) :
    outcome (callValue run (.overloads b) ⟨inst, values, []⟩) w =
      if o.methods.length = 1 then outcome (callMethod run m ⟨inst, values, []⟩) w
      else (.error (.overloadMismatch o.name), w) := by
  have hinfo : outcome (overloadInfo b) w = (.ok o, w) := by rw [← ho]; rfl
  have hhints : outcome (hintsOf ⟨inst, values, []⟩) w = (.ok ⟨0, none⟩, w) := rfl
  rw [callValue, bind_ok w hinfo, bind_ok w (outcome_get w)]
  rw [bind_ok w hhints]
  split
  · rename_i hone
    obtain ⟨m', hms⟩ := length_eq_one_iff.mp hone
    rw [hms] at hm ⊢
    obtain rfl := mem_singleton.mp hm
    rfl
  · rename_i hone
    rw [choose_several hone]
    rfl

/-- The arguments of a call. A method that can be run is called with plain arguments, on an object unless it
is static; `run` is how bodies are run.

If the arguments are not as many as the types that all methods are checked against, the call ends in a fault
and the body is not run. If they are as many, and each is accepted for its type, the body is run with the
arguments in the parameter registers in order, behind the object if there is one. In every store that can be
reached the list of types is empty: the body is run exactly if there are no arguments, whatever parameters the
method has. The methods of a name are called like the only one of them; if there are several, every call with
plain arguments is refused. -/
theorem call_arguments {w : Store} {m j vm : Nat} {n : Int} (h : w.Callable m j vm n) {inst : Value}
    (hinst : w.isStatic m = true ∨ ∃ o, inst = .object o) (run : Runner) (values : List Value) :
    (values.length ≠ w.checkedTypes.length → outcome (callMethod run m ⟨inst, values, []⟩) w
      = (.error (.argumentCount w.checkedTypes.length values.length), w.ready m j n inst [])) ∧
    (values.length = w.checkedTypes.length → (∀ p ∈ w.checkedTypes.zip values, w.Accepts p.1 p.2) →
      outcome (callMethod run m ⟨inst, values, []⟩) w
        = outcome (conclude run vm m j) (w.ready m j n inst values) ∧
      (∀ i < values.length, ((w.ready m j n inst values).frame j).registers.get?
        s!"p{(if w.isStatic m then 0 else 1) + i}" = values[i]?) ∧
      (w.isStatic m = false →
        ((w.ready m j n inst values).frame j).registers.get? "p0" = some inst)) ∧
    (w.Reached → outcome (callMethod run m ⟨inst, values, []⟩) w
      = if values = [] then outcome (conclude run vm m j) (w.ready m j n inst [])
        else (.error (.argumentCount 0 values.length), w.ready m j n inst [])) ∧
    (∀ b o, (w.overloads[b]?).getD default = o → m ∈ o.methods →
      outcome (callValue run (.overloads b) ⟨inst, values, []⟩) w =
        if o.methods.length = 1 then outcome (callMethod run m ⟨inst, values, []⟩) w
        else (.error (.overloadMismatch o.name), w)) := by
  have hcall := outcome_callMethod h hinst run values
  have hrefused : values.length ≠ w.checkedTypes.length → outcome (callMethod run m ⟨inst, values, []⟩) w
      = (.error (.argumentCount w.checkedTypes.length values.length), w.ready m j n inst []) := by
    intro hne
    rw [hcall, bind_error _ (outcome_bindArguments_of_ne (w := w.ready m j n inst []) hne
      (w.isStatic m) j inst)]
    rfl
  have hentered : values.length = w.checkedTypes.length →
      (∀ p ∈ w.checkedTypes.zip values, w.Accepts p.1 p.2) →
      outcome (callMethod run m ⟨inst, values, []⟩) w
        = outcome (conclude run vm m j) (w.ready m j n inst values) := by
    intro hlen haccept
    rw [hcall, bind_ok _ (outcome_bindArguments (w := w.ready m j n inst []) hlen haccept
      (w.isStatic m) j inst)]
    simp only [ready, modify_modify]
    rfl
  refine ⟨hrefused, fun hlen haccept => ⟨hentered hlen haccept, fun i hi => ?_, fun hs => ?_⟩,
    fun hreached => ?_, ?_⟩
  · rw [frame_ready h.inBounds]
    exact get?_bound hi
  · rw [frame_ready h.inBounds]
    exact get?_firstRegisters_object hs n inst values
  · have htypes := hreached.checkedTypes
    split
    · rename_i hnil
      subst hnil
      exact hentered (by simp [htypes]) (by simp [htypes])
    · rename_i hne
      rw [hrefused (by simpa [htypes] using hne), htypes]
      rfl
  · intro b o ho hm
    exact outcome_callValue_overloads ho hm run inst values

/-- A static method that adds two numbers. -/
def adderSource : String :=
  ".class public LT;\n.method public static add(II)I\n.locals 1\nadd-int v0, p0, p1\nreturn v0\n" ++
  ".end method\n"

/-- The store with a machine and the class with that method. -/
@[irreducible] def adderStore : Store :=
  (outcome (load 0 (.text adderSource) true) ⟨⟨[]⟩, .start, [], (outcome (newVm [] false false) .initial).2⟩).2.world

/-- Two numbers are refused by a loaded method with two parameters. -/
theorem call_arguments_adder : adderStore.Reached ∧ adderStore.Callable 0 0 0 1 ∧ adderStore.isStatic 0 = true ∧
      (adderStore.method 0).parameters.length = 2 ∧
      outcome (callMethod runner 0 ⟨.null, [.int 1, .int 2], []⟩) adderStore
        = (.error (.argumentCount 0 2), adderStore.ready 0 0 1 .null []) := by
  obtain ⟨hmachine, hconcrete, hlocals, hframe, hsize, hstatic, hparameters⟩ : (adderStore.method 0).vm? = some 0 ∧
      meets (adderStore.method 0).modifiers abstract = false ∧
      (adderStore.method 0).locals? = some 1 ∧
      adderStore.frameTable.get? (adderStore.method 0).type.text = some 0 ∧ 0 < adderStore.frames.size ∧
      adderStore.isStatic 0 = true ∧ (adderStore.method 0).parameters.length = 2 := by
    decide +kernel
  have hreached : adderStore.Reached := by
    unfold adderStore
    exact .load _ _ _ (.machine _ _ _ .initial)
  have hcallable : adderStore.Callable 0 0 0 1 := ⟨hmachine, hconcrete, hlocals, hframe, hsize⟩
  have hcall := (@call_arguments adderStore 0 0 0 1 hcallable .null (.inl hstatic) runner
    [.int 1, .int 2]).2.2.1 hreached
  rw [if_neg (cons_ne_nil _ _)] at hcall
  exact ⟨hreached, hcallable, hstatic, hparameters, hcall⟩

/-- A static method is called with plain arguments in a class that is loaded from a text. -/
def callWith (text signature : String) (values : List Value) : Read LoadNode Store Value := do
  let vm ← reading (newVm [] false false)
  let c ← load vm (.text text) true
  reading do callValue runner (← methodOf c signature) ⟨.null, values, []⟩

/-- Calling a method that adds two numbers with two numbers ends in a fault about their number. -/
theorem adder_refuses_two_numbers :
    (outcome (callWith adderSource "add(II)I" [.int 1, .int 2]) ⟨⟨[]⟩, .start, [], .initial⟩).1
      = .error (.argumentCount 0 2) := by
  decide +kernel

end Store

end Dalvik
