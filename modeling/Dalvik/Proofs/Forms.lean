import Dalvik.Proofs.Bits
import Dalvik.Proofs.Heap
import Dalvik.Proofs.Landing

/-!
# The forms of one operation

An operation on integers is written with three registers, in place with two, or with a literal of 8 or 16 bits. The
forms with registers agree. A literal is cut to the bits of its field, so its sign is lost: the form with a literal does
what the form with registers does on the literal that was cut (`Store.literal_forms_agree_iff`).
-/

namespace Dalvik

open LoadNode (firstAction)

theorem land_mask (n : Int) (k : Nat) : Int.land n (2 ^ k - 1 : Nat) = n % (2 ^ k : Nat) := by
  have hnonneg : 0 ≤ n % (2 ^ k : Nat) := Int.emod_nonneg n (by exact_mod_cast (Nat.two_pow_pos k).ne')
  refine eq_of_testBit_eq fun j => ?_
  have hmask : Int.testBit (2 ^ k - 1 : Nat) j = decide (j < k) := Nat.testBit_two_pow_sub_one k j
  rw [Int.testBit_land, hmask, Bool.and_comm, ← testBit_emod_two_pow, ← Int.toNat_of_nonneg hnonneg]
  rfl

namespace Store

variable {w u : Store} {a i k : Nat} {d s t c : String} {x y n : Int} {op : Operator} {v : Value}

/-! ### Actions that exist from the start -/

/-- What an action that exists from the start does. -/
def firstOperation? (name : String) : Option Operation := (initial.action (firstAction name)).operation?

/-- The first actions are there, and do what they did at the start. -/
def KeepsFirst (w : Store) : Prop :=
  ∀ a op, (initial.action a).operation? = some op → (w.action a).operation? = some op

theorem KeepsFirst.started (hw : w.KeepsFirst) (a i : Nat) : (w.started a i).KeepsFirst :=
  fun b op hop => (operation_started w a i b).trans (hw b op hop)

/-- The operations that have several forms, by the name of the form with three registers. -/
def intForms : List (String × Operator) :=
  [("add-int", .add), ("sub-int", .sub), ("mul-int", .mul), ("div-int", .floorDiv), ("rem-int", .mod), ("and-int", .and),
    ("or-int", .or), ("xor-int", .xor), ("shl-int", .shl), ("shr-int", .shr)]

theorem first_forms : ∀ form ∈ intForms, firstOperation? form.1 = some (.binary form.2) ∧
    firstOperation? (form.1 ++ "/2addr") = some (.inPlace form.2) ∧
    ∀ k ∈ [8, 16], firstOperation? (form.1 ++ s!"/lit{k}") = some (.withLiteral form.2 (2 ^ k - 1)) := by
  decide +kernel

theorem first_literals : firstOperation? "rsub-int/lit8" = some (.literalMinus (2 ^ 8 - 1)) ∧
    firstOperation? "const" = some .loadConst := by
  decide +kernel

/-! ### Results -/

/-- What an operator makes of two integers; the store has no part in it. -/
def intResult (op : Operator) (x y : Int) : Except Fault Value := (outcome (onInts op x y) initial).1

/-- A register is set to a result; with a fault nothing is changed. -/
def settled (u : Store) (i : Nat) (d : String) : Except Fault Value → Except Fault Unit × Store
  | .ok v => (.ok (), u.setRegisterIn i d v)
  | .error f => (.error f, u)

theorem outcome_apply_int (op : Operator) (x y : Int) (u : Store) :
    outcome (apply op (.int x) (.int y)) u = (intResult op x y, u) := by
  have hints : outcome (onInts op x y) u = (intResult op x y, u) := by
    cases op <;> simp only [intResult, onInts, ratio, shiftUp, shiftDown, outcome_ite] <;> repeat' split
    all_goals rfl
  rw [← hints]
  cases op <;> rfl

theorem outcome_settle {r : Except Fault Value} {f : Act Value} (ha : (u.action a).frame = i)
    (hf : outcome f u = (r, u)) : outcome (do setRegister a (.text d) (← f)) u = u.settled i d r := by
  subst ha
  rw [outcome_bind, hf]
  cases r <;> rfl

theorem outcome_literal (hc : Literal.parse c = .ok (.int n)) : outcome (literal (.text c)) u = (.ok (.int n), u) := by
  simp only [literal, Datum.text?, parseValue, hc]
  rfl

theorem outcome_masked (n : Int) (k : Nat) (u : Store) :
    outcome (masked (.int n) (2 ^ k - 1)) u = (.ok (n % (2 ^ k : Nat)), u) := by
  rw [← land_mask, ← combineBits_and]
  rfl

theorem lt_size_of_registerIn? {name : Datum} (h : w.registerIn? i name = some v) : i < w.frames.size := by
  by_contra hlarge
  have hempty : w.frame i = .empty := by rw [frame, Array.getElem?_eq_none (by omega), Option.getD_none]
  cases hname : name.text? <;> simp [registerIn?, hempty, hname, Frame.empty, Table.get?] at h

theorem registerIn?_setRegisterIn (hs : w.registerIn? i (.text s) = some v) (v' : Value) :
    (w.setRegisterIn i d v').registerIn? i (.text t) = if t = d then some v' else w.registerIn? i (.text t) := by
  simp [registerIn?, Datum.text?, registers_setRegisterIn, lt_size_of_registerIn? hs]

section Forms

variable (run : Runner) (hx : w.registerIn? i (.text s) = some (.int x))

include hx

theorem outcome_binary (hop : (w.action a).operation? = some (.binary op))
    (hy : w.registerIn? i (.text t) = some (.int y)) :
    outcome (perform run a i (.texts [d, s, t])) w = (w.started a i).settled i d (intResult op x y) := by
  have ha := frame_action_started hop i
  rw [outcome_perform hop]
  change outcome (register a (.text s) >>= _) _ = _
  rw [bind_ok _ (outcome_registerIn ha hx), bind_ok _ (outcome_registerIn ha hy)]
  exact outcome_settle ha (outcome_apply_int op x y _)

theorem outcome_inPlace (hop : (w.action a).operation? = some (.inPlace op))
    (hy : w.registerIn? i (.text t) = some (.int y)) :
    outcome (perform run a i (.texts [s, t])) w = (w.started a i).settled i s (intResult op x y) := by
  have ha := frame_action_started hop i
  rw [outcome_perform hop]
  change outcome (register a (.text s) >>= _) _ = _
  rw [bind_ok _ (outcome_registerIn ha hx), bind_ok _ (outcome_registerIn ha hy)]
  refine outcome_settle ha ?_
  rw [← outcome_apply_int]
  cases op <;> rfl

theorem outcome_withLiteral (hop : (w.action a).operation? = some (.withLiteral op (2 ^ k - 1)))
    (hc : Literal.parse c = .ok (.int n)) :
    outcome (perform run a i (.texts [d, s, c])) w =
      (w.started a i).settled i d (intResult op x (n % (2 ^ k : Nat))) := by
  have ha := frame_action_started hop i
  rw [outcome_perform hop]
  change outcome (register a (.text s) >>= _) _ = _
  rw [bind_ok _ (outcome_registerIn ha hx), bind_ok _ (outcome_literal hc), bind_ok _ (outcome_masked n k _)]
  exact outcome_settle ha (outcome_apply_int op x _ _)

theorem outcome_literalMinus (hop : (w.action a).operation? = some (.literalMinus (2 ^ k - 1)))
    (hc : Literal.parse c = .ok (.int n)) :
    outcome (perform run a i (.texts [d, s, c])) w =
      (w.started a i).settled i d (intResult .sub (n % (2 ^ k : Nat)) x) := by
  have ha := frame_action_started hop i
  rw [outcome_perform hop]
  change outcome (literal (.text c) >>= _) _ = _
  rw [bind_ok _ (outcome_literal hc), bind_ok _ (outcome_masked n k _), bind_ok _ (outcome_registerIn ha hx)]
  exact outcome_settle ha (outcome_apply_int .sub _ x _)

end Forms

/-! ### What agrees -/

/-- Two outcomes are the same but for the actions that were started. -/
def SameEffect (o o' : Except Fault Unit × Store) : Prop :=
  o.1 = o'.1 ∧ o.2 = { o'.2 with actions := o.2.actions }

/-- An instruction with a literal, and an instruction that finds the literal in a spare register, do the same to the
register of the result. -/
def LiteralAgrees (run : Runner) (w : Store) (i : Nat) (c spare d short : String) (operands : List String)
    (long : String) (operands' : List String) : Prop :=
  let o := outcome (perform run (firstAction short) i (.texts (d :: operands))) w
  let o' := outcome (do
    perform run (firstAction "const") i (.texts [spare, c])
    perform run (firstAction long) i (.texts (d :: operands'))) w
  o.1 = o'.1 ∧ o.2.registerIn? i (.text d) = o'.2.registerIn? i (.text d)

/-- The store in which a literal was loaded into a spare register. -/
def loaded (w : Store) (i : Nat) (spare : String) (n : Int) : Store :=
  (w.started (firstAction "const") i).setRegisterIn i spare (.int n)

theorem registerIn?_loaded (hx : w.registerIn? i (.text s) = some v) (spare t : String) (n : Int) :
    (w.loaded i spare n).registerIn? i (.text t) = if t = spare then some (.int n) else w.registerIn? i (.text t) :=
  registerIn?_setRegisterIn (w := w.started _ i) hx _

theorem literalAgrees_iff (hw : w.KeepsFirst) {run : Runner} {spare : String} (hspare : spare ≠ d)
    (hx : w.registerIn? i (.text s) = some v) (hc : Literal.parse c = .ok (.int n))
    {short long : String} {operands operands' : List String} {r r' : Except Fault Value} {b : Nat}
    (hshort : outcome (perform run (firstAction short) i (.texts (d :: operands))) w = (w.started a i).settled i d r)
    (hlong : outcome (perform run (firstAction long) i (.texts (d :: operands'))) (w.loaded i spare n) =
      ((w.loaded i spare n).started b i).settled i d r') :
    LiteralAgrees run w i c spare d short operands long operands' ↔ r = r' := by
  have hconst : outcome (perform run (firstAction "const") i (.texts [spare, c])) w = (.ok (), w.loaded i spare n) := by
    have hop := hw _ _ first_literals.2
    rw [outcome_perform hop]
    exact outcome_settle (frame_action_started hop i) (outcome_literal hc)
  have hset := registerIn?_setRegisterIn (w := w.started a i) (d := d) (t := d) hx
  have hset' := registerIn?_setRegisterIn (w := (w.loaded i spare n).started b i) (d := d) (t := d)
    ((registerIn?_loaded hx spare spare n).trans (if_pos rfl))
  have hkept : ((w.loaded i spare n).started b i).registerIn? i (.text d) = (w.started a i).registerIn? i (.text d) :=
    (registerIn?_loaded hx spare d n).trans (if_neg hspare.symm)
  rw [LiteralAgrees, hshort, bind_ok _ hconst, hlong]
  cases r <;> cases r' <;> simp [settled, hset, hset', hkept]

/-- In place an operation does what it does with three registers. With a literal it does what it does with a register if
it makes the same of the literal and of its lowest bits, as it does if the literal is not negative. -/
theorem literal_forms_agree_iff (hw : w.KeepsFirst) {form : String × Operator} (hform : form ∈ intForms)
    (hx : w.registerIn? i (.text s) = some (.int x)) (run : Runner) (d : String) :
    (∀ y, w.registerIn? i (.text d) = some (.int y) →
      SameEffect (outcome (perform run (firstAction (form.1 ++ "/2addr")) i (.texts [d, s])) w)
        (outcome (perform run (firstAction form.1) i (.texts [d, d, s])) w)) ∧
    ∀ c n spare, Literal.parse c = .ok (.int n) → spare ≠ d → spare ≠ s →
      (∀ k ∈ [8, 16], -2 ^ k ≤ 2 * n → 2 * n < 2 ^ k →
        (LiteralAgrees run w i c spare d (form.1 ++ s!"/lit{k}") [s, c] form.1 [s, spare] ↔
          0 ≤ n ∨ intResult form.2 x (n + 2 ^ k) = intResult form.2 x n)) ∧
      (-2 ^ 8 ≤ 2 * n → 2 * n < 2 ^ 8 →
        (LiteralAgrees run w i c spare d "rsub-int/lit8" [s, c] "sub-int" [spare, s] ↔ 0 ≤ n)) := by
  obtain ⟨hthree, hplace, hliteral⟩ := first_forms form hform
  refine ⟨fun y hy => ?_, fun c n spare hc hd hs => ?_⟩
  · rw [outcome_inPlace run hy (hw _ _ hplace) hx, outcome_binary run hy (hw _ _ hthree) hx]
    cases intResult form.2 y x <;> exact ⟨rfl, rfl⟩
  have hops : (w.loaded i spare n).KeepsFirst := hw.started _ i
  have hspare := (registerIn?_loaded hx spare spare n).trans (if_pos rfl)
  have hsource := ((registerIn?_loaded hx spare s n).trans (if_neg hs.symm)).trans hx
  refine ⟨fun k hk hlow hhigh => ?_, fun hlow hhigh => ?_⟩
  · have hshort := outcome_withLiteral (d := d) run hx (hw _ _ (hliteral k hk)) hc
    rw [literalAgrees_iff hw hd hx hc hshort (outcome_binary run hsource (hops _ _ hthree) hspare)]
    have hpower : ((2 ^ k : Nat) : Int) = 2 ^ k := Int.natCast_pow 2 k
    by_cases hn : 0 ≤ n
    · simp [hn, Int.emod_eq_of_lt hn (show n < 2 ^ k by omega)]
    · rw [hpower, ← Int.add_emod_right, Int.emod_eq_of_lt (by omega) (by omega)]
      simp [hn]
  · have hsub := first_forms ("sub-int", .sub) (by decide)
    have hshort := outcome_literalMinus (d := d) run hx (hw _ _ first_literals.1) hc
    rw [literalAgrees_iff hw hd hx hc hshort (outcome_binary run hspare (hops _ _ hsub.1) hsource)]
    simp [intResult, onInts]
    omega

/-- Three is added as a literal. -/
theorem literal_forms_agree_three :
    LiteralAgrees runner (holding [("v0", .int 7), ("v1", .int 5)] #[]) 0 "3" "v2" "v0" "add-int/lit8" ["v1", "3"]
      "add-int" ["v1", "v2"] := by
  have h := literal_forms_agree_iff (w := holding [("v0", .int 7), ("v1", .int 5)] #[]) (i := 0) (s := "v1") (x := 5)
    (fun _ _ h => h) (show ("add-int", .add) ∈ intForms by decide) rfl runner "v0"
  exact ((h.2 "3" 3 "v2" (by decide +kernel) (by decide) (by decide)).1 8 (by decide) (by decide) (by decide)).mpr
    (.inl (by decide))

/-- Minus one is added as a literal: 255 is added. -/
theorem literal_minus_one_differs :
    ¬LiteralAgrees runner (holding [("v0", .int 7)] #[]) 0 "-1" "v1" "v0" "add-int/lit8" ["v0", "-1"]
      "add-int" ["v0", "v1"] := by
  rintro ⟨-, h⟩
  revert h
  decide +kernel

end Store

end Dalvik
