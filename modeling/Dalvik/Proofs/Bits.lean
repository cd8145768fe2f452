import Dalvik.Machine.Arithmetic
import Mathlib.Data.Int.Bitwise
import Mathlib.Data.Nat.Bitwise

/-!
# Integers combined bit by bit

An integer has a bit at every position; from some position on they are all equal to its sign. The machine
combines the bits of two integers up to a position beyond which both show only their signs, and puts the
combined sign on top. So every bit of the result is the combination of the bits of the operands
(`Store.testBit_combineBits`), and the three bitwise operators are those of the integers.
-/

namespace Dalvik

open Nat Int

/-- From a position past its size on, an integer shows only its sign. -/
theorem testBit_eq_sign {n : Int} {i : Nat} (h : n.natAbs < 2 ^ i) : n.testBit i = decide (n < 0) := by
  cases n with
  | ofNat m =>
    have hbit : m.testBit i = false := testBit_lt_two_pow (by simpa using h)
    exact hbit
  | negSucc m =>
    have hsmall : m < 2 ^ i := by
      omega
    have hbit : m.testBit i = false := testBit_lt_two_pow hsmall
    simp [Int.testBit, hbit, Int.negSucc_lt_zero]

/-- Integers that have the same bits are equal. -/
theorem eq_of_testBit_eq {a b : Int} (h : ∀ i, a.testBit i = b.testBit i) : a = b := by
  -- a position beyond which both integers show only their signs
  have hsign : decide (a < 0) = decide (b < 0) := by
    have hlarge := h (a.natAbs + b.natAbs)
    have hbound : ∀ {n : Nat}, n ≤ a.natAbs + b.natAbs → n < 2 ^ (a.natAbs + b.natAbs) := fun hn =>
      lt_of_le_of_lt hn Nat.lt_two_pow_self
    rwa [testBit_eq_sign (hbound (by omega)), testBit_eq_sign (hbound (by omega))] at hlarge
  cases a with
  | ofNat m =>
    cases b with
    | ofNat n => exact congrArg ofNat (Nat.eq_of_testBit_eq h)
    | negSucc n =>
      simp only [ofNat_eq_natCast, decide_eq_decide] at hsign
      omega
  | negSucc m =>
    cases b with
    | ofNat n =>
      simp only [ofNat_eq_natCast, decide_eq_decide] at hsign
      omega
    | negSucc n => exact congrArg Int.negSucc (Nat.eq_of_testBit_eq fun i => by simpa [Int.testBit] using h i)

/-- The remainder by `2 ^ w` has the lowest `w` bits of an integer and no others. -/
theorem testBit_emod_two_pow (n : Int) (w i : Nat) :
    (n % (2 ^ w : Nat)).toNat.testBit i = (decide (i < w) && n.testBit i) := by
  have hpos : 0 < 2 ^ w := Nat.two_pow_pos w
  cases n with
  | ofNat m =>
    have hlow : (ofNat m % (2 ^ w : Nat)).toNat = m % 2 ^ w := by
      rw [ofNat_eq_natCast, ← natCast_emod, toNat_natCast]
    rw [hlow, testBit_mod_two_pow]
    rfl
  | negSucc m =>
    have hlow : (Int.negSucc m % (2 ^ w : Nat)).toNat = 2 ^ w - (m % 2 ^ w + 1) := by
      rw [Int.negSucc_emod m (by exact_mod_cast hpos)]
      omega
    rw [hlow, testBit_two_pow_sub_succ (mod_lt m hpos)]
    by_cases hi : i < w <;> simp [Int.testBit, hi]

/-- To take `2 ^ w` off a number that is smaller sets all bits from `w` on and keeps those below. -/
theorem testBit_sub_two_pow {r w : Nat} (h : r < 2 ^ w) (i : Nat) :
    ((r : Int) - (2 ^ w : Nat)).testBit i = (decide (w ≤ i) || r.testBit i) := by
  have hneg : (r : Int) - (2 ^ w : Nat) = negSucc (2 ^ w - (r + 1)) := by omega
  have hbit := testBit_two_pow_sub_succ h i
  rw [hneg]
  simp only [Int.testBit, hbit]
  by_cases hi : i < w
  · simp [hi, not_le.mpr hi]
  · simp [hi, Nat.le_of_not_lt hi]

namespace Store

/-- Each bit of the result is the combination of the two bits at its position. -/
theorem testBit_combineBits {f : Bool → Bool → Bool} {g : Nat → Nat → Nat} (hf : f false false = false)
    (hg : ∀ x y i, (g x y).testBit i = f (x.testBit i) (y.testBit i)) (a b : Int) (i : Nat) :
    (combineBits f g a b).testBit i = f (a.testBit i) (b.testBit i) := by
  obtain ⟨w, hw⟩ : ∃ w, w = max a.natAbs.log2 b.natAbs.log2 + 2 := ⟨_, rfl⟩
  obtain ⟨r, hr⟩ : ∃ r, r = g (a % (2 ^ w : Nat)).toNat (b % (2 ^ w : Nat)).toNat := ⟨_, rfl⟩
  have hdef : combineBits f g a b
      = if f (decide (a < 0)) (decide (b < 0)) then (r : Int) - (2 ^ w : Nat) else (r : Int) := by
    rw [hr, hw]
    rfl
  have hbits : ∀ j, r.testBit j = f (decide (j < w) && a.testBit j) (decide (j < w) && b.testBit j) := by
    intro j
    rw [hr, hg, testBit_emod_two_pow, testBit_emod_two_pow]
  have hsigns : w ≤ i → a.testBit i = decide (a < 0) ∧ b.testBit i = decide (b < 0) := by
    intro hi
    refine ⟨testBit_eq_sign ?_, testBit_eq_sign ?_⟩
    · exact lt_of_lt_of_le Nat.lt_log2_self (Nat.pow_le_pow_right (by omega) (by omega))
    · exact lt_of_lt_of_le Nat.lt_log2_self (Nat.pow_le_pow_right (by omega) (by omega))
  rw [hdef]
  cases hsign : f (decide (a < 0)) (decide (b < 0)) with
  | true =>
    have hsmall : r < 2 ^ w := lt_pow_two_of_testBit r fun j hj => by
      have hj' : ¬ j < w := not_lt.mpr hj
      rw [hbits j]
      simp [hj', hf]
    rw [if_pos rfl, testBit_sub_two_pow hsmall, hbits i]
    by_cases hi : w ≤ i
    · obtain ⟨ha, hb⟩ := hsigns hi
      simp [hi, ha, hb, hsign]
    · simp [hi, Nat.lt_of_not_le hi]
  | false =>
    have hnat : ((r : Int)).testBit i = r.testBit i := rfl
    rw [if_neg Bool.false_ne_true, hnat, hbits i]
    by_cases hi : w ≤ i
    · obtain ⟨ha, hb⟩ := hsigns hi
      simp [not_lt.mpr hi, ha, hb, hsign, hf]
    · simp [Nat.lt_of_not_le hi]

/-- The machine's `and` is that of the integers. -/
theorem combineBits_and (a b : Int) : combineBits (· && ·) (· &&& ·) a b = Int.land a b := by
  refine eq_of_testBit_eq fun i => ?_
  rw [testBit_combineBits rfl fun x y j => testBit_and x y j, Int.testBit_land]

/-- The machine's `or` is that of the integers. -/
theorem combineBits_or (a b : Int) : combineBits (· || ·) (· ||| ·) a b = Int.lor a b := by
  refine eq_of_testBit_eq fun i => ?_
  rw [testBit_combineBits rfl fun x y j => testBit_or x y j, Int.testBit_lor]

/-- The machine's exclusive `or` is that of the integers. -/
theorem combineBits_xor (a b : Int) : combineBits (· != ·) (· ^^^ ·) a b = Int.xor a b := by
  refine eq_of_testBit_eq fun i => ?_
  have hbits : ∀ x y j : Nat, (x ^^^ y).testBit j = (x.testBit j != y.testBit j) := fun x y j =>
    testBit_xor x y j
  rw [testBit_combineBits rfl hbits, testBit_lxor]

end Store

end Dalvik
