import Dalvik.Proofs.Forms
import Dalvik.Machine.Intrinsic
import Mathlib.Algebra.Order.Ring.Int
import Mathlib.Data.List.Induction
import Mathlib.Tactic.Ring

/-!
# Words of 32 bits

The machine has integers without bounds, rounds quotients down and shifts by the whole count, and its conversions keep the
low bits of a number without giving them a sign. So an instruction gives what is meant for words just if the exact
result is a word, the quotient is exact or not negative, the count is below 32 or makes no difference, and the bits that
are kept make no negative number (`IntInstruction.Exact`); then, and in a run of such instructions, integer registers
stay words (`Store.int_results_meant_iff`). The hash of a text is the one place where sums are cut to words
(`Intrinsic.hashText_wraps`).
-/

namespace Dalvik

open List Int

open LoadNode (firstAction)

variable {x y z : Int} {k : Nat}

/-- An integer wrapped to a signed word of 32 bits. -/
def wrap32 (n : Int) : Int := n.bmod (2 ^ 32)

/-- A signed word of 32 bits. -/
def IsWord (n : Int) : Prop := -2 ^ 31 ≤ n ∧ n < 2 ^ 31

instance (n : Int) : Decidable (IsWord n) := inferInstanceAs (Decidable (_ ∧ _))

/-- A signed word of 64 bits. -/
def IsLong (n : Int) : Prop := -2 ^ 63 ≤ n ∧ n < 2 ^ 63

theorem IsWord.isLong {n : Int} (h : IsWord n) : IsLong n := by
  unfold IsWord at h
  unfold IsLong
  omega

/-- Wrapping takes a number by its low bits, which stand for a negative number from the middle of the range on. -/
theorem wrap32_eq (n : Int) : wrap32 n = if n % 2 ^ 32 < 2 ^ 31 then n % 2 ^ 32 else n % 2 ^ 32 - 2 ^ 32 := by
  rw [wrap32, bmod_def]
  split <;> split <;> omega

/-- Whatever is wrapped is a word. -/
theorem isWord_wrap32 (n : Int) : IsWord (wrap32 n) := by
  rw [wrap32_eq, IsWord]
  split <;> omega

/-- Just the words are left as they are. -/
theorem wrap32_eq_self_iff : z = wrap32 z ↔ IsWord z := by
  rw [wrap32_eq, IsWord]
  split <;> omega

/-- The low bits of a number have the sign that they are meant to have just if the highest of them is not set. -/
theorem emod_eq_bmod_iff {m : Nat} (hm : 0 < m) : x % m = x.bmod m ↔ x % m < (m + 1) / 2 := by
  rw [bmod_def]
  split <;> omega

/-! ### Instructions -/

/-- Instructions on integers. -/
inductive IntInstruction where
  | add | sub | mul | neg | div | rem | shl | shr | ushr | toChar | toShort | toByte | toLong | longToInt

namespace IntInstruction

def name : IntInstruction → String
  | add => "add-int"
  | sub => "sub-int"
  | mul => "mul-int"
  | neg => "neg-int"
  | div => "div-int"
  | rem => "rem-int"
  | shl => "shl-int"
  | shr => "shr-int"
  | ushr => "ushr-int"
  | toChar => "int-to-char"
  | toShort => "int-to-short"
  | toByte => "int-to-byte"
  | toLong => "int-to-long"
  | longToInt => "long-to-int"

/-- Whether the instruction has a second operand. -/
def isBinary : IntInstruction → Bool
  | add | sub | mul | div | rem | shl | shr | ushr => true
  | neg | toChar | toShort | toByte | toLong | longToInt => false

/-- The registers of an instruction: the one that it sets and those that it reads. -/
def registers (d s t : String) (ins : IntInstruction) : List String :=
  if ins.isBinary then [d, s, t] else [d, s]

/-- The operands that an instruction is meant for: words, and for the narrowing of a long word such a one. -/
def Takes (x y : Int) : IntInstruction → Prop
  | longToInt => IsLong x
  | ins => IsWord x ∧ (ins.isBinary = true → IsWord y)

/-- What the instruction is meant to make of its operands. A shift goes by the low five bits of the count, and a narrowing
keeps as many bits as the narrower type has, signed unless the type is that of characters. -/
def meant (x y : Int) : IntInstruction → Except Fault Value
  | add => .ok (.int (wrap32 (x + y)))
  | sub => .ok (.int (wrap32 (x - y)))
  | mul => .ok (.int (wrap32 (x * y)))
  | neg => .ok (.int (wrap32 (-x)))
  | div => if y = 0 then .error .zeroDivisor else .ok (.int (wrap32 (x.tdiv y)))
  | rem => if y = 0 then .error .zeroDivisor else .ok (.int (x.tmod y))
  | shl => .ok (.int (wrap32 (x * 2 ^ (y % 32).toNat)))
  | shr => .ok (.int (x / 2 ^ (y % 32).toNat))
  | ushr => .ok (.int (wrap32 (x % 2 ^ 32 / 2 ^ (y % 32).toNat)))
  | toChar => .ok (.int (x % 2 ^ 16))
  | toShort => .ok (.int (x.bmod (2 ^ 16)))
  | toByte => .ok (.int (x.bmod (2 ^ 8)))
  | toLong => .ok (.int x)
  | longToInt => .ok (.int (wrap32 x))

/-- What is meant is what integers without bounds, quotients that are rounded down, whole counts and low bits without a
sign come to. No number can be made a byte. -/
def Exact (x y : Int) : IntInstruction → Prop
  | add => IsWord (x + y)
  | sub => IsWord (x - y)
  | mul => IsWord (x * y)
  | neg => IsWord (-x)
  | div => y = 0 ∨ (y ∣ x ∨ (x < 0 ↔ y < 0)) ∧ IsWord (x.tdiv y)
  | rem => y = 0 ∨ y ∣ x ∨ (x < 0 ↔ y < 0)
  | shl => 0 ≤ y ∧ IsWord (x * 2 ^ y.toNat)
  | shr => 0 ≤ y ∧ (y < 32 ∨ -2 ^ (y % 32).toNat ≤ x ∧ x < 2 ^ (y % 32).toNat)
  | ushr => 0 ≤ y ∧ if x < 0 then y = 0 ∨ x = -1 ∧ y % 32 = 0 else y < 32 ∨ x < 2 ^ (y % 32).toNat
  | toChar => True
  | toShort => x % 2 ^ 16 < 2 ^ 15
  | toByte => False
  | toLong => 0 ≤ x
  | longToInt => x % 2 ^ 32 < 2 ^ 31

/-- What the instruction does. -/
def operation : IntInstruction → Operation
  | add => .binary .add
  | sub => .binary .sub
  | mul => .binary .mul
  | neg => .negate
  | div => .binary .floorDiv
  | rem => .binary .mod
  | shl => .binary .shl
  | shr | ushr => .binary .shr
  | toChar | toShort => .keepBits (2 ^ 16 - 1)
  | toByte => .toByte
  | toLong => .keepBits (2 ^ 64 - 1)
  | longToInt => .keepBits (2 ^ 32 - 1)

open Store

/-- What the machine makes of the values of the registers. -/
def result (x y : Int) : IntInstruction → Except Fault Value
  | add => .ok (.int (x + y))
  | sub => .ok (.int (x - y))
  | mul => .ok (.int (x * y))
  | neg => .ok (.int (-x))
  | div => intResult .floorDiv x y
  | rem => intResult .mod x y
  | shl => intResult .shl x y
  | shr | ushr => intResult .shr x y
  | toChar | toShort => .ok (.int (x % 2 ^ 16))
  | toByte => .error .operandType
  | toLong => .ok (.int (x % 2 ^ 64))
  | longToInt => .ok (.int (x % 2 ^ 32))

/-- The instructions exist from the start. -/
theorem first_operation (ins : IntInstruction) : firstOperation? ins.name = some ins.operation := by
  cases ins <;> decide +kernel

/-- An instruction reads its operands and sets its register to the result. -/
theorem outcome_perform {w : Store} {i : Nat} {d s t : String} (hw : w.KeepsFirst) (ins : IntInstruction)
    (hx : w.registerIn? i (.text s) = some (.int x))
    (hy : ins.isBinary = true → w.registerIn? i (.text t) = some (.int y)) (run : Runner) :
    outcome (perform run (firstAction ins.name) i (.texts (ins.registers d s t))) w =
      (w.started (firstAction ins.name) i).settled i d (ins.result x y) := by
  have hop := hw _ _ ins.first_operation
  have ha := frame_action_started hop i
  have hconvert {f : Value → Act Value} {r : Except Fault Value}
      (hf : outcome (f (.int x)) (w.started (firstAction ins.name) i) = (r, w.started (firstAction ins.name) i)) :
      outcome (convert (firstAction ins.name) f (.text d) (.text s)) (w.started (firstAction ins.name) i) =
        (w.started (firstAction ins.name) i).settled i d r := by
    rw [convert, bind_ok _ (outcome_registerIn ha hx)]
    exact outcome_settle ha hf
  have hkeep (k : Nat) : outcome (do pure (Value.int (← masked (.int x) (2 ^ k - 1))) : Act Value)
      (w.started (firstAction ins.name) i) =
      (.ok (.int (x % (2 ^ k : Nat))), w.started (firstAction ins.name) i) := by
    rw [bind_ok _ (outcome_masked x k _)]
    rfl
  cases ins with
  | add | sub | mul | div | rem | shl | shr | ushr => exact outcome_binary run hx hop (hy rfl)
  | neg | toByte =>
    rw [Store.outcome_perform hop]
    exact hconvert rfl
  | toChar | toShort =>
    rw [Store.outcome_perform hop]
    exact hconvert (hkeep 16)
  | toLong =>
    rw [Store.outcome_perform hop]
    exact hconvert (hkeep 64)
  | longToInt =>
    rw [Store.outcome_perform hop]
    exact hconvert (hkeep 32)

/-- A shift to the left multiplies by a power of two; a negative count is refused. -/
theorem intResult_shl (hx : IsWord y) : intResult .shl x y =
    if y < 0 then .error .negativeShift else .ok (.int (x * 2 ^ y.toNat)) := by
  have hlongest : ¬(longestShift : Int) < y := by
    have hvalue : longestShift = 2 ^ 40 := rfl
    have := hx.2
    omega
  have hpower : (Number.twoPow y.toNat : Int) = 2 ^ y.toNat := natCast_pow 2 _
  simp only [intResult, onInts, shiftUp, if_neg hlongest, hpower]
  split
  · rfl
  · split
    · simp_all
    · rfl

/-- A shift to the right divides by a power of two and rounds down; a negative count is refused. -/
theorem intResult_shr (x y : Int) : intResult .shr x y =
    if y < 0 then .error .negativeShift else .ok (.int (x / 2 ^ y.toNat)) := by
  simp only [intResult, onInts, shiftDown]
  split
  · rfl
  · split
    · next hlog =>
      have hlt : x.natAbs < 2 ^ y.toNat := Nat.lt_log2_self.trans_le (Nat.pow_le_pow_right (by decide) (by omega))
      have hlt' : (x.natAbs : Int) < 2 ^ y.toNat := by exact_mod_cast hlt
      split
      · rw [ediv_eq_neg_one_of_neg_of_le (by omega) (by omega)]
        rfl
      · rw [ediv_eq_zero_of_lt (by omega) (by omega)]
        rfl
    · rw [shiftRight_eq_div_pow]
      norm_cast

/-- A quotient that is rounded down is the one that is rounded toward zero just if it is exact or not negative. -/
theorem fdiv_eq_wrap32_tdiv_iff (hx : IsWord x) (hy : y ≠ 0) :
    x.fdiv y = wrap32 (x.tdiv y) ↔ (y ∣ x ∨ (x < 0 ↔ y < 0)) ∧ IsWord (x.tdiv y) := by
  have hle := natAbs_tdiv_le_natAbs x y
  obtain ⟨hlow, hhigh⟩ := hx
  rw [fdiv_eq_tdiv, wrap32_eq, IsWord]
  generalize x.tdiv y = q at *
  have hsign : 0 < y → y.sign = 1 := sign_eq_one_of_pos
  have hsign' : y < 0 → y.sign = -1 := sign_eq_neg_one_of_neg
  generalize y.sign = g at *
  grind

/-- The remainders of the two ways to round agree just if the quotients do. -/
theorem fmod_eq_tmod_iff (hy : y ≠ 0) : x.fmod y = x.tmod y ↔ y ∣ x ∨ (x < 0 ↔ y < 0) := by
  rw [fmod_eq_tmod]
  grind

/-- Only zero is still a word when it is shifted by all the bits of a word. -/
theorem eq_zero_of_isWord_mul {p : Int} (hp : 2 ^ 32 ≤ p) (h : IsWord (x * p)) : x = 0 := by
  unfold IsWord at h
  rcases lt_trichotomy x 0 with hx | hx | hx
  · have := mul_le_mul_of_nonneg_right (show x ≤ -1 by omega) (show 0 ≤ p by omega)
    omega
  · exact hx
  · have := mul_le_mul_of_nonneg_right (show 1 ≤ x by omega) (show 0 ≤ p by omega)
    omega

theorem two_pow_le (hle : 32 ≤ y) : (2 ^ 32 : Int) ≤ 2 ^ y.toNat :=
  pow_le_pow_right₀ (by decide) (by omega)

/-- A shift to the right by all the bits of a word leaves its sign. -/
theorem ediv_eq_sign (hle : 32 ≤ y) (hx : IsWord x) : x / 2 ^ y.toNat = if x < 0 then -1 else 0 := by
  have hlarge := two_pow_le hle
  unfold IsWord at hx
  split
  · exact ediv_eq_neg_one_of_neg_of_le (by omega) (by omega)
  · exact ediv_eq_zero_of_lt (by omega) (by omega)

section Shift

variable (hy : 0 ≤ y)

include hy

theorem mod_of_lt (hlt : y < 32) : (y % 32).toNat = y.toNat := by
  rw [emod_eq_of_lt hy hlt]

theorem shl_eq_wrap32_iff : x * 2 ^ y.toNat = wrap32 (x * 2 ^ (y % 32).toNat) ↔ IsWord (x * 2 ^ y.toNat) := by
  by_cases hlt : y < 32
  · rw [mod_of_lt hy hlt, wrap32_eq_self_iff]
  · refine ⟨fun h => h ▸ isWord_wrap32 _, fun h => ?_⟩
    rw [eq_zero_of_isWord_mul (two_pow_le (by omega)) h]
    simp [wrap32]

theorem shr_eq_iff (hx : IsWord x) : x / 2 ^ y.toNat = x / 2 ^ (y % 32).toNat ↔
    y < 32 ∨ -2 ^ (y % 32).toNat ≤ x ∧ x < 2 ^ (y % 32).toNat := by
  by_cases hlt : y < 32
  · simp [mod_of_lt hy hlt, hlt]
  · have hpos : (0 : Int) < 2 ^ (y % 32).toNat := Int.pow_pos (by decide)
    rw [ediv_eq_sign (by omega) hx]
    split
    · rw [eq_comm, Int.ediv_eq_iff_of_pos hpos]
      omega
    · rw [eq_comm, ediv_eq_iff_of_pos hpos]
      omega

/-- A word that is not negative has no sign to shift in, so the two shifts to the right differ by the count alone. -/
theorem ushr_eq_iff_of_nonneg (hx : IsWord x) (hnonneg : 0 ≤ x) :
    x / 2 ^ y.toNat = wrap32 (x % 2 ^ 32 / 2 ^ (y % 32).toNat) ↔ y < 32 ∨ x < 2 ^ (y % 32).toNat := by
  have hpos : (0 : Int) < 2 ^ (y % 32).toNat := Int.pow_pos (by decide)
  have hword : IsWord (x / 2 ^ (y % 32).toNat) := by
    have hlow := Int.ediv_nonneg hnonneg hpos.le
    have hhigh := Int.ediv_le_self (2 ^ (y % 32).toNat) hnonneg
    unfold IsWord at hx ⊢
    omega
  have hsame : x % 2 ^ 32 = x := by
    unfold IsWord at hx
    exact emod_eq_of_lt hnonneg (by omega)
  rw [hsame, ← wrap32_eq_self_iff.mpr hword, shr_eq_iff hy hx]
  omega

/-- A negative word is to lose its sign, which it never does unless the low five bits of the count are zero. -/
theorem ushr_eq_iff_of_neg (hx : IsWord x) (hneg : x < 0) :
    x / 2 ^ y.toNat = wrap32 (x % 2 ^ 32 / 2 ^ (y % 32).toNat) ↔ y = 0 ∨ x = -1 ∧ y % 32 = 0 := by
  by_cases hcount : y % 32 = 0
  · have hself : wrap32 (x % 2 ^ 32) = x := by
      unfold IsWord at hx
      rw [wrap32_eq]
      split <;> omega
    rw [hcount, toNat_zero, pow_zero, ediv_one, hself]
    by_cases hzero : y = 0
    · simp [hzero]
    · rw [ediv_eq_sign (by omega) hx, if_pos hneg]
      omega
  · have hbelow : x / 2 ^ y.toNat < 0 := Int.ediv_neg_of_neg_of_pos hneg (Int.pow_pos (by decide))
    have hhalf : (2 : Int) ≤ 2 ^ (y % 32).toNat := le_self_pow₀ (by decide) (by omega)
    have hlow : 0 ≤ x % 2 ^ 32 / 2 ^ (y % 32).toNat := Int.ediv_nonneg (by omega) (by omega)
    have hhigh : x % 2 ^ 32 / 2 ^ (y % 32).toNat < 2 ^ 31 := Int.ediv_lt_of_lt_mul (by omega) (by omega)
    have hword : IsWord (x % 2 ^ 32 / 2 ^ (y % 32).toNat) := ⟨by omega, hhigh⟩
    rw [← wrap32_eq_self_iff.mpr hword]
    omega

end Shift

/-- What the machine makes of the operands is what is meant just if that is exact: one case for each instruction. -/
theorem result_eq_meant_iff (ins : IntInstruction) (h : ins.Takes x y) :
    ins.result x y = ins.meant x y ↔ ins.Exact x y := by
  cases ins with
  | add | sub | mul | neg => simpa [result, meant, Exact] using wrap32_eq_self_iff
  | div =>
    by_cases hy : y = 0
    · simp [result, meant, Exact, intResult, onInts, hy]
    · simpa [result, meant, Exact, intResult, onInts, hy] using fdiv_eq_wrap32_tdiv_iff h.1 hy
  | rem =>
    by_cases hy : y = 0
    · simp [result, meant, Exact, intResult, onInts, hy]
    · simpa [result, meant, Exact, intResult, onInts, hy] using fmod_eq_tmod_iff hy
  | shl =>
    rw [result, meant, Exact, intResult_shl (h.2 rfl)]
    split
    · simp; omega
    · next hy => simpa [not_lt.mp hy] using shl_eq_wrap32_iff (not_lt.mp hy)
  | shr =>
    rw [result, meant, Exact, intResult_shr]
    split
    · simp; omega
    · next hy => simpa [not_lt.mp hy] using shr_eq_iff (not_lt.mp hy) h.1
  | ushr =>
    rw [result, meant, Exact, intResult_shr]
    split
    · simp; omega
    · next hy =>
      have hiff : x / 2 ^ y.toNat = wrap32 (x % 2 ^ 32 / 2 ^ (y % 32).toNat) ↔
          if x < 0 then y = 0 ∨ x = -1 ∧ y % 32 = 0 else y < 32 ∨ x < 2 ^ (y % 32).toNat := by
        split
        · next hneg => exact ushr_eq_iff_of_neg (not_lt.mp hy) h.1 hneg
        · next hneg => exact ushr_eq_iff_of_nonneg (not_lt.mp hy) h.1 (not_lt.mp hneg)
      simpa [not_lt.mp hy] using hiff
  | toChar => simp [result, meant, Exact]
  | toShort =>
    have hiff := @emod_eq_bmod_iff x (2 ^ 16) (by decide)
    simpa [result, meant, Exact] using hiff
  | toByte => simp [result, meant, Exact]
  | toLong =>
    have hword : IsWord x := h.1
    unfold IsWord at hword
    simp only [result, meant, Exact, Except.ok.injEq, Value.int.injEq]
    omega
  | longToInt =>
    have hiff := @emod_eq_bmod_iff x (2 ^ 32) (by decide)
    simpa [result, meant, Exact, wrap32] using hiff

/-- What is meant is a word, also where a long word is meant. -/
theorem isWord_of_meant (ins : IntInstruction) (h : ins.Takes x y) (hn : ins.meant x y = .ok (.int z)) : IsWord z := by
  cases ins with
  | add | sub | mul | neg | shl | ushr | longToInt =>
    cases hn
    exact isWord_wrap32 _
  | div =>
    rw [meant] at hn
    split at hn
    · cases hn
    · cases hn
      exact isWord_wrap32 _
  | rem =>
    have hle : (x.tmod y).natAbs ≤ x.natAbs := by
      rw [natAbs_tmod]
      exact Nat.mod_le _ _
    have hnonpos : x ≤ 0 → x.tmod y ≤ 0 := fun hx => by
      have := tmod_nonneg y (show 0 ≤ -x by omega)
      rw [neg_tmod] at this
      omega
    rw [meant] at hn
    split at hn
    · cases hn
    · cases hn
      have hx : IsWord x := h.1
      unfold IsWord at hx ⊢
      omega
  | shr =>
    cases hn
    have hpos : (1 : Int) ≤ 2 ^ (y % 32).toNat := Int.pow_pos (by decide)
    have hx : IsWord x := h.1
    unfold IsWord at hx
    exact ⟨Int.le_ediv_of_mul_le hpos (by omega), Int.ediv_lt_of_lt_mul hpos (by omega)⟩
  | toChar =>
    cases hn
    unfold IsWord
    omega
  | toShort | toByte =>
    cases hn
    rw [bmod_def, IsWord]
    split <;> omega
  | toLong =>
    cases hn
    exact h.1

end IntInstruction

namespace Store

variable {w u : Store} {i : Nat} {d s t : String} {v : Value}

theorem settled_inj {r r' : Except Fault Value} (hs : w.registerIn? i (.text s) = some v) :
    w.settled i d r = w.settled i d r' ↔ r = r' := by
  refine ⟨fun h => ?_, fun h => by rw [h]⟩
  match r, r', h with
  | .ok v, .ok v', h =>
    have hset := congrArg (·.2.registerIn? i (.text d)) h
    simp only [settled, registerIn?_setRegisterIn hs] at hset
    simpa using hset
  | .error f, .error f', h => simpa [settled] using h
  | .ok _, .error _, h | .error _, .ok _, h => simp [settled] at h

/-- The integer registers of a frame hold words, those for long words (`longs`) words of 64 bits. -/
def HoldsWords (w : Store) (longs : List String) (i : Nat) : Prop :=
  ∀ r n, w.registerIn? i (.text r) = some (.int n) → if r ∈ longs then IsLong n else IsWord n

/-- Instructions that are carried out one after the other, each with an exact result. Only the narrowing of a long word
reads the registers for long words. -/
inductive Computes (run : Runner) (longs : List String) (i : Nat) : Store → Store → Prop
  | done (w : Store) : Computes run longs i w w
  | step {w w' u : Store} (ins : IntInstruction) (d s t : String) {x y : Int}
    (hx : w.registerIn? i (.text s) = some (.int x))
    (hy : ins.isBinary = true → w.registerIn? i (.text t) = some (.int y))
    (hs : ins = .longToInt ∨ s ∉ longs) (ht : ins.isBinary = true → t ∉ longs) (hexact : ins.Exact x y)
    (h : outcome (perform run (firstAction ins.name) i (.texts (ins.registers d s t))) w = (.ok (), w'))
    (hrest : Computes run longs i w' u) : Computes run longs i w u

section Words

variable {run : Runner} {longs : List String} {x y : Int} {ins : IntInstruction}
  (hx : w.registerIn? i (.text s) = some (.int x))
  (hy : ins.isBinary = true → w.registerIn? i (.text t) = some (.int y))

include hx hy

/-- An instruction finds operands that it is meant for in registers of the right kind. -/
theorem HoldsWords.takes (hw : w.HoldsWords longs i) (hs : ins = .longToInt ∨ s ∉ longs)
    (ht : ins.isBinary = true → t ∉ longs) : ins.Takes x y := by
  have hword (hs : s ∉ longs) : IsWord x := by simpa [hs] using hw s x hx
  have hwords (hs : s ∉ longs) : IsWord x ∧ (ins.isBinary = true → IsWord y) :=
    ⟨hword hs, fun hb => by simpa [ht hb] using hw t y (hy hb)⟩
  rcases hs with rfl | hs
  · by_cases hlong : s ∈ longs
    · have hx := hw s x hx
      rwa [if_pos hlong] at hx
    · exact (hword hlong).isLong
  · cases ins with
    | longToInt => exact (hword hs).isLong
    | _ => exact hwords hs

/-- The outcome of an instruction is what is meant just if that is exact. -/
theorem outcome_perform_eq_meant_iff (hw : w.KeepsFirst) (htakes : ins.Takes x y) :
    outcome (perform run (firstAction ins.name) i (.texts (ins.registers d s t))) w =
      (w.started (firstAction ins.name) i).settled i d (ins.meant x y) ↔ ins.Exact x y := by
  rw [ins.outcome_perform hw hx hy, settled_inj (w := w.started _ i) hx, ins.result_eq_meant_iff htakes]

/-- An instruction with an exact result keeps words in the integer registers. -/
theorem HoldsWords.step (hfirst : w.KeepsFirst) (hw : w.HoldsWords longs i) (htakes : ins.Takes x y)
    (hexact : ins.Exact x y)
    (h : outcome (perform run (firstAction ins.name) i (.texts (ins.registers d s t))) w = (.ok (), u)) :
    u.KeepsFirst ∧ u.HoldsWords longs i := by
  rw [(outcome_perform_eq_meant_iff hx hy hfirst htakes).mpr hexact] at h
  match hm : ins.meant x y with
  | .error f =>
    rw [hm] at h
    cases h
  | .ok v =>
    rw [hm] at h
    cases h
    refine ⟨hfirst.started _ i, fun r n hn => ?_⟩
    rw [registerIn?_setRegisterIn (w := w.started _ i) hx] at hn
    split at hn
    · cases hn
      have hword := ins.isWord_of_meant htakes hm
      split
      · exact hword.isLong
      · exact hword
    · exact hw r n hn

end Words

/-- The machine has no words: sums, differences and products are not wrapped, quotients are rounded down, shifts go by the
whole count and to the right always with the sign, and conversions keep low bits without a sign. An instruction gives the
result that is meant for its operands just if that is the exact one. Over a run of instructions with exact results
integer registers stay words. -/
theorem int_results_meant_iff (hw : w.KeepsFirst) (run : Runner) :
    (∀ (ins : IntInstruction) d s t x y, w.registerIn? i (.text s) = some (.int x) →
      (ins.isBinary = true → w.registerIn? i (.text t) = some (.int y)) → ins.Takes x y →
      (outcome (perform run (firstAction ins.name) i (.texts (ins.registers d s t))) w =
        (w.started (firstAction ins.name) i).settled i d (ins.meant x y) ↔ ins.Exact x y)) ∧
    ∀ longs u, w.HoldsWords longs i → Computes run longs i w u → u.HoldsWords longs i := by
  refine ⟨fun ins d s t x y hx hy htakes => outcome_perform_eq_meant_iff hx hy hw htakes, fun longs u hwords h => ?_⟩
  induction h with
  | done _ => exact hwords
  | step ins d s t hx hy hs ht hexact h _ ih =>
    obtain ⟨hfirst, hafter⟩ := hwords.step hx hy hw (hwords.takes hx hy hs ht) hexact h
    exact ih hfirst hafter

/-- Five and seven are added, and a long word that ends in the bits of five is narrowed. -/
theorem int_results_meant_twelve : outcome (perform runner (firstAction "add-int") 0 (.texts ["v0", "v1", "v2"]))
        (holding [("v0", .int 0), ("v1", .int 5), ("v2", .int 7)] #[]) =
      ((holding [("v0", .int 0), ("v1", .int 5), ("v2", .int 7)] #[]).started (firstAction "add-int") 0).settled 0 "v0"
        (.ok (.int 12)) ∧
    outcome (perform runner (firstAction "long-to-int") 0 (.texts ["v0", "v1"]))
        (holding [("v0", .int 0), ("v1", .int (-4294967291))] #[]) =
      ((holding [("v0", .int 0), ("v1", .int (-4294967291))] #[]).started (firstAction "long-to-int") 0).settled 0 "v0"
        (.ok (.int 5)) :=
  ⟨((int_results_meant_iff (w := holding [("v0", .int 0), ("v1", .int 5), ("v2", .int 7)] #[]) (i := 0)
      (fun _ _ h => h) runner).1 .add "v0" "v1" "v2" 5 7 rfl (fun _ => rfl)
        (show IsWord 5 ∧ (_ → IsWord 7) from ⟨by decide, fun _ => by decide⟩)).mpr (show IsWord (5 + 7) by decide),
    ((int_results_meant_iff (w := holding [("v0", .int 0), ("v1", .int (-4294967291))] #[]) (i := 0)
      (fun _ _ h => h) runner).1 .longToInt "v0" "v1" "v1" (-4294967291) 0 rfl nofun
        (show IsLong (-4294967291) from ⟨by decide, by decide⟩)).mpr (show _ % 2 ^ 32 < 2 ^ 31 by decide)⟩

/-- What an instruction on `v1` and `v2` says and leaves in `v0`. -/
def leaves (ins : IntInstruction) (x y : Int) : Except Fault Unit × Option Value :=
  let (r, u) := outcome (perform runner (firstAction ins.name) 0 (.texts (ins.registers "v0" "v1" "v2")))
    (holding [("v0", .int 0), ("v1", .int x), ("v2", .int y)] #[])
  (r, u.registerIn? 0 (.text "v0"))

/-- One is added to the largest word: the sum is past the words. A shift to the right that is to shift in zeros shifts in
the sign, conversions lose the sign, and no number can be made a byte. -/
theorem int_results_not_meant : ((leaves .add 2147483647 1).2 = some (.int 2147483648) ∧
      IntInstruction.add.meant 2147483647 1 = .ok (.int (-2147483648))) ∧
    ((leaves .ushr (-2) 1).2 = some (.int (-1)) ∧ IntInstruction.ushr.meant (-2) 1 = .ok (.int 2147483647)) ∧
    ((leaves .toShort (-1) 0).2 = some (.int 65535) ∧ IntInstruction.toShort.meant (-1) 0 = .ok (.int (-1))) ∧
    ((leaves .toByte 200 0).1 = .error .operandType ∧ IntInstruction.toByte.meant 200 0 = .ok (.int (-56))) ∧
    ((leaves .toLong (-1) 0).2 = some (.int 18446744073709551615) ∧
      IntInstruction.toLong.meant (-1) 0 = .ok (.int (-1))) ∧
    ((leaves .longToInt (-1) 0).2 = some (.int 4294967295) ∧
      IntInstruction.longToInt.meant (-1) 0 = .ok (.int (-1))) := by
  refine ⟨⟨?_, rfl⟩, ⟨?_, rfl⟩, ⟨?_, rfl⟩, ⟨?_, rfl⟩, ⟨?_, rfl⟩, ⟨?_, rfl⟩⟩
  all_goals rfl

end Store

/-! ### The hash of a text -/

/-- The recurrence may go on from a wrapped hash. -/
theorem wrap32_step (h c : Int) : wrap32 (31 * wrap32 h + c) = wrap32 (31 * h + c) := by
  unfold wrap32
  rw [← bmod_add_bmod, mul_bmod_bmod, bmod_add_bmod]

namespace Intrinsic

/-- To wrap after each step of the recurrence or once at its end comes to the same. -/
theorem foldl_wrap32 (points : List Nat) (h : Nat) : points.foldl (fun h (c : Nat) => wrap32 (31 * h + c)) (wrap32 h) =
      wrap32 (points.foldl (fun h c => 31 * h + c) h : Nat) := by
  induction points generalizing h with
  | nil => rw [foldl_nil, foldl_nil]
  | cons c points ih => rw [foldl_cons, foldl_cons, wrap32_step, ← ih]; push_cast; rfl

/-- One more code point multiplies the sum by 31 and is added to it. -/
theorem powerSum_concat (points : List Nat) (c : Nat) : powerSum (points ++ [c]) = 31 * powerSum points + c := by
  have hshift (ps : List (Nat × Nat)) :
      (ps.map fun p => p.1 * Nat.pow 31 (p.2 + 1)).foldr (· + ·) 0 =
        31 * (ps.map fun p => p.1 * Nat.pow 31 p.2).foldr (· + ·) 0 := by
    induction ps with
    | nil => rfl
    | cons p ps ih =>
      rw [map_cons, map_cons, foldr_cons, foldr_cons, ih, Nat.pow_eq, Nat.pow_eq]
      ring
  rw [powerSum, reverse_append, reverse_singleton, singleton_append, zipIdx_cons, map_cons,
    foldr_cons, Nat.zero_add, zipIdx_succ, map_map, powerSum, ← hshift]
  simp [Function.comp_def, Nat.add_comm]

/-- The powers of 31 are summed by the recurrence `31 * h + c`. -/
theorem foldl_eq_powerSum (points : List Nat) : points.foldl (fun h c => 31 * h + c) 0 = powerSum points := by
  induction points using List.reverseRecOn with
  | nil => rfl
  | append_singleton points c ih => rw [foldl_append, ih, powerSum_concat]; rfl

/-- The low 31 bits less the bit of the sign are the wrapped number. -/
theorem masks_eq_wrap32 (n : Nat) : ((n &&& (2 ^ 31 - 1) : Nat) : Int) - (n &&& 2 ^ 31 : Nat) = wrap32 n := by
  rw [Nat.and_two_pow_sub_one_eq_mod, Nat.and_two_pow, wrap32_eq, Nat.toNat_testBit]
  split <;> omega

/-- The hash is the sum of the powers, wrapped. -/
theorem hashPoints_eq (points : List Nat) : hashPoints points = wrap32 (powerSum points) :=
  masks_eq_wrap32 (powerSum points)

/-- The hash of a text is the recurrence `31 * h + c` over its code points, wrapped at each step. The powers of 31 may as
well be summed without a bound and the sign folded at the end. -/
theorem hashText_wraps (t : Text) (w : Store) :
    ∃ h : Int, outcome (hashText.run (.text t)) w = (.ok (.int h), w) ∧
      h = t.points.foldl (fun h (c : Nat) => wrap32 (31 * h + c)) 0 ∧
      h = (powerSum t.points &&& (2 ^ 31 - 1) : Nat) - (powerSum t.points &&& 2 ^ 31 : Nat) ∧
      -2 ^ 31 ≤ h ∧ h < 2 ^ 31 := by
  refine ⟨hashPoints t.points, rfl, ?_, rfl, ?_⟩
  · rw [hashPoints_eq, ← foldl_eq_powerSum, ← foldl_wrap32]
    rfl
  · rw [hashPoints_eq]
    exact isWord_wrap32 _

end Intrinsic

end Dalvik
