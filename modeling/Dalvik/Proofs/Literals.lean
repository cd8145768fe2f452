import Dalvik.Proofs.Numerals

/-!
# Integer literals

An integer is written with a sign or none, in decimal or in hexadecimal behind `0x`, with any number of zeros
in front and letters in either case, and with a mark for its size or none (`WrittenInteger`). It is read as
the number that its digits stand for, unless it has too many decimal digits: then it is no literal
(`WrittenInteger.parse_text`).
-/

namespace Dalvik

open Dalvik.Text Dalvik.Number List Literal

/-- A digit as it is written; one beyond nine is a letter, which may be a capital. -/
structure Digit where
  value : Nat
  capital : Bool
  lt : value < 16

/-- The character of a digit. -/
def Digit.char (d : Digit) : Char :=
  if d.capital then d.value.digitChar.toUpper else d.value.digitChar

theorem Digit.char_spec (d : Digit) :
    hexValue? d.char = some d.value ∧ (d.value < 10 → decimalValue? d.char = some d.value) ∧
      isBlank d.char = false ∧ d.char ∉ ['_', '-', '+', 'x', 'X', 's', 'l', 't', '#', '"', ','] := by
  have all : ∀ capital : Bool, ∀ v < 16,
      let c := if capital then v.digitChar.toUpper else v.digitChar
      hexValue? c = some v ∧ (v < 10 → decimalValue? c = some v) ∧ isBlank c = false ∧
        c ∉ ['_', '-', '+', 'x', 'X', 's', 'l', 't', '#', '"', ','] := by decide +kernel
  exact all d.capital d.value d.lt

theorem Digit.char_not_sign (d : Digit) : d.char ∉ ['-', '+'] :=
  fun hmem => d.char_spec.2.2.2 (by simp at hmem ⊢; tauto)

/-- The signs in front of an integer. -/
inductive Sign where
  | none | plus | minus
  deriving DecidableEq

/-- A sign as it is written. -/
def Sign.chars : Sign → List Char
  | none => []
  | plus => ['+']
  | minus => ['-']

theorem Sign.takeSign_append (sign : Sign) {c : Char} (hc : c ∉ ['-', '+']) (cs : List Char) :
    takeSign (sign.chars ++ c :: cs) = (decide (sign = .minus), c :: cs) := by
  cases sign with
  | none =>
    unfold takeSign
    split
    · exact absurd (cons.inj ‹c :: cs = _›).1 fun heq => hc (by simp [heq])
    · exact absurd (cons.inj ‹c :: cs = _›).1 fun heq => hc (by simp [heq])
    · rfl
  | plus => rfl
  | minus => rfl

/-- Digits that are not marked as hexadecimal are passed as far as they could be hexadecimal. -/
theorem Literal.afterInteger?_of_unmarked (sign : Sign) {c : Char} {cs : List Char} (hc : c ∉ ['-', '+'])
    (hhex : isHexadecimal c = true) (hx : cs.head? ≠ some 'x') :
    afterInteger? (sign.chars ++ c :: cs) = some ((c :: cs).dropWhile isHexadecimal) := by
  have hunmarked {e : Char} {r : List Char} (heq : c :: cs = '0' :: 'x' :: e :: r) : False := by
    rw [(cons.inj heq).2] at hx
    exact hx rfl
  rw [afterInteger?, sign.takeSign_append hc]
  dsimp only
  split
  · rename_i heq
    split at heq
    · exact (hunmarked ‹_›).elim
    · cases heq
  · rename_i e r heq
    split at heq
    · exact (hunmarked ‹_›).elim
    · rw [← (cons.inj heq).1, if_pos hhex]

/-- The marks behind an integer: of none, of the short, the long and the byte type. -/
inductive SizeMark where
  | none | short | long | byte
  deriving DecidableEq

/-- A mark as it is written. -/
def SizeMark.chars : SizeMark → List Char
  | none => []
  | short => ['s']
  | long => ['l']
  | byte => ['t']

/-- An integer as it is written. -/
structure WrittenInteger where
  sign : Sign
  hexadecimal : Bool
  digits : List Digit
  mark : SizeMark
  ne_nil : digits ≠ []
  fits : hexadecimal = false → ∀ d ∈ digits, d.value < 10

namespace WrittenInteger

variable (n : WrittenInteger) {c : Char} (tail : List Char)

/-- The characters of the digits. -/
def digitChars : List Char :=
  n.digits.map Digit.char

/-- The characters between the sign and the mark. -/
def body : List Char :=
  (if n.hexadecimal then ['0', 'x'] else []) ++ n.digitChars

/-- The integer as a text. -/
def text : String :=
  String.ofList (n.sign.chars ++ n.body ++ n.mark.chars)

/-- The base of the digits. -/
def base : Nat :=
  if n.hexadecimal then 16 else 10

/-- The number that is meant. -/
def value : Int :=
  let magnitude := Nat.ofDigits n.base (n.digits.map Digit.value).reverse
  if n.sign = .minus then -(magnitude : Int) else magnitude

/-- Whether the digits are not too many: only a decimal numeral has a greatest length. -/
def IsReadable : Prop :=
  n.hexadecimal = true ∨ n.digits.length ≤ longestDecimal

instance : Decidable n.IsReadable := inferInstanceAs (Decidable (_ ∨ _))

theorem ofDigits_eq (base : Nat) (ds : List Nat) : Number.ofDigits base ds = Nat.ofDigits base ds.reverse := by
  rw [Nat.ofDigits_eq_foldr, foldr_reverse, Number.ofDigits]
  simp only [Nat.cast_id, Nat.add_comm]

theorem digitRun_map {value? : Char → Option Nat} {ds : List Digit}
    (h : ∀ d ∈ ds, value? d.char = some d.value) {afterDigit : Bool} (hne : afterDigit = true ∨ ds ≠ []) :
    digitRun value? afterDigit (ds.map Digit.char) = some (ds.map Digit.value) := by
  induction ds generalizing afterDigit with
  | nil =>
    obtain rfl : afterDigit = true := by simpa using hne
    rfl
  | cons d ds ih =>
    have hnot : d.char ≠ '_' := fun heq => d.char_spec.2.2.2 (by simp [heq])
    rw [map_cons, digitRun, if_neg (by simpa using hnot), h d mem_cons_self]
    simp [ih (fun x hx => h x (mem_cons_of_mem _ hx)) (.inl rfl)]

theorem exists_cons : ∃ d ds, n.digits = d :: ds ∧ n.digitChars = d.char :: ds.map Digit.char := by
  obtain ⟨d, ds, hds⟩ := exists_cons_of_ne_nil n.ne_nil
  exact ⟨d, ds, hds, by rw [digitChars, hds, map_cons]⟩

theorem mem_digitChars (hc : c ∈ n.digitChars) : isHexadecimal c = true ∧ isBlank c = false ∧
      c ∉ ['_', '-', '+', 'x', 'X', 's', 'l', 't', '#', '"', ','] := by
  obtain ⟨d, -, rfl⟩ := mem_map.mp hc
  obtain ⟨hhex, -, hblank, hnot⟩ := d.char_spec
  exact ⟨by rw [isHexadecimal, hhex]; rfl, hblank, hnot⟩

theorem mem_mark (hc : c ∈ n.mark.chars) : c ∈ ['s', 'l', 't'] := by
  cases hm : n.mark <;> rw [hm] at hc <;> simp [SizeMark.chars] at hc <;> simp [hc]

theorem takeSign_append : takeSign (n.sign.chars ++ (n.body ++ tail)) = (decide (n.sign = .minus), n.body ++ tail) := by
  obtain ⟨d, ds, -, hchars⟩ := n.exists_cons
  have hhead : ∃ c cs, n.body ++ tail = c :: cs ∧ c ∉ ['-', '+'] := by
    cases hhex : n.hexadecimal with
    | true => exact ⟨'0', _, by rw [body, hhex]; rfl, by decide⟩
    | false =>
      exact ⟨d.char, ds.map Digit.char ++ tail, by simp [body, hhex, hchars], d.char_not_sign⟩
  obtain ⟨c, cs, hbody, hc⟩ := hhead
  rw [hbody]
  exact n.sign.takeSign_append hc cs

theorem x_not_mem (hhex : n.hexadecimal = false) (tail : List Char) (htail : 'x' ∉ tail) : 'x' ∉ n.body ++ tail := by
  simp only [body, hhex, Bool.false_eq_true, if_false, nil_append, mem_append, not_or]
  exact ⟨fun hc => (n.mem_digitChars hc).2.2 (by decide), htail⟩

theorem isHexMarked_text (htail : 'x' ∉ tail) : isHexMarked (n.sign.chars ++ (n.body ++ tail)) = n.hexadecimal := by
  rw [isHexMarked, takeSign_append]
  cases hhex : n.hexadecimal with
  | true =>
    obtain ⟨d, ds, -, hchars⟩ := n.exists_cons
    have hd : isHexadecimal d.char = true := (n.mem_digitChars (c := d.char) (by simp [hchars])).1
    simpa [body, hhex, hchars] using hd
  | false =>
    have hx := n.x_not_mem hhex tail htail
    dsimp only
    split
    · rename_i heq
      exact absurd (heq ▸ hx) (by simp)
    · rfl

theorem afterInteger?_text : afterInteger? (n.sign.chars ++ (n.body ++ n.mark.chars)) = some n.mark.chars := by
  obtain ⟨d, ds, -, hchars⟩ := n.exists_cons
  have hd : isHexadecimal d.char = true := (n.mem_digitChars (c := d.char) (by simp [hchars])).1
  have hdrop : (n.digitChars ++ n.mark.chars).dropWhile isHexadecimal = n.mark.chars := by
    rw [dropWhile_append_of_pos fun c hc => (n.mem_digitChars hc).1]
    cases n.mark <;> rfl
  have hstart : n.digitChars ++ n.mark.chars = d.char :: (ds.map Digit.char ++ n.mark.chars) := by
    rw [hchars, cons_append]
  cases hhex : n.hexadecimal with
  | true =>
    have hbody : n.body ++ n.mark.chars = '0' :: 'x' :: d.char :: (ds.map Digit.char ++ n.mark.chars) := by
      rw [body, hhex, append_assoc, hstart]
      rfl
    rw [afterInteger?, takeSign_append]
    simp only [hbody, if_pos hd]
    rw [← hstart, hdrop]
  | false =>
    have hx := n.x_not_mem hhex n.mark.chars fun hc => absurd (n.mem_mark hc) (by decide)
    have hbody : n.body ++ n.mark.chars = d.char :: (ds.map Digit.char ++ n.mark.chars) := by
      rw [body, hhex, if_neg Bool.false_ne_true, nil_append, hstart]
    rw [hbody] at hx ⊢
    rw [afterInteger?_of_unmarked _ d.char_not_sign hd fun hhead => ?_, ← hstart, hdrop]
    exact hx (mem_cons_of_mem _ (mem_of_head? hhead))

theorem mem_body (hc : c ∈ n.sign.chars ++ n.body) : isBlank c = false ∧ c ∉ ['#', '"', ','] := by
  rcases mem_append.mp hc with hc | hc
  · cases hs : n.sign <;> rw [hs] at hc <;> simp [Sign.chars] at hc <;> subst hc <;> decide
  · rcases mem_append.mp hc with hc | hc
    · split at hc
      · rcases (by simpa using hc : c = '0' ∨ c = 'x') with rfl | rfl <;> decide
      · cases hc
    · obtain ⟨-, hblank, hnot⟩ := n.mem_digitChars hc
      exact ⟨hblank, fun hmem => hnot (by simp at hmem ⊢; tauto)⟩

theorem dropBoth_body : dropBoth isBlank (n.sign.chars ++ n.body) = n.sign.chars ++ n.body := by
  rw [dropBoth, Line.dropStart_eq_self fun c hc => (n.mem_body (mem_of_head? hc)).1]
  exact Line.dropEnd_eq_self fun c hc => (n.mem_body (mem_of_getLast? hc)).1

theorem value_eq :
    n.value = withSign (decide (n.sign = .minus)) (Number.ofDigits n.base (n.digits.map Digit.value)) := by
  rw [value, withSign, ofDigits_eq]
  by_cases h : n.sign = .minus <;> simp [h]

theorem readInteger_body :
    readInteger n.hexadecimal (n.sign.chars ++ n.body)
      = if n.IsReadable then .ok (.int n.value) else .error .numeral := by
  have hsign := n.takeSign_append []
  rw [append_nil] at hsign
  cases hhex : n.hexadecimal with
  | true =>
    obtain ⟨d, ds, -, hchars⟩ := n.exists_cons
    have hnot : d.char ≠ '_' := fun heq => d.char_spec.2.2.2 (by simp [heq])
    have hdropped : dropHexMark n.body = n.digitChars := by
      rw [body, hhex, hchars]
      unfold dropHexMark
      split
      · rename_i heq
        injection heq with _ heq
        injection heq with _ heq
        exact absurd (cons.inj heq).1 hnot
      · rename_i heq
        injection heq with _ heq
        obtain ⟨rfl, rfl⟩ := cons.inj heq
        rfl
      · rename_i h
        exact absurd rfl (h _ _)
    have hrun : digitRun hexValue? false n.digitChars = some (n.digits.map Digit.value) :=
      digitRun_map (fun d _ => d.char_spec.1) (.inr n.ne_nil)
    have hbase : n.base = 16 := by rw [base, hhex]; rfl
    rw [if_pos (.inl hhex), n.value_eq, hbase]
    simp only [readInteger, if_true, parseHexadecimal?, n.dropBoth_body, hsign, hdropped, hrun]
  | false =>
    have hbody : n.body = n.digitChars := by rw [body, hhex]; rfl
    have hrun : digitRun decimalValue? false n.digitChars = some (n.digits.map Digit.value) :=
      digitRun_map (fun d hd => d.char_spec.2.1 (n.fits hhex d hd)) (.inr n.ne_nil)
    have hbase : n.base = 10 := by rw [base, hhex]; rfl
    have hreadable : n.IsReadable ↔ n.digits.length ≤ longestDecimal := by simp [IsReadable, hhex]
    rw [hbody] at hsign
    have hblank := n.dropBoth_body
    rw [hbody] at hblank
    rw [n.value_eq, hbase, hbody]
    simp only [readInteger, Bool.false_eq_true, if_false, parseDecimal?, hblank, hsign, hrun,
      length_map, hreadable]
    by_cases hlong : n.digits.length ≤ longestDecimal <;> simp [hlong]

theorem parse_text : parse n.text = if n.IsReadable then .ok (.int n.value) else .error .numeral := by
  have htext : n.text.toList = n.sign.chars ++ (n.body ++ n.mark.chars) := by
    rw [text, String.toList_ofList, append_assoc]
  have hmarked := n.isHexMarked_text n.mark.chars fun hc => absurd (n.mem_mark hc) (by decide)
  have hafter := n.afterInteger?_text
  rw [parse, htext]
  by_cases hmark : n.mark = .none
  · have hform : Form.all.find? (·.fits (n.sign.chars ++ (n.body ++ n.mark.chars))) = some .integer := by
      have hnot : ¬ Form.suffixed.fits (n.sign.chars ++ (n.body ++ n.mark.chars)) = true := by
        rw [Form.fits, hafter, hmark]
        exact Bool.false_ne_true
      have hfits : Form.integer.fits (n.sign.chars ++ (n.body ++ n.mark.chars)) = true := by
        rw [Form.fits, hafter, hmark]
        rfl
      rw [Form.all, find?_cons_of_neg hnot, find?_cons_of_pos hfits]
    rw [hform]
    dsimp only [Form.read]
    rw [hmarked, hmark, SizeMark.chars, append_nil]
    exact n.readInteger_body
  · obtain ⟨c, hc, hslt⟩ : ∃ c, n.mark.chars = [c] ∧ (c == 's' || c == 'l' || c == 't') = true := by
      cases hm : n.mark with
      | none => exact absurd hm hmark
      | short => exact ⟨'s', rfl, rfl⟩
      | long => exact ⟨'l', rfl, rfl⟩
      | byte => exact ⟨'t', rfl, rfl⟩
    have hform : Form.all.find? (·.fits (n.sign.chars ++ (n.body ++ n.mark.chars))) = some .suffixed := by
      have hfits : Form.suffixed.fits (n.sign.chars ++ (n.body ++ n.mark.chars)) = true := by
        rw [Form.fits, hafter, hc]
        simp only [hslt, atEnd, isEmpty_nil, Bool.true_or, Bool.and_self]
      rw [Form.all, find?_cons_of_pos hfits]
    rw [hform]
    dsimp only [Form.read]
    rw [hmarked, hc, ← append_assoc, dropLast_concat]
    exact n.readInteger_body

theorem isBare_text : IsBare n.text ∧ ',' ∉ n.text.toList := by
  have hchars : ∀ c ∈ n.text.toList, isBlank c = false ∧ c ∉ ['#', '"', ','] := by
    intro c hc
    rw [text, String.toList_ofList] at hc
    rcases mem_append.mp hc with hc | hc
    · exact n.mem_body hc
    · have hall : ∀ c ∈ ['s', 'l', 't'], isBlank c = false ∧ c ∉ ['#', '"', ','] := by decide
      exact hall c (n.mem_mark hc)
  refine ⟨⟨fun hempty => ?_, fun c hc => ⟨(hchars c hc).1, ?_⟩, fun hhead => ?_⟩, fun hmem => ?_⟩
  · obtain ⟨d, ds, -, hcons⟩ := n.exists_cons
    have hlist := congrArg String.toList hempty
    rw [text, body, hcons] at hlist
    simp at hlist
  · rintro rfl
    exact (hchars _ hc).2 (by decide)
  · exact (hchars _ (mem_of_head? hhead)).2 (by decide)
  · exact (hchars _ hmem).2 (by decide)

end WrittenInteger

/-! ### All spellings of an integer -/

/-- Whether a sign can stand in front of an integer. -/
def Sign.suits (n : Int) : Sign → Prop
  | none | plus => 0 ≤ n
  | minus => n ≤ 0

/-- A spelling of an integer: a sign, the base, zeros in front, capitals among the letters, and a mark. -/
def integerText (n : Int) (sign : Sign) (hexadecimal : Bool) (zeros : Nat) (capital : Nat → Bool) (mark : SizeMark) :
    String :=
  String.ofList (sign.chars ++ ((if hexadecimal then ['0', 'x'] else []) ++ (replicate zeros '0' ++
    (Nat.toDigits (if hexadecimal then 16 else 10) n.natAbs).mapIdx fun i c => if capital i then c.toUpper else c))
      ++ mark.chars)

theorem Digit.exists_map {ds : List Nat} (hds : ∀ d ∈ ds, d < 16) (capital : Nat → Bool) :
    ∃ digits : List Digit, digits.map Digit.value = ds ∧
      digits.map Digit.char = (ds.map Nat.digitChar).mapIdx fun i c => if capital i then c.toUpper else c := by
  induction ds generalizing capital with
  | nil => exact ⟨[], rfl, rfl⟩
  | cons d ds ih =>
    obtain ⟨digits, hvalues, hchars⟩ := ih (fun x hx => hds x (mem_cons_of_mem _ hx)) fun i => capital (i + 1)
    refine ⟨⟨d, capital 0, hds d mem_cons_self⟩ :: digits, by rw [map_cons, hvalues], ?_⟩
    rw [map_cons, map_cons, mapIdx_cons, hchars]
    rfl

theorem exists_writtenInteger {n : Int} {sign : Sign} (hsign : sign.suits n) (hexadecimal : Bool) (zeros : Nat)
    (capital : Nat → Bool) (mark : SizeMark) :
    ∃ w : WrittenInteger, w.text = integerText n sign hexadecimal zeros capital mark ∧ w.value = n ∧
      w.hexadecimal = hexadecimal ∧
      w.digits.length = zeros + (Nat.toDigits (if hexadecimal then 16 else 10) n.natAbs).length := by
  let base := if hexadecimal then 16 else 10
  have hbase : 1 < base ∧ base ≤ 16 := by
    cases hexadecimal <;> decide
  obtain ⟨ds, hne, hlt, hdigits, hvalue⟩ := Number.exists_digits hbase.1 n.natAbs
  obtain ⟨digits, hvalues, hchars⟩ := Digit.exists_map (fun d hd => (hlt d hd).trans_le hbase.2) capital
  have hlength : digits.length = ds.length := by rw [← hvalues, length_map]
  let w : WrittenInteger := {
    sign, hexadecimal, mark
    digits := replicate zeros ⟨0, false, by decide⟩ ++ digits
    ne_nil := by
      intro hnil
      rw [← hvalues, (append_eq_nil_iff.mp hnil).2] at hne
      exact hne rfl
    fits := by
      intro hdecimal d hd
      rcases mem_append.mp hd with hd | hd
      · rw [(mem_replicate.mp hd).2]
        exact Nat.zero_lt_succ 9
      · have hmem : d.value ∈ ds := by
          rw [← hvalues]
          exact mem_map_of_mem hd
        simpa [base, hdecimal] using hlt d.value hmem }
  have hmagnitude : Nat.ofDigits w.base (w.digits.map Digit.value).reverse = n.natAbs := by
    have hall : w.digits.map Digit.value = replicate zeros 0 ++ ds := by
      rw [map_append, map_replicate, hvalues]
    rw [hall, reverse_append, reverse_replicate, Nat.ofDigits_append_replicate_zero,
      ← WrittenInteger.ofDigits_eq]
    exact hvalue
  refine ⟨w, ?_, ?_, rfl, ?_⟩
  · have hchars' : w.digitChars = replicate zeros '0' ++
        (Nat.toDigits base n.natAbs).mapIdx fun i c => if capital i then c.toUpper else c := by
      rw [WrittenInteger.digitChars, map_append, map_replicate, hchars, hdigits]
      rfl
    rw [WrittenInteger.text, WrittenInteger.body, hchars']
    rfl
  · rw [WrittenInteger.value, hmagnitude]
    cases sign with
    | none | plus => exact Int.natAbs_of_nonneg hsign
    | minus => exact (congrArg Neg.neg (Int.ofNat_natAbs_of_nonpos hsign)).trans (Int.neg_neg n)
  · rw [length_append, length_replicate, hlength]
    rw [hdigits, length_map]

/-- **Integer literals decode to their value**, whichever sign, base, zeros in front, capitals and mark they are
written with. Only a decimal numeral can be too long to be read. -/
theorem parse_integerText {n : Int} {sign : Sign} (hsign : sign.suits n) (hexadecimal : Bool) (zeros : Nat)
    (capital : Nat → Bool) (mark : SizeMark) :
    parse (integerText n sign hexadecimal zeros capital mark)
      = if hexadecimal = true ∨ zeros + (Nat.toDigits 10 n.natAbs).length ≤ longestDecimal then .ok (.int n)
        else .error .numeral := by
  obtain ⟨w, htext, hvalue, hhex, hlength⟩ := exists_writtenInteger hsign hexadecimal zeros capital mark
  rw [← htext, w.parse_text, hvalue]
  refine if_congr ?_ rfl rfl
  rw [WrittenInteger.IsReadable, hhex, hlength]
  cases hexadecimal <;> simp

theorem parse_integerText_mixed : integerText (-255) .minus true 2 (· == 1) .short = "-0x00fFs" ∧
    parse "-0x00fFs" = .ok (.int (-255)) := by
  have htext : integerText (-255) .minus true 2 (· == 1) .short = "-0x00fFs" := by decide +kernel
  have hsign : Sign.minus.suits (-255) := by
    simp only [Sign.suits]
    decide
  refine ⟨htext, ?_⟩
  rw [← htext, parse_integerText hsign, if_pos (.inl rfl)]

end Dalvik
