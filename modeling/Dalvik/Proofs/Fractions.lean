import Dalvik.Proofs.Literals
import Dalvik.Proofs.NormalForms

/-!
# Floating-point literals and types as literals

A floating-point literal has digits, a point and digits, and may have a mark behind them. Whatever the mark is, the
last character is taken for it, so a literal without a mark loses its last digit (`parse_fraction`). A type descriptor
is read as the type that it names, except for the four primitive letters that are also hexadecimal digits: these are
taken for integers, and are none (`parse_descriptor`).
-/

namespace Dalvik

open Dalvik.Text Dalvik.Number Literal List Descriptor

variable {c : Char} {s : List Char}

/-! ### Decimal digits -/

theorem isDecimal_spec (hc : isDecimal c = true) :
    isBlank c = false ∧ c ∉ ['_', '-', '+', '.', 'x', 't', 'f', '\n'] := by
  rw [isDecimal, decimalValue?, Option.isSome_map, find?_isSome] at hc
  obtain ⟨z, hz, hrow⟩ := hc
  have hrow : z ≤ c.toNat ∧ c.toNat < z + 10 := by simpa using hrow
  have all : ∀ z ∈ digitZeros, ∀ i < 10, isBlank (Char.ofNat (z + i)) = false ∧
      Char.ofNat (z + i) ∉ ['_', '-', '+', '.', 'x', 't', 'f', '\n'] := by decide +kernel
  have h := all z hz (c.toNat - z) (by omega)
  rwa [Nat.add_sub_cancel' hrow.1, Char.ofNat_toNat] at h

theorem isHexadecimal_of_isDecimal (hc : isDecimal c = true) : isHexadecimal c = true := by
  obtain ⟨v, hv⟩ := Option.isSome_iff_exists.mp hc
  simp [isHexadecimal, hexValue?, hv]

/-- Decimal digits, of any script. -/
def IsDigits (s : List Char) : Prop :=
  ∀ c ∈ s, isDecimal c = true

/-- The values of decimal digits. -/
def digitValues (s : List Char) : List Nat :=
  s.map fun c => (decimalValue? c).getD 0

theorem IsDigits.digitRun (hs : IsDigits s) {afterDigit : Bool} (hne : afterDigit = true ∨ s ≠ []) :
    digitRun decimalValue? afterDigit s = some (digitValues s) := by
  induction s generalizing afterDigit with
  | nil =>
    obtain rfl : afterDigit = true := by simpa using hne
    rfl
  | cons c s ih =>
    have hc := hs c mem_cons_self
    obtain ⟨v, hv⟩ := Option.isSome_iff_exists.mp hc
    have hnot : c ≠ '_' := fun heq => (isDecimal_spec hc).2 (by simp [heq])
    rw [Number.digitRun, if_neg (by simpa using hnot)]
    simp [ih (fun e he => hs e (mem_cons_of_mem _ he)) (.inl rfl), digitValues, hv]

theorem IsDigits.optionalRun (hs : IsDigits s) : optionalRun s = some (digitValues s) := by
  unfold Number.optionalRun
  split
  · rw [isEmpty_iff.mp ‹s.isEmpty = true›]
    rfl
  · exact hs.digitRun (.inr (by simpa using ‹¬s.isEmpty = true›))

theorem IsDigits.takeRun {s : List Char} (hs : IsDigits s) {rest : List Char}
    (hrest : ∀ c ∈ rest.head?, isDecimal c = false ∧ c ≠ '_') : takeRun (s ++ rest) = (s, rest) := by
  have hpass : ∀ c ∈ s, (isDecimal c || c == '_') = true := fun c hc => by simp [hs c hc]
  have hstop : rest.takeWhile (fun c => isDecimal c || c == '_') = [] ∧
      rest.dropWhile (fun c => isDecimal c || c == '_') = rest := by
    cases rest with
    | nil => exact ⟨rfl, rfl⟩
    | cons c rest =>
      obtain ⟨hdecimal, hnot⟩ := hrest c rfl
      simp [hdecimal, hnot]
  rw [Number.takeRun, span_eq_takeWhile_dropWhile, takeWhile_append_of_pos hpass,
    dropWhile_append_of_pos hpass, hstop.1, hstop.2, append_nil]

/-! ### Fractions -/

/-- A sign, digits, a point and digits. -/
def fraction (sign : Sign) (a b : List Char) : List Char :=
  sign.chars ++ (a ++ '.' :: b)

/-- The number nearest to digits, a point and digits. -/
def fractionValue (sign : Sign) (a b : List Char) : Double :=
  scaleByTen (decide (sign = .minus)) (Number.ofDigits 10 (digitValues a ++ digitValues b)) (-(b.length : Int))

section Fractions

variable {a b : List Char} (ha : IsDigits a) (hne : a ≠ []) (hb : IsDigits b) (sign : Sign)

include ha

theorem dropBoth_fraction (hb : IsDigits b) : dropBoth isBlank (fraction sign a b) = fraction sign a b := by
  have hchars : ∀ c ∈ fraction sign a b, isBlank c = false := by
    intro c hc
    have hcases : c ∈ sign.chars ∨ c ∈ a ∨ c = '.' ∨ c ∈ b := by simpa [fraction] using hc
    rcases hcases with hc | hc | rfl | hc
    · cases sign <;> simp [Sign.chars] at hc <;> subst hc <;> decide
    · exact (isDecimal_spec (ha c hc)).1
    · decide
    · exact (isDecimal_spec (hb c hc)).1
  rw [dropBoth, Line.dropStart_eq_self fun c hc => hchars c (mem_of_head? hc)]
  exact Line.dropEnd_eq_self fun c hc => hchars c (mem_of_getLast? hc)

include hne

theorem takeSign_fraction (tail : List Char) :
    takeSign (fraction sign a tail) = (decide (sign = .minus), a ++ '.' :: tail) := by
  obtain ⟨c, cs, rfl⟩ := exists_cons_of_ne_nil hne
  refine sign.takeSign_append (fun hmem => (isDecimal_spec (ha c mem_cons_self)).2 ?_) _
  simp at hmem ⊢
  tauto

include hb in
theorem parseDouble?_fraction : parseDouble? (fraction sign a b) = some (fractionValue sign a b) := by
  have hname : ∀ name ∈ ["inf", "infinity", "nan"], String.ofList ((a ++ '.' :: b).map lower) ≠ name := by
    intro name hname heq
    have hmem : '.' ∈ (a ++ '.' :: b).map lower := mem_map.mpr ⟨'.', by simp, by decide⟩
    have hnot : ∀ name ∈ ["inf", "infinity", "nan"], '.' ∉ name.toList := by decide
    exact hnot name hname (by rwa [← heq, String.toList_ofList])
  have hpoint : ∀ c ∈ ('.' :: b).head?, isDecimal c = false ∧ c ≠ '_' := by
    intro c hc
    obtain rfl : '.' = c := by simpa using hc
    decide
  have hrun : Number.takeRun b = (b, []) := by simpa using @IsDigits.takeRun b hb [] (by simp)
  have hvalues : digitValues a ≠ [] := by simpa [digitValues] using hne
  have hlength : (digitValues b).length = b.length := length_map ..
  simp only [parseDouble?, dropBoth_fraction ha sign hb, takeSign_fraction ha hne, beq_iff_eq,
    hname "inf" (by simp), hname "infinity" (by simp), hname "nan" (by simp), or_self, if_false, parsePositional?,
    ha.takeRun hpoint, hrun, ha.optionalRun, hb.optionalRun, exponentPart?, Bool.or_eq_true, List.isEmpty_iff,
    Bool.and_eq_true, hvalues, false_and, fractionValue, hlength, Int.zero_sub]

/-- The forms that a fraction with a mark fits are the floating-point forms, of which the second takes any mark. -/
theorem parse_fraction_mark (hb : IsDigits b) (hbne : b ≠ []) {mark : List Char} (hmark : mark ∈ [[], ['f'], ['d']]) :
    parse (String.ofList (fraction sign a (b ++ mark)))
      = readFraction (fraction sign a (b ++ mark)).dropLast := by
  obtain ⟨c, cs, rfl⟩ := exists_cons_of_ne_nil hne
  obtain ⟨d, ds, rfl⟩ := exists_cons_of_ne_nil hbne
  have hc := isDecimal_spec (ha c mem_cons_self)
  have hd := hb d mem_cons_self
  have hinteger : afterInteger? (fraction sign (c :: cs) (d :: ds ++ mark)) = some ('.' :: (d :: ds ++ mark)) := by
    rw [fraction, cons_append, afterInteger?_of_unmarked]
    · rw [← cons_append, dropWhile_append_of_pos fun e he => isHexadecimal_of_isDecimal (ha e he)]
      rfl
    · intro hmem
      exact hc.2 (by simp at hmem ⊢; tauto)
    · exact isHexadecimal_of_isDecimal (ha c mem_cons_self)
    · intro hhead
      cases cs with
      | nil => exact absurd (Option.some.inj hhead) (by decide)
      | cons e cs =>
        obtain rfl : e = 'x' := by simpa using hhead
        exact (isDecimal_spec (ha 'x' (by simp))).2 (by decide)
  have hfraction : afterFraction? (fraction sign (c :: cs) (d :: ds ++ mark)) = some mark := by
    have hds : (ds ++ mark).dropWhile isDecimal = mark := by
      rw [dropWhile_append_of_pos fun e he => hb e (mem_cons_of_mem _ he)]
      rcases (by simpa using hmark : mark = [] ∨ mark = ['f'] ∨ mark = ['d']) with rfl | rfl | rfl <;> decide
    rw [afterFraction?, takeSign_fraction ha hne]
    simp only [cons_append, head?_cons]
    rw [← cons_append, dropWhile_append_of_pos ha, dropWhile_cons_of_neg (by decide)]
    simp [ha c mem_cons_self, hd, hds]
  have hbool : ¬ Form.boolean.fits (fraction sign (c :: cs) (d :: ds ++ mark)) = true := by
    have hne : c ≠ 't' ∧ c ≠ 'f' :=
      ⟨fun heq => hc.2 (by simp [heq]), fun heq => hc.2 (by simp [heq])⟩
    cases sign <;> simp [Form.fits, fraction, Sign.chars, isPrefixOf, Ne.symm hne.1, Ne.symm hne.2]
  have hsuffixed : ¬ Form.suffixed.fits (fraction sign (c :: cs) (d :: ds ++ mark)) = true := by
    rw [Form.fits, hinteger]
    exact Bool.false_ne_true
  have hwhole : ¬ Form.integer.fits (fraction sign (c :: cs) (d :: ds ++ mark)) = true := by
    rw [Form.fits, hinteger]
    exact Bool.false_ne_true
  have hdouble : Form.double.fits (fraction sign (c :: cs) (d :: ds ++ mark)) = true := by
    rw [Form.fits, hfraction]
    rfl
  rw [parse, String.toList_ofList, Form.all, find?_cons_of_neg hsuffixed,
    find?_cons_of_neg hwhole, find?_cons_of_neg hbool]
  by_cases hsingle : Form.single.fits (fraction sign (c :: cs) (d :: ds ++ mark)) = true
  · rw [find?_cons_of_pos hsingle]
    rfl
  · rw [find?_cons_of_neg hsingle, find?_cons_of_pos hdouble]
    rfl

end Fractions

/-- What digits, a point and digits are read as, with a mark and without one. -/
theorem parse_fraction {a b : List Char} (ha : IsDigits a) (hane : a ≠ []) (hb : IsDigits b) (hbne : b ≠ [])
    (sign : Sign) :
    parse (String.ofList (fraction sign a b ++ ['f'])) = .ok (.float (fractionValue sign a b)) ∧
    parse (String.ofList (fraction sign a b ++ ['d'])) = .ok (.float (fractionValue sign a b)) ∧
    parse (String.ofList (fraction sign a b)) = .ok (.float (fractionValue sign a b.dropLast)) := by
  have hmarked (b mark : List Char) : fraction sign a (b ++ mark) = fraction sign a b ++ mark := by simp [fraction]
  have hvalue (b : List Char) (hb : IsDigits b) :
      readFraction (fraction sign a b) = .ok (.float (fractionValue sign a b)) := by
    rw [readFraction, parseDouble?_fraction ha hane hb]
  have hcut : (fraction sign a b).dropLast = fraction sign a b.dropLast := by
    obtain ⟨front, d, rfl⟩ := eq_nil_or_concat b |>.resolve_left hbne
    rw [concat_eq_append, dropLast_concat, hmarked, dropLast_concat]
  refine ⟨?_, ?_, ?_⟩
  · rw [← hmarked, parse_fraction_mark ha hane sign hb hbne (by simp), hmarked, dropLast_concat, hvalue b hb]
  · rw [← hmarked, parse_fraction_mark ha hane sign hb hbne (by simp), hmarked, dropLast_concat, hvalue b hb]
  · have hparse := @parse_fraction_mark a b ha hane sign hb hbne [] (by simp)
    rw [append_nil] at hparse
    rw [hparse, hcut, hvalue _ fun c hc => hb c (mem_of_mem_dropLast hc)]

/-! ### Descriptors -/

theorem Descriptor.exists_core (h : isDescriptor (String.ofList s) = true) (hline : '\n' ∉ s) :
    ∃ n core, s = replicate n '[' ++ core ∧
      ((∃ c ∈ primitives, core = [c]) ∨ ∃ name, core = 'L' :: (name ++ [';'])) := by
  obtain ⟨n, core, hs, hcore⟩ := exists_brackets s
  have hwhole : dropLineEnd core = core := by
    rw [dropLineEnd, if_neg]
    intro hlast
    exact hline (hs ▸ mem_append_right _ (mem_of_getLast? hlast))
  refine ⟨n, core, hs, ?_⟩
  rw [isDescriptor, String.toList_ofList, Bool.or_eq_true, isClassName, isPrimitive, hcore, hwhole] at h
  rcases h with h | h
  · split at h
    · obtain ⟨name, rfl⟩ := getLast?_eq_some_iff.mp (by simpa using (Bool.and_eq_true_iff.mp h).1)
      exact .inr ⟨name, rfl⟩
    · cases h
  · split at h
    · exact .inl ⟨_, by simpa using h, rfl⟩
    · cases h

theorem find_form_type {c : Char} {cs : List Char} (hc : c ∈ ['[', 'L', 'Z', 'S', 'I', 'V', 'J'])
    (hline : '\n' ∉ c :: cs) (h : isDescriptor (String.ofList (c :: cs)) = true) :
    Form.all.find? (·.fits (c :: cs)) = some .type := by
  have hwhole : dropLineEnd (c :: cs) = c :: cs := by
    rw [dropLineEnd, if_neg fun hlast => hline (mem_of_getLast? hlast)]
  have hquoted : ∀ q ∈ ['\'', '"'], isQuoted q (c :: cs) = false := by
    intro q hq
    have hne : c ≠ q := by
      have hdisjoint : ∀ c ∈ ['[', 'L', 'Z', 'S', 'I', 'V', 'J'], ∀ q ∈ ['\'', '"'], c ≠ q := by decide
      exact hdisjoint c hc q hq
    rw [isQuoted, hwhole]
    simp [hne]
  have hothers : afterInteger? (c :: cs) = none ∧ afterFraction? (c :: cs) = none ∧
      ("true".toList.isPrefixOf (c :: cs) || "false".toList.isPrefixOf (c :: cs)) = false := by
    simp only [mem_cons, not_mem_nil, or_false] at hc
    rcases hc with rfl | rfl | rfl | rfl | rfl | rfl | rfl <;> exact ⟨rfl, rfl, rfl⟩
  simp only [Form.all, List.find?, Form.fits, hothers, hquoted '\'' (by simp),
    hquoted '"' (by simp), h, Option.any_none, Option.isSome_none]

/-- The primitive letters that are also hexadecimal digits. -/
def digitLetters : List String := ["B", "C", "D", "F"]

/-- What a type descriptor is read as. -/
theorem parse_descriptor {d : String} (h : isDescriptor d = true) (hline : '\n' ∉ d.toList) :
    ∃ t, Descriptor.ofString d = .ok t ∧ parse d = if d ∈ digitLetters then .error .numeral else .ok (.type t) := by
  by_cases hdigit : d ∈ digitLetters
  · have all : ∀ d ∈ digitLetters, parse d = .error .numeral ∧
        Descriptor.ofString d = .ok ⟨d, .primitive, 0⟩ := by decide +kernel
    exact ⟨_, (all d hdigit).2, by rw [if_pos hdigit, (all d hdigit).1]⟩
  · obtain ⟨n, core, hs, hcore⟩ := Descriptor.exists_core (by simpa using h) hline
    have hlast : d.toList.getLast? ≠ some '[' ∧ d.toList ≠ [] := by
      rcases hcore with ⟨c, hc, rfl⟩ | ⟨name, rfl⟩
      · have : ∀ c ∈ Descriptor.primitives, c ≠ '[' := by decide
        simp [hs, this c hc]
      · simp [hs, getLast?_cons]
    obtain ⟨t, ht⟩ : ∃ t, Descriptor.ofString d = .ok t := by
      cases hd : Descriptor.ofString d with
      | ok t => exact ⟨t, rfl⟩
      | error f => exact absurd (Descriptor.ofString_eq_error_iff.mp ⟨f, hd⟩).2 (by simp [Descriptor.IsFront, hlast])
    have hhead : ∃ c cs, d.toList = c :: cs ∧ c ∈ ['[', 'L', 'Z', 'S', 'I', 'V', 'J'] := by
      cases n with
      | succ n => exact ⟨'[', _, by rw [hs, replicate_succ, cons_append], by simp⟩
      | zero =>
        rcases hcore with ⟨c, hc, rfl⟩ | ⟨name, rfl⟩
        · have hd : d = String.ofList [c] := String.toList_inj.mp (by simpa using hs)
          have all : ∀ c ∈ primitives, String.ofList [c] ∉ digitLetters →
              c ∈ ['[', 'L', 'Z', 'S', 'I', 'V', 'J'] := by decide
          exact ⟨c, [], hs, all c hc (hd ▸ hdigit)⟩
        · exact ⟨'L', _, hs, by simp⟩
    obtain ⟨c, cs, hcons, hc⟩ := hhead
    have hform := @find_form_type c cs hc (hcons ▸ hline) (by rw [← hcons]; simpa using h)
    refine ⟨t, ht, ?_⟩
    rw [if_neg hdigit, parse, hcons, hform]
    simp [Form.read, ← hcons, ht, Except.map]

/-- A fraction with a mark is read as its double, and a fraction without one as the double of what is left without
its last digit. A descriptor is read as its type, unless it is a hexadecimal digit. -/
theorem parse_unquoted (sign : Sign) {a b : List Char} (ha : IsDigits a) (hane : a ≠ []) (hb : IsDigits b)
    (hbne : b ≠ []) {d : String} (hd : isDescriptor d = true) (hline : '\n' ∉ d.toList) :
    (parseDouble? (fraction sign a b) = some (fractionValue sign a b) ∧
      parse (String.ofList (fraction sign a b ++ ['f'])) = .ok (.float (fractionValue sign a b)) ∧
      parse (String.ofList (fraction sign a b ++ ['d'])) = .ok (.float (fractionValue sign a b)) ∧
      parseDouble? (fraction sign a b.dropLast) = some (fractionValue sign a b.dropLast) ∧
      parse (String.ofList (fraction sign a b)) = .ok (.float (fractionValue sign a b.dropLast))) ∧
    (∃ t, Descriptor.ofString d = .ok t ∧ parse d = if d ∈ digitLetters then .error .numeral else .ok (.type t)) ∧
    parse "true" = .ok (.bool true) ∧ parse "false" = .ok (.bool false) := by
  refine ⟨?_, parse_descriptor hd hline, by decide +kernel, by decide +kernel⟩
  obtain ⟨hfloat, hdouble, hbare⟩ := parse_fraction ha hane hb hbne sign
  exact ⟨parseDouble?_fraction ha hane hb sign, hfloat, hdouble,
    parseDouble?_fraction ha hane (fun c hc => hb c (mem_of_mem_dropLast hc)) sign, hbare⟩

theorem parse_minus_three_point_two_five : parse "-3.25f" = .ok (.float ⟨0xC00A000000000000⟩) ∧
    parse "[I" = .ok (.type ⟨"[I", .array, 1⟩) := by
  obtain ⟨⟨-, hfloat, -⟩, ⟨t, ht, hparse⟩, -⟩ := @parse_unquoted .minus ['3'] ['2', '5'] (by unfold IsDigits; decide)
    (by simp) (by unfold IsDigits; decide) (by simp) "[I" (by decide) (by decide)
  have hvalue : fractionValue .minus ['3'] ['2', '5'] = ⟨0xC00A000000000000⟩ := by decide +kernel
  obtain rfl : ⟨"[I", .array, 1⟩ = t := Except.ok.inj ((by decide +kernel : Descriptor.ofString "[I" = _).symm.trans ht)
  exact ⟨hvalue ▸ hfloat, hparse⟩

/-- One and a half is read as one, and the type of bytes is not read. -/
theorem parse_one_point_five : parseDouble? "1.5".toList = some ⟨0x3FF8000000000000⟩ ∧
    parse "1.5" = .ok (.float ⟨0x3FF0000000000000⟩) ∧
    isDescriptor "B" = true ∧ parse "B" = .error .numeral := by
  decide +kernel

end Dalvik
