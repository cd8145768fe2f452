import Dalvik.Access
import Dalvik.Number.Numeral
import Dalvik.Proofs.Bits
import Dalvik.Proofs.Words
import Mathlib.Data.Nat.Digits.Lemmas

/-!
# Numbers and access flags as they are written

An integer is written as a decimal numeral, and access flags as the keywords of the bits that are set. Both
are read back: `Number.parseDecimal?_toString` for every integer whose numeral is not too long, and
`Access.flags_and_names` for the bits of every integer that have keywords.
-/

namespace Dalvik

open Dalvik.Text List Nat

variable {n : Int} {s : String} {j : Nat}

namespace Number

/-- A digit is read as its value, and is taken for no sign, blank or mark. -/
theorem decimalValue?_digitChar {d : Nat} (hd : d < 10) :
    decimalValue? d.digitChar = some d ∧ d.digitChar ≠ '_' ∧ isBlank d.digitChar = false ∧
      d.digitChar ≠ '-' ∧ d.digitChar ≠ '+' ∧ d.digitChar ≠ '#' ∧ d.digitChar ≠ '"' := by
  have all : ∀ d < 10, decimalValue? (digitChar d) = some d ∧ digitChar d ≠ '_' ∧
      isBlank (digitChar d) = false ∧ digitChar d ≠ '-' ∧ digitChar d ≠ '+' ∧
      digitChar d ≠ '#' ∧ digitChar d ≠ '"' := by decide
  exact all d hd

/-- A run of digits is read as the values of the digits. -/
theorem digitRun_digits {ds : List Nat} (hds : ∀ d ∈ ds, d < 10) (afterDigit : Bool)
    (hne : afterDigit = true ∨ ds ≠ []) :
    digitRun decimalValue? afterDigit (ds.map digitChar) = some ds := by
  induction ds generalizing afterDigit with
  | nil => simp_all [digitRun]
  | cons d ds ih =>
    have hd := decimalValue?_digitChar (hds d mem_cons_self)
    rw [map_cons, digitRun, hd.1]
    simp [ih (fun x hx => hds x (mem_cons_of_mem _ hx)) true (.inl rfl)]

/-- Every number is written with digits below the base that stand for it. -/
theorem exists_digits {base : Nat} (hbase : 1 < base) (n : Nat) : ∃ ds : List Nat, ds ≠ [] ∧ (∀ d ∈ ds, d < base) ∧
    toDigits base n = ds.map digitChar ∧ ofDigits base ds = n := by
  induction n using Nat.strong_induction_on with
  | _ n ih =>
    by_cases h : n < base
    · exact ⟨[n], by simp, by simpa using h, by simp [Nat.toDigits_of_lt_base h], by simp [ofDigits]⟩
    · obtain ⟨ds, -, hlt, hdigits, hvalue⟩ := ih (n / base) (div_lt_self (by omega) hbase)
      refine ⟨ds ++ [n % base], by simp, ?_, ?_, ?_⟩
      · intro d hd
        rcases mem_append.mp hd with hd | hd
        · exact hlt d hd
        · obtain rfl : d = n % base := by simpa using hd
          exact mod_lt n (by omega)
      · rw [toDigits_of_base_le hbase (by omega), hdigits]
        simp
      · have hsum : ofDigits base (ds ++ [n % base]) = base * ofDigits base ds + n % base := by
          simp [ofDigits]
        rw [hsum, hvalue, div_add_mod]

/-- No two numbers share a numeral. -/
theorem toString_injective {m n : Nat} (h : toString m = toString n) : m = n := by
  obtain ⟨ds, hne, hlt, hdigits, hvalue⟩ := @exists_digits 10 (by omega) m
  obtain ⟨es, hne', hlt', hdigits', hvalue'⟩ := @exists_digits 10 (by omega) n
  have hchars : ds.map digitChar = es.map digitChar := by
    have hrepr : m.repr = n.repr := h
    rw [repr_eq_ofList_toDigits, repr_eq_ofList_toDigits, hdigits, hdigits'] at hrepr
    exact String.ofList_injective hrepr
  have hrun := digitRun_digits hlt false (.inr hne)
  rw [hchars, digitRun_digits hlt' false (.inr hne')] at hrun
  rw [← hvalue, ← hvalue', Option.some.inj hrun]

/-- A numeral is a minus sign, for integers below zero only, in front of the digits. -/
theorem toList_toString (n : Int) : (toString n).toList = (if n < 0 then ['-'] else []) ++ toDigits 10 n.natAbs := by
  cases n with
  | ofNat m =>
    have h : ¬ ((m : Int) < 0) := by omega
    have hm : toString (Int.ofNat m) = m.repr := rfl
    rw [hm, repr_eq_ofList_toDigits]
    simp [h]
  | negSucc m =>
    have hm : toString (Int.negSucc m) = "-" ++ (m + 1).repr := rfl
    rw [hm, String.toList_append]
    simp [Int.negSucc_lt_zero]

/-- No character of a numeral ends a word, starts a comment or opens a text. -/
theorem mem_toString {c : Char} (hc : c ∈ (toString n).toList) : isBlank c = false ∧ c ≠ '#' ∧ c ≠ '"' := by
  obtain ⟨ds, -, hlt, hdigits, -⟩ := @exists_digits 10 (by omega) n.natAbs
  rw [toList_toString, hdigits] at hc
  rcases mem_append.mp hc with hc | hc
  · split at hc
    · obtain rfl : c = '-' := by simpa using hc
      decide
    · cases hc
  · obtain ⟨d, hd, rfl⟩ := mem_map.mp hc
    have h := decimalValue?_digitChar (hlt d hd)
    exact ⟨h.2.2.1, h.2.2.2.2.2⟩

/-- A numeral is a word of its own. -/
theorem isBare_toString (n : Int) : IsBare (toString n) := by
  refine ⟨fun hempty => ?_, fun c hc => ⟨(mem_toString hc).1, (mem_toString hc).2.1⟩, fun hhead => ?_⟩
  · have hlist := congrArg String.toList hempty
    obtain ⟨ds, hne, -, hdigits, -⟩ := @exists_digits 10 (by omega) n.natAbs
    rw [toList_toString] at hlist
    simp at hlist
  · exact (mem_toString (mem_of_head? hhead)).2.2 rfl

/-- An integer is read back from its numeral unless that is too long. -/
theorem parseDecimal?_toString (h : n.natAbs < 10 ^ longestDecimal) : parseDecimal? (toString n).toList = some n := by
  obtain ⟨ds, hne, hlt, hdigits, hvalue⟩ := @exists_digits 10 (by omega) n.natAbs
  have hlength : ds.length ≤ longestDecimal := by
    have := (length_toDigits_le_iff (b := 10) (by omega) (by decide)).mpr h
    simpa [hdigits] using this
  have htrim : dropBoth isBlank (toString n).toList = (toString n).toList := by
    rw [dropBoth, Line.dropStart_eq_self fun c hc => (mem_toString (mem_of_head? hc)).1]
    exact Line.dropEnd_eq_self fun c hc => (mem_toString (mem_of_getLast? hc)).1
  have hsign : takeSign (toString n).toList = (decide (n < 0), ds.map digitChar) := by
    rw [toList_toString, hdigits]
    by_cases hn : n < 0
    · simp [hn, takeSign]
    · obtain ⟨d, rest, rfl⟩ := exists_cons_of_ne_nil hne
      have hd := decimalValue?_digitChar (hlt d mem_cons_self)
      simp only [hn, if_false, nil_append, map_cons, decide_false]
      unfold takeSign
      split
      · rename_i heq
        exact absurd (cons.inj heq).1 hd.2.2.2.1
      · rename_i heq
        exact absurd (cons.inj heq).1 hd.2.2.2.2.1
      · rfl
  simp only [parseDecimal?, htrim, hsign, digitRun_digits hlt false (.inr hne), if_pos hlength, hvalue]
  by_cases hn : n < 0
  · simp only [withSign, hn, decide_true, if_true, Option.some.injEq]
    omega
  · simp only [withSign, hn, decide_false, Bool.false_eq_true, if_false, Option.some.injEq]
    omega

end Number

namespace Access

/-- An integer meets a power of two where it has its bit. -/
theorem meets_twoPow (n : Int) (i : Nat) : meets n (Number.twoPow i) = n.testBit i := by
  have htwo : Number.twoPow i = 2 ^ i := rfl
  have hlow : (lowBits n (2 ^ i)).testBit i = n.testBit i := by
    rw [lowBits, log2_two_pow]
    exact (testBit_emod_two_pow n (i + 1) i).trans (by simp)
  rw [meets, common, htwo, and_two_pow, hlow]
  cases n.testBit i <;> simp

/-- The names of an integer are the keywords of the bits that it has. -/
theorem names_eq (n : Int) : names n = keywords.zipIdx.filterMap fun p => if n.testBit p.2 then some p.1 else none := by
  simp only [names, meets_twoPow]

/-- A name is the keyword of a bit. -/
theorem mem_names : s ∈ names n ↔ ∃ i, keywords[i]? = some s ∧ n.testBit i = true := by
  rw [names_eq, mem_filterMap]
  constructor
  · rintro ⟨p, hp, hs⟩
    rw [mem_zipIdx_iff_getElem?] at hp
    split at hs
    · exact ⟨p.2, by rw [hp, Option.some.inj hs], ‹_›⟩
    · cases hs
  · rintro ⟨i, hi, hn⟩
    exact ⟨(s, i), mem_zipIdx_iff_getElem?.mpr hi, by simp [hn]⟩

/-- No keyword is listed twice. -/
theorem keywords_index {i : Nat} (hi : keywords[i]? = some s) (hj : keywords[j]? = some s) : i = j :=
  (List.getElem?_inj (List.getElem?_eq_some_iff.mp hi).1 (by decide)).mp (hi.trans hj.symm)

/-- A word is lowered letter by letter. -/
theorem lowerCase_eq (s : String) : lowerCase s = s.toLower := by
  change _ = s.map Char.toLower
  rw [← String.ofList_toList (s := s.map _), String.toList_map]
  rfl

/-- The bit of a word, in any case of its letters, is at the place of the keyword; other words have none. -/
theorem testBit_bit (s : String) (j : Nat) : (bit s).testBit j = true ↔ keywords[j]? = some s.toLower := by
  rw [bit, lowerCase_eq]
  cases h : keywords.findIdx? (· == s.toLower) with
  | none =>
    have hnot : keywords[j]? ≠ some s.toLower := by
      intro hj
      simpa using findIdx?_eq_none_iff.mp h _ (mem_of_getElem? hj)
    simp [hnot]
  | some i =>
    obtain ⟨hlt, hi, -⟩ := findIdx?_eq_some_iff_getElem.mp h
    have hword : keywords[i]? = some s.toLower := List.getElem?_eq_some_iff.mpr ⟨hlt, by simpa using hi⟩
    change (2 ^ i).testBit j = true ↔ _
    rw [testBit_two_pow, decide_eq_true_eq]
    exact ⟨fun hij => hij ▸ hword, keywords_index hword⟩

/-- The flags have the bits of the words, and no others. -/
theorem testBit_flags (ws : List String) (j : Nat) :
    (flags ws).testBit j = true ↔ ∃ s ∈ ws, keywords[j]? = some s.toLower := by
  have hfold (n : Nat) : (ws.foldl (fun m s => m ||| bit s) n).testBit j = true
      ↔ n.testBit j = true ∨ ∃ s ∈ ws, keywords[j]? = some s.toLower := by
    induction ws generalizing n with
    | nil => simp
    | cons s ws ih => simp [ih, testBit_bit, or_assoc]
  simpa [flags] using hfold 0

/-- For the bit of a keyword it is enough that the keyword is among the words. -/
theorem testBit_flags_of_keyword {k : String} (hk : keywords[j]? = some k) (ws : List String) :
    (flags ws).testBit j = true ↔ ∃ s ∈ ws, s.toLower = k := by
  simp only [testBit_flags, hk, Option.some.injEq, eq_comm (a := k)]

/-- Keywords are listed in lower case. -/
theorem toLower_keyword (hs : s ∈ keywords) : s.toLower = s := by
  revert s
  decide +kernel

/-- Of the bits of an integer, those that have keywords come back. -/
theorem testBit_flags_names (n : Int) (j : Nat) :
    (flags (names n)).testBit j = true ↔ j < keywords.length ∧ n.testBit j = true := by
  rw [testBit_flags]
  constructor
  · rintro ⟨s, hs, hj⟩
    obtain ⟨i, hi, hn⟩ := mem_names.mp hs
    rw [toLower_keyword (mem_of_getElem? hi)] at hj
    obtain rfl := keywords_index hi hj
    exact ⟨(List.getElem?_eq_some_iff.mp hi).1, hn⟩
  · rintro ⟨hj, hn⟩
    have hword : keywords[j]? = some keywords[j] := List.getElem?_eq_getElem hj
    refine ⟨keywords[j], mem_names.mpr ⟨j, hword, hn⟩, ?_⟩
    rw [toLower_keyword (getElem_mem hj), hword]

/-- An integer comes back where all its bits have keywords. -/
theorem flags_names {n : Nat} (h : n < 2 ^ keywords.length) : flags (names n) = n := by
  refine Nat.eq_of_testBit_eq fun j => Bool.eq_iff_iff.mpr ((testBit_flags_names n j).trans ?_)
  refine ⟨And.right, fun hj => ⟨?_, hj⟩⟩
  by_contra hge
  have hsmall : n < 2 ^ j := lt_of_lt_of_le h (Nat.pow_le_pow_right (by omega) (by omega))
  rw [testBit_lt_two_pow hsmall] at hj
  cases hj

/-- Integers and lists of keywords stand for each other: an integer comes back without the bits that stand for nothing,
and a list of words as the keywords that occur in it, in any case of their letters. -/
theorem flags_and_names (n : Int) (ws ws' : List String) : (flags (names n) : Int) = Int.land n 0x3FFFFF ∧
    (flags ws = flags ws' ↔ ∀ k ∈ keywords, (∃ s ∈ ws, s.toLower = k) ↔ ∃ s ∈ ws', s.toLower = k) ∧
    flags (ws ++ ws') = flags ws ||| flags ws' ∧
    names (flags ws) = keywords.filter fun k => ws.any (·.toLower == k) := by
  refine ⟨eq_of_testBit_eq fun j => ?_, ⟨fun h k hk => ?_, fun h => ?_⟩, ?_, ?_⟩
  · have hmask : Int.testBit 0x3FFFFF j = decide (j < 22) := testBit_two_pow_sub_one 22 j
    rw [Int.testBit_land, hmask, Bool.eq_iff_iff, Bool.and_comm, Bool.and_eq_true, decide_eq_true_eq]
    exact testBit_flags_names n j
  · obtain ⟨j, hj⟩ := getElem?_of_mem hk
    rw [← testBit_flags_of_keyword hj, h, testBit_flags_of_keyword hj]
  · refine Nat.eq_of_testBit_eq fun j => Bool.eq_iff_iff.mpr ?_
    cases hj : keywords[j]? with
    | none => simp [testBit_flags, hj]
    | some k =>
      rw [testBit_flags_of_keyword hj, testBit_flags_of_keyword hj]
      exact h k (mem_of_getElem? hj)
  · refine Nat.eq_of_testBit_eq fun j => Bool.eq_iff_iff.mpr ?_
    simp only [Nat.testBit_or, Bool.or_eq_true, testBit_flags, mem_append, or_and_right, exists_or]
  · have hpick : ∀ p ∈ keywords.zipIdx, (if Int.testBit (flags ws) p.2 then some p.1 else none)
        = Option.guard (fun k => ws.any (·.toLower == k)) p.1 := by
      intro p hp
      have hbit := testBit_flags_of_keyword (mem_zipIdx_iff_getElem?.mp hp) ws
      change (if (flags ws).testBit p.2 = true then some p.1 else none) = _
      simp [Option.guard, hbit]
    rw [names_eq, filterMap_congr hpick, ← filterMap_eq_filter]
    conv_rhs => rw [← zipIdx_map_fst 0 keywords, filterMap_map]
    rfl

/-- Names are keywords. -/
theorem isKeyword_of_mem_names (h : s ∈ names n) : isKeyword s = true := by
  obtain ⟨i, hi, -⟩ := mem_names.mp h
  rw [isKeyword, contains_iff_mem]
  exact mem_of_getElem? hi

/-- Flags other than zero have a name. -/
theorem names_ne_nil {n : Nat} (h : n < 2 ^ keywords.length) (hpos : n ≠ 0) : names n ≠ [] := by
  intro hnil
  have hflags := flags_names h
  rw [hnil] at hflags
  exact hpos hflags.symm

/-- A keyword is a word of its own. -/
theorem isBare_of_isKeyword (h : isKeyword s = true) : IsBare s := by
  have all : ∀ s ∈ keywords, IsBare s := by decide
  exact all s (contains_iff_mem.mp h)

end Access

/-- The keywords are split off up to the first word that is none. -/
theorem Reader.splitAccess_append {ks : List String} (hks : ∀ s ∈ ks, Access.isKeyword s = true)
    {w : String} (hw : Access.isKeyword w = false) (rest : List String) :
    splitAccess (ks ++ w :: rest) = some (ks, w :: rest) := by
  induction ks with
  | nil => simp [splitAccess, hw]
  | cons k ks ih =>
    rw [cons_append, splitAccess, if_pos (hks k mem_cons_self), ih fun s hs => hks s (mem_cons_of_mem _ hs)]
    rfl

end Dalvik
