import Dalvik.Proofs.Words

/-!
# Texts in quotes as words of a line

A line is meant to keep a text in quotes together, whatever stands in it. Two things go wrong. The mark of a comment
is looked for before quotes are. And that a word is a text in quotes is noticed at the first space behind its opening
quote, so a text without a space is not known as one when its closing quote has been passed, and takes in what
follows. `Line.ofString_tokens` says that nothing else goes wrong.
-/

namespace Dalvik.Line

open Dalvik.Text List

/-- A word without white space, quotes and marks of comments, or a text in quotes. -/
inductive IsToken : String → Prop
  | word {w : String} (hne : w ≠ "") (hw : ∀ c ∈ w.toList, isBlank c = false ∧ c ≠ '"' ∧ c ≠ '#') : IsToken w
  | quoted {text : String} (htext : '"' ∉ text.toList) : IsToken (inQuotes text)

theorem IsToken.ends {w : String} (h : IsToken w) : w ≠ "" ∧ (∀ c, w.toList.head? = some c → isBlank c = false) ∧
      ∀ c, w.toList.getLast? = some c → isBlank c = false := by
  cases h with
  | word hne hw => exact ⟨hne, fun c hc => (hw c (mem_of_head? hc)).1, fun c hc => (hw c (mem_of_getLast? hc)).1⟩
  | @quoted text _ =>
    have hlast : (inQuotes text).toList.getLast? = some '"' := by simp [toList_inQuotes, getLast?_cons]
    refine ⟨fun hempty => ?_, fun c hc => ?_, fun c hc => ?_⟩
    · simpa [toList_inQuotes] using congrArg String.toList hempty
    · obtain rfl : '"' = c := by simpa [toList_inQuotes] using hc
      decide
    · obtain rfl : '"' = c := Option.some.inj (hlast.symm.trans hc)
      decide

theorem map_cons_eq_ok {x : Except Fault (List (List Char))} {v w : List Char} {ws : List (List Char)} :
    x.map (v :: ·) = .ok (w :: ws) ↔ v = w ∧ x = .ok ws := by
  cases x <;> simp [Except.map]

variable {text : String} {s : Scan}

/-- A text with a space in it is one word. -/
theorem cutWords_spaced (hs : s.Fresh) (htext : '"' ∉ text.toList)
    (hspace : ' ' ∈ text.toList) (rest : List Char) :
    ∃ t : Scan, t.Fresh ∧ cutWords [' '] s ((inQuotes text).toList ++ ' ' :: rest)
      = (cutWords [' '] t rest).map ((inQuotes text).toList :: ·) := by
  obtain ⟨t, hcurrent, hquoted, hbefore, hpassed, hcut⟩ := cutWords_quoted hs htext (' ' :: rest)
  have hcloses : t.closes = true := by simp [Scan.closes, hquoted, hbefore, hpassed, hspace]
  refine ⟨t.cut ' ', ⟨rfl, rfl⟩, ?_⟩
  rw [hcut, cutWords]
  simp [hcloses, hcurrent]

/-- A text without a space takes in what follows. -/
theorem cutWords_unspaced (hs : s.Fresh) (htext : '"' ∉ text.toList)
    (hspace : ' ' ∉ text.toList) (rest : List Char) (ws : List (List Char)) :
    cutWords [' '] s ((inQuotes text).toList ++ ' ' :: rest) ≠ .ok ((inQuotes text).toList :: ws) := by
  obtain ⟨t, hcurrent, hquoted, -, -, hcut⟩ := cutWords_quoted hs htext (' ' :: rest)
  have hcloses : t.closes = false := by simp [Scan.closes, hquoted, hspace]
  have hopening : t.opening (some ' ') = some '"' := by
    have hhead : t.word.getLast? = some '"' := by
      rw [← head?_reverse, ← Scan.current, hcurrent, toList_inQuotes]
      rfl
    rw [Scan.opening, hhead]
    rfl
  have hkeep : cutWords [' '] t (' ' :: rest) = cutWords [' '] (t.keep true ' ') rest := by
    simp [cutWords, hcloses, hopening]
  rw [hcut, hkeep]
  intro h
  obtain ⟨w, vs, hw, hfront⟩ := cutWords_head h
  obtain ⟨rfl, -⟩ := cons.inj hw
  have hlength := hfront.length_le
  have hlong : (t.keep true ' ').current = (inQuotes text).toList ++ [' '] := by
    simp [← hcurrent, Scan.current, Scan.keep]
  rw [hlong, length_append, length_singleton] at hlength
  omega

theorem cutWords_tokens_iff {ts : List String} (hne : ts ≠ []) (hts : ∀ t ∈ ts, IsToken t) (hs : s.Fresh) :
    cutWords [' '] s ([' '].intercalate (ts.map String.toList)) = .ok (ts.map String.toList) ↔
      ∀ t ∈ ts.dropLast, t.toList.head? = some '"' → ' ' ∈ t.toList := by
  induction ts generalizing s with
  | nil => exact absurd rfl hne
  | cons w ts ih =>
    have hw := hts w mem_cons_self
    cases ts with
    | nil =>
      rw [map_singleton, intercalate_singleton]
      refine iff_of_true ?_ nofun
      cases hw with
      | word _ hw => exact cutWords_last hs fun hmem => absurd (hw _ hmem).1 (by decide)
      | quoted htext => simpa using @cutWords_inQuotes s hs _ "" htext (by simp)
    | cons v vs =>
      have ih {t : Scan} (ht : t.Fresh) := ih (cons_ne_nil _ _) (fun t ht => hts t (mem_cons_of_mem _ ht)) ht
      rw [map_cons, map_cons, intercalate_cons_cons, append_assoc, singleton_append,
        ← map_cons, dropLast_cons_cons, forall_mem_cons]
      generalize [' '].intercalate ((v :: vs).map String.toList) = rest at ih ⊢
      cases hw with
      | word hne hw =>
        have hhead : w.toList.head? ≠ some '"' := fun h => (hw _ (mem_of_head? h)).2.1 rfl
        obtain ⟨t, ht, hcut⟩ := cutWords_word hs ⟨hne, fun c hc => ⟨(hw c hc).1, (hw c hc).2.2⟩, hhead⟩ rest
        rw [hcut, map_cons_eq_ok, ih ht]
        exact and_congr (iff_of_true rfl fun h => absurd h hhead) Iff.rfl
      | @quoted text htext =>
        have hmem : ' ' ∈ (inQuotes text).toList ↔ ' ' ∈ text.toList := by simp [toList_inQuotes]
        by_cases hspace : ' ' ∈ text.toList
        · obtain ⟨t, ht, hcut⟩ := cutWords_spaced hs htext hspace rest
          rw [hcut, map_cons_eq_ok, ih ht]
          exact and_congr (iff_of_true rfl fun _ => hmem.mpr hspace) Iff.rfl
        · refine iff_of_false (cutWords_unspaced hs htext hspace rest _) fun h => hspace (hmem.mp (h.1 ?_))
          simp [toList_inQuotes]

/-- A line of tokens with a space between neighbours has these words and no comment exactly if no text in quotes holds
the mark of a comment, and every one that is not the last token holds a space. -/
theorem ofString_tokens {ts : List String} (hne : ts ≠ []) (hts : ∀ t ∈ ts, IsToken t) :
    (∃ l, ofString (" ".intercalate ts) = .ok l ∧ l.words = ts ∧ l.comment? = none) ↔
      (∀ t ∈ ts, '#' ∉ t.toList) ∧ ∀ t ∈ ts.dropLast, t.toList.head? = some '"' → ' ' ∈ t.toList := by
  obtain ⟨hhead, hlast⟩ := ends_wording fun t ht => (hts t ht).ends
  have hwords : splitWords " " (" ".intercalate ts) = .ok ts ↔
      ∀ t ∈ ts.dropLast, t.toList.head? = some '"' → ' ' ∈ t.toList := by
    rw [splitWords_eq_iff rfl, String.toList_intercalate]
    exact cutWords_tokens_iff hne hts ⟨rfl, rfl⟩
  have hmark : cutComment (" ".intercalate ts).toList = none ↔ ∀ t ∈ ts, '#' ∉ t.toList := by
    have hmem := mem_wording (c := '#') (by decide) ts
    rw [cutComment]
    split
    · rename_i h
      rw [find?_eq_none_iff, hmem] at h
      exact iff_of_true rfl (by simpa using h)
    · rename_i i h
      refine iff_of_false (by simp) fun hall => ?_
      rw [find?_eq_none (by rw [hmem]; simpa using hall)] at h
      cases h
  rw [ofString, dropEnd_eq_self hlast, dropStart_eq_self hhead, ← hmark, ← hwords]
  cases hcut : cutComment (" ".intercalate ts).toList with
  | some parts =>
    refine iff_of_false ?_ fun h => by cases h.1
    rintro ⟨l, hl, -, hnone⟩
    dsimp only at hl
    cases hsplit : splitWords " " (String.ofList (parts.1 ++ parts.2.2)) with
    | error f =>
      rw [hsplit] at hl
      cases hl
    | ok ws =>
      rw [hsplit] at hl
      cases hl
      cases hnone
  | none =>
    dsimp only
    rw [String.ofList_toList]
    cases splitWords " " (" ".intercalate ts) with
    | error f => simp [Except.map]
    | ok ws => simp [Except.map]

/-- A text with spaces, a comma and no mark in front of another token. -/
theorem ofString_tokens_spaced :
    ∃ l, ofString (" ".intercalate ["const-string", "v0,", inQuotes "a b, c", inQuotes ""]) = .ok l ∧
      l.words = ["const-string", "v0,", inQuotes "a b, c", inQuotes ""] ∧ l.comment? = none := by
  refine (ofString_tokens (by simp) ?_).mpr ⟨by decide, by decide⟩
  simp only [forall_mem_cons]
  exact ⟨.word (by decide) (by decide), .word (by decide) (by decide), .quoted (by decide), .quoted (by decide), nofun⟩

/-- A text without a space takes in the word that follows, and a mark of comments in a text cuts it off. -/
theorem ofString_quoted_broken : ofString "\"a\" b" = .ok ⟨"\"a\" b", "\"a\" b", none, ["\"a\" b"]⟩ ∧
      ofString "\"a#b\"" = .ok ⟨"\"a#b\"", "\"a", some "b\"", ["\"a"]⟩ :=
  ⟨rfl, rfl⟩

end Dalvik.Line
