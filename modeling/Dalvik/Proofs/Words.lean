import Dalvik.Proofs.Steps

/-!
# Lines that are written word by word

A line is written as words with a space between neighbours. This file says which words come back when such
a line is cut: words without white space, marks of comments and quotes in front (`IsBare`), and at the end
of the line a text in quotes, which may hold spaces (`IsQuotable`). The main statement is
`Line.shows_of_wording`: with any white space around it, a line of such words shows exactly them, and no
comment.
-/

namespace Dalvik

open Dalvik.Text

variable {w : String} {ws : List String}

-- Characters are finitely many: without this the check could run through all of them.
instance (priority := 2000) decidableForallMemChar (p : Char → Prop) [DecidablePred p] (l : List Char) :
    Decidable (∀ c ∈ l, p c) :=
  List.decidableBAll p l

/-- A word that stands outside of quotes. -/
def IsBare (w : String) : Prop :=
  w ≠ "" ∧ (∀ c ∈ w.toList, isBlank c = false ∧ c ≠ '#') ∧ w.toList.head? ≠ some '"'

instance (w : String) : Decidable (IsBare w) := inferInstanceAs (Decidable (_ ∧ _))

/-- A text that can stand in quotes. -/
def IsQuotable (s : String) : Prop :=
  ∀ c ∈ s.toList, c ≠ '"' ∧ c ≠ '#' ∧ c ≠ '\n'

instance (s : String) : Decidable (IsQuotable s) := inferInstanceAs (Decidable (∀ c ∈ s.toList, _))

/-- A text in quotes. -/
def inQuotes (s : String) : String :=
  "\"" ++ s ++ "\""

/-- A word that may end a line; a comma may stand behind a text in quotes. -/
def IsLast (w : String) : Prop :=
  IsBare w ∨ ∃ s tail, IsQuotable s ∧ (tail = "" ∨ tail = ",") ∧ w = inQuotes s ++ tail

/-- The words of a line that can be read back. -/
def IsWording : List String → Prop
  | [] => False
  | [w] => IsLast w
  | w :: ws => IsBare w ∧ IsWording ws

theorem IsBare.space_not_mem (h : IsBare w) : ' ' ∉ w.toList := by
  intro hmem
  exact absurd (h.2.1 ' ' hmem).1 (by decide)

theorem IsBare.mark_not_mem (h : IsBare w) : '#' ∉ w.toList :=
  fun hmem => (h.2.1 _ hmem).2 rfl

theorem IsBare.toList_ne_nil (h : IsBare w) : w.toList ≠ [] := by
  simpa using h.1

theorem IsWording.cons {w : String} {ws : List String} (hw : IsBare w) (hws : IsWording ws) : IsWording (w :: ws) := by
  cases ws with
  | nil => cases hws
  | cons v vs => exact ⟨hw, hws⟩

namespace Line

/-- Nothing of the current word has been passed. -/
def Scan.Fresh (s : Scan) : Prop :=
  s.word = [] ∧ s.quoted = false

theorem cutWords_keep (s : Scan) {w : List Char} (hw : ' ' ∉ w) (rest : List Char) :
    ∃ t : Scan, t.word = w.reverse ++ s.word ∧ t.quoted = s.quoted ∧
      cutWords [' '] s (w ++ rest) = cutWords [' '] t rest := by
  induction w generalizing s with
  | nil => exact ⟨s, rfl, rfl, rfl⟩
  | cons c w ih =>
    have hc : ' ' ≠ c := by rintro rfl; exact hw (.head _)
    obtain ⟨t, hword, hquoted, hcut⟩ := ih (s.keep s.quoted c) fun h => hw (.tail _ h)
    refine ⟨t, by simp [hword, Scan.keep], hquoted, ?_⟩
    rw [← hcut, List.cons_append, cutWords]
    simp [hc]

theorem cutWords_word {s : Scan} (hs : s.Fresh) {w : String} (hw : IsBare w) (rest : List Char) : ∃ t : Scan, t.Fresh ∧
      cutWords [' '] s (w.toList ++ ' ' :: rest) = (cutWords [' '] t rest).map (w.toList :: ·) := by
  obtain ⟨t, hword, hquoted, hcut⟩ := cutWords_keep s hw.space_not_mem (' ' :: rest)
  rw [hs.1] at hword
  rw [hs.2] at hquoted
  have hopening : (t.opening (some ' ') == some '"') = false := by
    obtain ⟨c, cs, hcs⟩ := List.exists_cons_of_ne_nil hw.toList_ne_nil
    have hhead := hw.2.2
    simp only [hcs, List.head?_cons, ne_eq, Option.some.injEq] at hhead
    simp [Scan.opening, hword, hcs, hhead]
  have hcurrent : t.current = w.toList := by simp [Scan.current, hword]
  refine ⟨t.cut ' ', ⟨rfl, rfl⟩, ?_⟩
  rw [hcut, cutWords]
  simp [Scan.closes, hquoted, hopening, hcurrent]

theorem cutWords_last {s : Scan} (hs : s.Fresh) {w : List Char} (hw : ' ' ∉ w) : cutWords [' '] s w = .ok [w] := by
  obtain ⟨t, hword, -, hcut⟩ := cutWords_keep s hw []
  rw [List.append_nil] at hcut
  simp [hcut, cutWords, Scan.current, hword, hs.1]

variable {ws : List (List Char)} {c sep : Char} {rest : List Char}

/-- A character is passed into the current word, or it is a separator that ends the word. A separator is passed only
into a text in quotes. -/
theorem cutWords_cons_ok {s : Scan} (h : cutWords [sep] s (c :: rest) = .ok ws) :
    (∃ b, cutWords [sep] (s.keep b c) rest = .ok ws ∧
        (c = sep ∨ b = true → s.quoted = true ∨ s.opening (some c) = some '"')) ∨
      c = sep ∧ ∃ vs, cutWords [sep] (s.cut c) rest = .ok vs ∧ ws = s.current :: vs := by
  have hcut (h : (cutWords [sep] (s.cut c) rest).map (s.current :: ·) = .ok ws) :
      ∃ vs, cutWords [sep] (s.cut c) rest = .ok vs ∧ ws = s.current :: vs := by
    cases hvs : cutWords [sep] (s.cut c) rest with
    | error f => simp [hvs, Except.map] at h
    | ok vs => exact ⟨vs, rfl, by simpa [hvs, Except.map] using h.symm⟩
  rw [cutWords] at h
  split at h
  · rename_i hc
    have hc : c = sep := (by simpa using hc : sep = c).symm
    split at h
    · exact .inr ⟨hc, hcut h⟩
    · split at h
      · exact .inl ⟨_, h, fun _ => .inr (beq_iff_eq.mp ‹_›)⟩
      · split at h
        · exact .inl ⟨_, h, fun _ => .inl ‹_›⟩
        · exact .inr ⟨hc, hcut h⟩
  · rename_i hc
    exact .inl ⟨_, h, fun hb => .inl (hb.resolve_left fun hsep => hc (by simp [hsep]))⟩

/-- The first word of the rest of a line goes on from what was passed of it. -/
theorem cutWords_head {s : Scan} (h : cutWords [sep] s rest = .ok ws) : ∃ w vs, ws = w :: vs ∧ s.current <+: w := by
  induction rest generalizing s with
  | nil => exact ⟨s.current, [], by simpa [cutWords] using h.symm, List.prefix_rfl⟩
  | cons c rest ih =>
    rcases cutWords_cons_ok h with ⟨b, h, -⟩ | ⟨-, vs, -, rfl⟩
    · obtain ⟨w, vs, rfl, hw⟩ := ih h
      exact ⟨w, vs, rfl, (List.prefix_append _ [c]).trans (by simpa [Scan.current, Scan.keep] using hw)⟩
    · exact ⟨_, vs, rfl, List.prefix_rfl⟩

/-- Nothing is lost between the words but the separators. -/
theorem intercalate_cutWords {s : Scan} (h : cutWords [sep] s rest = .ok ws) :
    [sep].intercalate ws = s.current ++ rest := by
  induction rest generalizing s ws with
  | nil =>
    obtain rfl : [s.current] = ws := by simpa [cutWords] using h
    simp
  | cons c rest ih =>
    rcases cutWords_cons_ok h with ⟨b, h, -⟩ | ⟨rfl, vs, hvs, rfl⟩
    · simp [ih h, Scan.current, Scan.keep]
    · obtain ⟨v, vs, rfl, -⟩ := cutWords_head hvs
      rw [List.intercalate_cons_cons, ih hvs]
      simp [Scan.current, Scan.cut]

theorem splitWords_eq_iff {sep : String} (hsep : sep.toList = [c]) {text : String} {ts : List String} :
    splitWords sep text = .ok ts ↔ cutWords [c] .start text.toList = .ok (ts.map String.toList) := by
  rw [splitWords, hsep]
  cases cutWords [c] .start text.toList with
  | error f => simp [Except.map]
  | ok vs =>
    simp only [Except.map, Except.ok.injEq]
    constructor
    · rintro rfl
      simp [Function.comp_def]
    · rintro rfl
      simp [Function.comp_def]

theorem words_ne_nil {text : String} {l : Line} (h : ofString text = .ok l) : l.words ≠ [] := by
  obtain ⟨w, vs, hwords, -⟩ := cutWords_head ((splitWords_eq_iff rfl).mp (splitWords_cleaned h))
  intro hnil
  simp [hnil] at hwords

theorem intercalate_words {text : String} {l : Line} (h : ofString text = .ok l) :
    " ".intercalate l.words = l.cleaned := by
  have hwords := intercalate_cutWords ((splitWords_eq_iff rfl).mp (splitWords_cleaned h))
  rwa [← String.toList_inj, String.toList_intercalate]

/-- Behind an opening quote, a space is passed into the word, and is remembered. -/
theorem cutWords_within {body : List Char} (hbody : '"' ∉ body) {s : Scan} (hopen : s.word.getLast? = some '"')
    (hquote : s.before = '"' → s.quoted = false) (rest : List Char) :
    ∃ t : Scan, t.word = body.reverse ++ s.word ∧ t.quoted = (s.quoted || body.contains ' ') ∧ s.passed ≤ t.passed ∧
      cutWords [' '] s (body ++ rest) = cutWords [' '] t rest := by
  induction body generalizing s with
  | nil => exact ⟨s, rfl, by simp, Nat.le_refl _, rfl⟩
  | cons c body ih =>
    have hne : c ≠ '"' := by rintro rfl; exact hbody (.head _)
    have hcloses : s.closes = false := by
      by_cases hb : s.before = '"'
      · simp [Scan.closes, hquote hb]
      · simp [Scan.closes, hb]
    have hrest (b : Bool) := ih (s := s.keep b c) (fun h => hbody (.tail _ h))
      (by simp [Scan.keep, List.getLast?_cons, hopen]) fun h => absurd h hne
    rw [List.cons_append, cutWords]
    by_cases hc : c = ' '
    · subst hc
      obtain ⟨t, hword, hquoted, hpassed, hcut⟩ := hrest true
      refine ⟨t, by simp [hword, Scan.keep], by simp [hquoted, Scan.keep], by simp [Scan.keep] at hpassed; omega, ?_⟩
      simpa [hcloses, Scan.opening, hopen] using hcut
    · obtain ⟨t, hword, hquoted, hpassed, hcut⟩ := hrest s.quoted
      refine ⟨t, by simp [hword, Scan.keep], ?_, by simp [Scan.keep] at hpassed; omega, ?_⟩
      · simp [hquoted, Scan.keep, Ne.symm hc]
      · simpa [Ne.symm hc] using hcut

theorem toList_inQuotes (text : String) : (inQuotes text).toList = '"' :: (text.toList ++ ['"']) := by
  simp [inQuotes]

/-- Up to its closing quote, a text in quotes is one word, which is known to be a text once it has a space. -/
theorem cutWords_quoted {s : Scan} (hs : s.Fresh) {text : String} (htext : '"' ∉ text.toList) (rest : List Char) :
    ∃ t : Scan, t.current = (inQuotes text).toList ∧ t.quoted = text.toList.contains ' ' ∧ t.before = '"' ∧
      2 ≤ t.passed ∧ cutWords [' '] s ((inQuotes text).toList ++ rest) = cutWords [' '] t rest := by
  obtain ⟨t, hword, hquoted, hpassed, hcut⟩ := cutWords_within (s := s.keep s.quoted '"') htext
    (by simp [Scan.keep, hs.1]) (fun _ => hs.2) ('"' :: rest)
  refine ⟨t.keep t.quoted '"', ?_, ?_, rfl, ?_, ?_⟩
  · simp [Scan.current, Scan.keep, hword, hs.1, toList_inQuotes]
  · simp [Scan.keep, hquoted, hs.2]
  · simp [Scan.keep] at hpassed ⊢
    omega
  · rw [toList_inQuotes, List.cons_append]
    simpa [cutWords] using hcut

theorem cutWords_inQuotes {s : Scan} (hs : s.Fresh) {text tail : String} (htext : '"' ∉ text.toList)
    (htail : ' ' ∉ tail.toList) :
    cutWords [' '] s (inQuotes text ++ tail).toList = .ok [(inQuotes text ++ tail).toList] := by
  obtain ⟨t, hcurrent, -, -, -, hcut⟩ := cutWords_quoted hs htext tail.toList
  obtain ⟨u, hword, -, hend⟩ := cutWords_keep t htail []
  rw [List.append_nil] at hend
  rw [String.toList_append, hcut, hend]
  simp [cutWords, Scan.current, hword, ← hcurrent]

theorem cutWords_wording {ws : List String} (h : IsWording ws) {s : Scan} (hs : s.Fresh) :
    cutWords [' '] s ([' '].intercalate (ws.map String.toList)) = .ok (ws.map String.toList) := by
  induction ws generalizing s with
  | nil => cases h
  | cons w ws ih =>
    cases ws with
    | nil =>
      rcases h with h | ⟨text, tail, htext, htail, rfl⟩
      · simpa using cutWords_last hs h.space_not_mem
      · have hspace : ' ' ∉ tail.toList := by rcases htail with rfl | rfl <;> decide
        rw [List.map_singleton, List.intercalate_singleton]
        exact cutWords_inQuotes hs (fun hmem => (htext '"' hmem).1 rfl) hspace
    | cons v vs =>
      obtain ⟨t, ht, hcut⟩ := cutWords_word hs h.1 ([' '].intercalate ((v :: vs).map String.toList))
      simp only [List.map_cons, List.intercalate_cons_cons, List.append_assoc, List.singleton_append]
      simp only [List.map_cons] at hcut
      rw [hcut, ← List.map_cons, ih h.2 ht]
      rfl

variable {p : Char → Bool}

theorem dropStart_append {pre text : List Char} (hpre : ∀ c ∈ pre, p c = true)
    (htext : ∀ c, text.head? = some c → p c = false) : dropStart p (pre ++ text) = text := by
  rw [dropStart, List.dropWhile_append_of_pos hpre]
  cases text with
  | nil => rfl
  | cons c cs => simp [htext c rfl]

theorem dropEnd_append {text post : List Char} (hpost : ∀ c ∈ post, p c = true)
    (htext : ∀ c, text.getLast? = some c → p c = false) : dropEnd p (text ++ post) = text := by
  rw [dropEnd, List.reverse_append]
  have h := @dropStart_append p post.reverse text.reverse (by simpa using hpost) (by simpa using htext)
  rw [dropStart] at h
  rw [h, List.reverse_reverse]

theorem dropStart_eq_self {text : List Char}
    (htext : ∀ c, text.head? = some c → p c = false) : dropStart p text = text :=
  @dropStart_append p [] text (by simp) htext

theorem dropEnd_eq_self {text : List Char}
    (htext : ∀ c, text.getLast? = some c → p c = false) : dropEnd p text = text := by
  simpa using @dropEnd_append p text [] (by simp) htext

theorem find?_eq_none_iff {s : List Char} : find? [c] s = none ↔ c ∉ s := by
  induction s with
  | nil => simp [find?]
  | cons d s ih =>
    by_cases hd : c = d
    · simp [find?, hd]
    · simp [find?, hd, ih]

theorem find?_eq_none {s : List Char} (h : c ∉ s) : find? [c] s = none := find?_eq_none_iff.mpr h

/-- A line shows words: it is no comment, and cut it gives these words and no comment. -/
def Shows (l : String) (ws : List String) : Prop :=
  isRemark l = false ∧ ∃ raw, ofString l = .ok ⟨raw, " ".intercalate ws, none, ws⟩

theorem head?_wording {w : String} (ws : List String) (hw : w ≠ "") :
    (" ".intercalate (w :: ws)).toList.head? = w.toList.head? := by
  have hne : w.toList ≠ [] := by simpa using hw
  cases ws with
  | nil => simp
  | cons v vs =>
    simp [List.head?_append, List.head?_eq_some_head hne]

end Line

/-- A line of words has the characters of the words, beside spaces. -/
theorem Line.mem_wording {c : Char} (hc : c ≠ ' ') (ws : List String) :
    c ∈ (" ".intercalate ws).toList ↔ ∃ w ∈ ws, c ∈ w.toList := by
  induction ws with
  | nil => simp
  | cons w ws ih =>
    cases ws with
    | nil => simp
    | cons v vs =>
      rw [String.intercalate_cons_cons, String.toList_append, List.mem_append, ih]
      simp [hc]

/-- A line of words begins like one of them and ends like one of them. -/
theorem Line.ends_wording {p : Char → Prop} {ws : List String} (h : ∀ w ∈ ws, w ≠ "" ∧
    (∀ c, w.toList.head? = some c → p c) ∧ ∀ c, w.toList.getLast? = some c → p c) :
    (∀ c, (" ".intercalate ws).toList.head? = some c → p c) ∧
      ∀ c, (" ".intercalate ws).toList.getLast? = some c → p c := by
  induction ws with
  | nil => exact ⟨by simp, by simp⟩
  | cons w ws ih =>
    obtain ⟨hw, hws⟩ := List.forall_mem_cons.mp h
    cases ws with
    | nil => simpa using hw.2
    | cons v vs =>
      refine ⟨by rw [head?_wording _ hw.1]; exact hw.2.1, fun c hc => (ih hws).2 c ?_⟩
      have hne : (" ".intercalate (v :: vs)).toList ≠ [] := by
        intro hnil
        have hhead := head?_wording vs (hws v List.mem_cons_self).1
        rw [hnil] at hhead
        exact (hws v List.mem_cons_self).1 (by simpa using hhead.symm)
      rwa [String.intercalate_cons_cons, String.toList_append, List.getLast?_append,
        List.getLast?_eq_some_getLast hne, Option.some_or, ← List.getLast?_eq_some_getLast hne] at hc

theorem IsLast.ends {w : String} (h : IsLast w) :
    w ≠ "" ∧ (∀ c, w.toList.head? = some c → isBlank c = false ∧ c ≠ '#') ∧
      (∀ c, w.toList.getLast? = some c → isBlank c = false) ∧ '#' ∉ w.toList ∧ '\n' ∉ w.toList := by
  rcases h with ⟨hne, hchars, -⟩ | ⟨s, tail, hs, htail, rfl⟩
  · refine ⟨hne, fun c hc => hchars c (List.mem_of_head? hc),
      fun c hc => (hchars c (List.mem_of_getLast? hc)).1,
      fun hmem => (hchars _ hmem).2 rfl, fun hmem => absurd (hchars _ hmem).1 (by decide)⟩
  · have htext : (inQuotes s ++ tail).toList = '"' :: (s.toList ++ '"' :: tail.toList) := by simp [inQuotes]
    have hfree : ∀ c, c ≠ '"' → c ≠ ',' → c ∉ s.toList → c ∉ (inQuotes s ++ tail).toList := by
      intro c hquote hcomma hnot
      rw [htext]
      rcases htail with rfl | rfl <;> simp [hquote, hcomma, hnot]
    refine ⟨fun hempty => ?_, fun c hc => ?_, fun c hc => ?_, ?_, ?_⟩
    · simp [hempty] at htext
    · rw [htext] at hc
      obtain rfl : '"' = c := by simpa using hc
      decide
    · rw [htext] at hc
      rcases htail with rfl | rfl
      · obtain rfl : '"' = c := by simpa [List.getLast?_cons] using hc
        decide
      · obtain rfl : ',' = c := by simpa [List.getLast?_cons] using hc
        decide
    · exact hfree '#' (by decide) (by decide) fun hmem => (hs _ hmem).2.1 rfl
    · exact hfree '\n' (by decide) (by decide) fun hmem => (hs _ hmem).2.2 rfl

section

variable (h : IsWording ws)

include h

theorem IsWording.exists_cons : ∃ w rest, ws = w :: rest ∧ w ≠ "" := by
  match ws, h with
  | [w], h => exact ⟨w, [], rfl, (IsLast.ends h).1⟩
  | w :: v :: vs, h => exact ⟨w, v :: vs, rfl, h.1.1⟩

theorem IsWording.toList_ne_nil : (" ".intercalate ws).toList ≠ [] := by
  obtain ⟨w, rest, rfl, hw⟩ := h.exists_cons
  intro hnil
  have hhead := Line.head?_wording rest hw
  rw [hnil] at hhead
  exact hw (by simpa using hhead.symm)

theorem IsWording.isLast : ∀ w ∈ ws, IsLast w := by
  induction ws with
  | nil => cases h
  | cons w ws ih =>
    cases ws with
    | nil => exact List.forall_mem_singleton.mpr h
    | cons v vs => exact List.forall_mem_cons.mpr ⟨.inl h.1, ih h.2⟩

theorem IsWording.ends :
    (∀ c, (" ".intercalate ws).toList.head? = some c → isBlank c = false ∧ c ≠ '#') ∧
      (∀ c, (" ".intercalate ws).toList.getLast? = some c → isBlank c = false) ∧
      '#' ∉ (" ".intercalate ws).toList ∧ '\n' ∉ (" ".intercalate ws).toList := by
  have hall (w : String) (hw : w ∈ ws) := (h.isLast w hw).ends
  have hends := Line.ends_wording (p := fun c => isBlank c = false) fun w hw =>
    ⟨(hall w hw).1, fun c hc => ((hall w hw).2.1 c hc).1, (hall w hw).2.2.1⟩
  have hmark : '#' ∉ (" ".intercalate ws).toList := by
    rw [Line.mem_wording (by decide)]
    rintro ⟨w, hw, hmem⟩
    exact (hall w hw).2.2.2.1 hmem
  refine ⟨fun c hc => ⟨hends.1 c hc, ?_⟩, hends.2, hmark, ?_⟩
  · rintro rfl
    exact hmark (List.mem_of_head? hc)
  · rw [Line.mem_wording (by decide)]
    rintro ⟨w, hw, hmem⟩
    exact (hall w hw).2.2.2.2 hmem

end

namespace Line

theorem shows_of_wording (h : IsWording ws) {pre post : List Char} (hpre : ∀ c ∈ pre, isBlank c = true)
    (hpost : ∀ c ∈ post, isBlank c = true) :
    Shows (String.ofList (pre ++ (" ".intercalate ws).toList ++ post)) ws := by
  obtain ⟨hhead, hlast, hmark, -⟩ := h.ends
  have htext := h.toList_ne_nil
  have hraw : dropEnd isBlank (pre ++ (" ".intercalate ws).toList ++ post) = pre ++ (" ".intercalate ws).toList := by
    refine dropEnd_append hpost fun c hc => hlast c ?_
    rwa [List.getLast?_append, List.getLast?_eq_some_getLast htext, Option.some_or,
      ← List.getLast?_eq_some_getLast htext] at hc
  have hcleaned : dropStart isBlank (pre ++ (" ".intercalate ws).toList) = (" ".intercalate ws).toList :=
    dropStart_append hpre fun c hc => (hhead c hc).1
  have hcut : cutComment (" ".intercalate ws).toList = none := by
    rw [cutComment, find?_eq_none hmark]
  have hwords : splitWords " " (" ".intercalate ws) = .ok ws := by
    have hcutWords := @cutWords_wording ws h .start ⟨rfl, rfl⟩
    rw [splitWords, String.toList_intercalate]
    simp only [show " ".toList = [' '] from rfl]
    rw [hcutWords]
    simp [Except.map, Function.comp_def]
  have hfirst : ((" ".intercalate ws).toList ++ post).head? = (" ".intercalate ws).toList.head? := by
    rw [List.head?_append, List.head?_eq_some_head htext, Option.some_or]
  constructor
  · rw [isRemark, String.toList_ofList, List.append_assoc, dropStart_append hpre, hfirst, List.head?_eq_some_head htext]
    · simpa using (hhead _ (List.head?_eq_some_head htext)).2
    · rw [hfirst]
      exact fun c hc => (hhead c hc).1
  · refine ⟨String.ofList (pre ++ (" ".intercalate ws).toList), ?_⟩
    simp only [ofString, String.toList_ofList, hraw, hcleaned, hcut, String.ofList_toList, hwords]
    rfl

end Line

end Dalvik
