import Dalvik.Proofs.Signatures
import Mathlib.Data.List.DropRight

/-!
# A line and its words

The words of a line partition it: with the separators between them they are the line, and a separator stays inside a
word only if the word opens with a quote (`Line.splitWords_partition`). A line is its text without the white space
around it and without its comment, and what is left of it to pass is a plain list of words with a place in it
(`Cursor.reset_is_cursor`). It makes no difference that a line is read one word ahead (`Lookahead.answers_toCursor`).
-/

namespace Dalvik

open Dalvik.Text List

variable {c : Char} {p : Char → Bool}

/-! ### Trimming -/

namespace Text

theorem mem_of_mem_dropBoth {s : List Char} (hc : c ∈ dropBoth p s) : c ∈ s := by
  rw [dropBoth, dropEnd, mem_reverse] at hc
  have hmem := (dropWhile_sublist p).mem hc
  exact (dropWhile_sublist p).mem (mem_reverse.mp hmem)

theorem dropEnd_keep (hc : p c = false) (front s : List Char) :
    dropEnd p (front ++ c :: s) = front ++ c :: dropEnd p s := by
  rw [dropEnd, dropEnd, reverse_append, reverse_cons, append_assoc, dropWhile_append]
  by_cases hempty : (s.reverse.dropWhile p).isEmpty
  · simp [hc]
  · rw [if_neg hempty]
    simp

theorem mem_intercalate {sep w : String} {ws : List String} (hw : w ∈ ws) (hc : c ∈ w.toList) :
    c ∈ (sep.intercalate ws).toList := by
  induction ws with
  | nil => cases hw
  | cons v vs ih =>
    cases vs with
    | nil =>
      obtain rfl := mem_singleton.mp hw
      simpa using hc
    | cons u us =>
      rw [String.intercalate_cons_cons, String.toList_append, String.toList_append]
      rcases mem_cons.mp hw with rfl | hw
      · exact mem_append_left _ (mem_append_left _ hc)
      · exact mem_append_right _ (ih hw)

variable (s : List Char)

theorem dropEnd_cons_of_pos (hc : p c = true) (s : List Char) :
    dropEnd p (c :: s) = if dropEnd p s = [] then [] else c :: dropEnd p s := by
  rw [dropEnd, dropEnd, reverse_cons, dropWhile_append]
  by_cases hnil : s.reverse.dropWhile p = []
  · simp [hnil, hc]
  · simp [hnil]

theorem dropStart_dropEnd : dropStart p (dropEnd p s) = dropBoth p s := by
  induction s with
  | nil => rfl
  | cons c s ih =>
    by_cases hc : p c = true
    · have hstart : dropBoth p (c :: s) = dropBoth p s := by
        rw [dropBoth, dropStart, dropWhile_cons_of_pos hc]
        rfl
      rw [hstart, ← ih, dropEnd_cons_of_pos hc]
      split
      · rename_i hnil
        rw [hnil]
      · rw [dropStart, dropWhile_cons_of_pos hc]
        rfl
    · have hfalse : p c = false := by simpa using hc
      have hend : dropEnd p (c :: s) = c :: dropEnd p s := dropEnd_keep hfalse [] s
      rw [dropBoth, hend, dropStart, dropStart, dropWhile_cons_of_neg hc, dropWhile_cons_of_neg hc, hend]

theorem dropEnd_dropEnd : dropEnd p (dropEnd p s) = dropEnd p s := by
  rw [dropEnd, dropEnd, reverse_reverse, dropWhile_idempotent]

theorem dropBoth_dropEnd : dropBoth p (dropEnd p s) = dropBoth p s := by
  rw [← dropStart_dropEnd, dropEnd_dropEnd, dropStart_dropEnd]

end Text

/-! ### Cutting -/

namespace Line

variable {text : String} {ws : List (List Char)} {rest : List Char}

theorem opens_of_cutWords {s : Scan} (h : cutWords [c] s rest = .ok ws)
    (hs : s.quoted = true ∨ c ∈ s.word → s.word.getLast? = some '"') : ∀ w ∈ ws, c ∈ w → w.head? = some '"' := by
  -- the invariant: a word that is known to be quoted, or that holds a separator, opens with a quote
  induction rest generalizing s ws with
  | nil =>
    obtain rfl : [s.current] = ws := by simpa [cutWords] using h
    simpa [Scan.current] using fun hmem => hs (.inr hmem)
  | cons d rest ih =>
    rcases cutWords_cons_ok h with ⟨b, h, hkept⟩ | ⟨rfl, vs, hvs, rfl⟩
    · refine ih h fun hopen => ?_
      have hopening : (s.keep b d).word.getLast? = s.opening (some d) := by
        simp [Scan.keep, Scan.opening, getLast?_cons]
      rw [hopening]
      by_cases hlast : s.word.getLast? = some '"'
      · simp [Scan.opening, hlast]
      · refine (hkept ?_).resolve_left fun hquoted => hlast (hs (.inl hquoted))
        rcases hopen with hb | hmem
        · exact .inr hb
        · exact .inl ((mem_cons.mp hmem).resolve_right fun hmem => hlast (hs (.inr hmem))).symm
    · refine forall_mem_cons.mpr ⟨by simpa [Scan.current] using fun hmem => hs (.inr hmem), ih hvs ?_⟩
      simp [Scan.cut]

/-- The words of a line partition it. With the separators between them they are the line again, a word that opens with
no quote has no separator in it, and a line without quotes is cut at every separator. -/
theorem splitWords_partition (sep : Char) (s : String) :
    ∃ ws, splitWords (.singleton sep) s = .ok ws ∧ (String.singleton sep).intercalate ws = s ∧
      (∀ w ∈ ws, w.toList.head? ≠ some '"' → sep ∉ w.toList) ∧
      ('"' ∉ s.toList → ws.map String.toList = s.toList.splitOn sep) := by
  have hsep := String.toList_singleton sep
  obtain ⟨vs, hvs⟩ := @cutWords_ok [sep] (cons_ne_nil _ _) .start s.toList
  obtain ⟨ws, rfl⟩ : ∃ ws : List String, vs = ws.map String.toList := ⟨vs.map String.ofList, by simp [Function.comp_def]⟩
  have hjoin : (String.singleton sep).intercalate ws = s := by
    rw [← String.toList_inj, String.toList_intercalate, hsep]
    simpa [Scan.current, Scan.start] using intercalate_cutWords hvs
  have hopens (w : String) (hw : w ∈ ws) : sep ∈ w.toList → w.toList.head? = some '"' :=
    opens_of_cutWords hvs (by simp [Scan.start]) _ (mem_map_of_mem hw)
  refine ⟨ws, (splitWords_eq_iff hsep).mpr hvs, hjoin, fun w hw hhead hmem => hhead (hopens w hw hmem), fun hquote => ?_⟩
  obtain ⟨v, us, hne, -⟩ := cutWords_head hvs
  rw [← hjoin, String.toList_intercalate, hsep, splitOn_intercalate]
  · rw [forall_mem_map]
    intro w hw hmem
    exact hquote (hjoin ▸ mem_intercalate hw (mem_of_head? (hopens w hw hmem)))
  · rw [hne]
    exact cons_ne_nil _ _

theorem takeWhile_ne_append {front : List Char} (h : c ∉ front) (back : List Char) :
    (front ++ c :: back).takeWhile (· != c) = front := by
  rw [takeWhile_append_of_pos fun d hd => bne_iff_ne.mpr (ne_of_mem_of_not_mem hd h)]
  simp

theorem cutComment_append {a b : List Char} (ha : '#' ∉ a) (hb : '\n' ∉ b) :
    ∃ comment, cutComment (a ++ '#' :: b) = some (dropEnd isBlank a, comment, []) := by
  have hfind : find? ['#'] (a ++ '#' :: b) = some a.length := find?_append ha b
  have hpre : dropEnd isBlank a <+: a := by
    rw [dropEnd, ← reverse_suffix, reverse_reverse]
    exact dropWhile_suffix _
  obtain ⟨blanks, hblanks⟩ := hpre
  have hrest : (a ++ '#' :: b).drop (dropEnd isBlank a).length = blanks ++ '#' :: b := by
    have htext : a ++ '#' :: b = dropEnd isBlank a ++ (blanks ++ '#' :: b) := by
      rw [← append_assoc, hblanks]
    rw [htext]
    exact drop_left
  have htake := takeWhile_ne_append (fun hc => ha (by rw [← hblanks]; exact mem_append_right _ hc)) b
  have hend : ('#' :: b).dropWhile (· != '\n') = [] := by
    rw [dropWhile_eq_nil_iff]
    intro c hc
    rw [bne_iff_ne]
    rintro rfl
    exact hb (by simpa using hc)
  refine ⟨blanks ++ ('#' :: b).takeWhile (· != '\n'), ?_⟩
  rw [cutComment, hfind]
  simp only [take_left, hrest, htake, drop_left, hend]

/-- A trimmed text without its comment: what stands in front of the first mark, without white space behind it. -/
def uncommented (t : List Char) : List Char :=
  if '#' ∈ t then dropEnd isBlank (t.takeWhile (· != '#')) else t

theorem ofString_line (hline : '\n' ∉ text.toList) : ∃ l, ofString text = .ok l ∧
    l.cleaned.toList = uncommented (dropBoth isBlank text.toList) ∧
    (l.comment?.isSome = true ↔ '#' ∈ dropBoth isBlank text.toList) := by
  have hbreak : '\n' ∉ dropBoth isBlank text.toList := fun hmem => hline (mem_of_mem_dropBoth hmem)
  unfold ofString
  dsimp only
  rw [dropStart_dropEnd]
  generalize dropBoth isBlank text.toList = t at hbreak
  by_cases hmark : '#' ∈ t
  · obtain ⟨front, back, rfl, hfront⟩ := eq_append_cons_of_mem hmark
    obtain ⟨comment, hcut⟩ := cutComment_append hfront fun hmem => hbreak (mem_append_right _ (mem_cons_of_mem _ hmem))
    obtain ⟨ws, hws⟩ := splitWords_ok (String.ofList (dropEnd isBlank front ++ []))
    rw [hcut]
    dsimp only
    rw [hws]
    exact ⟨_, rfl, by simp [uncommented, takeWhile_ne_append hfront], by simp⟩
  · obtain ⟨ws, hws⟩ := splitWords_ok (String.ofList t)
    rw [cutComment, find?_eq_none hmark]
    dsimp only
    rw [hws]
    exact ⟨_, rfl, by simp [uncommented, hmark], by simp [hmark]⟩

end Line

/-! ### Passing -/

namespace Cursor

/-- What can be asked of a cursor. -/
inductive Query where
  | next | peek | hasNext | last

/-- The answer to a query, and the cursor behind it. -/
def ask (k : Cursor) : Query → Except Fault (String ⊕ Bool) × Cursor
  | .next => match k.next with
    | .ok (w, k') => (.ok (.inl w), k')
    | .error f => (.error f, k)
  | .peek => (k.peek.map .inl, k)
  | .hasNext => (.ok (.inr k.hasNext), k)
  | .last => (k.last.map .inl, k)

/-- The answers to queries, one after another. -/
def answers (k : Cursor) : List Query → List (Except Fault (String ⊕ Bool))
  | [] => []
  | q :: qs => (k.ask q).1 :: answers (k.ask q).2 qs

/-- The answers of a plain list of words with a place in it, which only passing a word moves. -/
def plainAnswers (ws : List String) : Nat → List Query → List (Except Fault (String ⊕ Bool))
  | _, [] => []
  | i, .next :: qs => match ws[i]? with
    | some w => .ok (.inl w) :: plainAnswers ws (i + 1) qs
    | none => .error .lineExhausted :: plainAnswers ws i qs
  | i, .peek :: qs => (ws[i]?.elim (.error .lineExhausted) (.ok ∘ .inl)) :: plainAnswers ws i qs
  | i, .hasNext :: qs => .ok (.inr (i < ws.length)) :: plainAnswers ws i qs
  | i, .last :: qs => (ws.getLast?.elim (.error .noElement) (.ok ∘ .inl)) :: plainAnswers ws i qs

theorem answers_eq (l : Line) (i : Nat) (qs : List Query) :
    answers ⟨some l, l.words.drop i⟩ qs = plainAnswers l.words i qs := by
  have hhead (i : Nat) : l.words[i]? = (l.words.drop i).head? := head?_drop.symm
  induction qs generalizing i with
  | nil => rfl
  | cons q qs ih =>
    cases q with
    | next =>
      have hrest := ih (i + 1)
      rw [← tail_drop] at hrest
      simp only [answers, plainAnswers, ask, next, hhead, ← ih i]
      cases h : l.words.drop i with
      | nil => rfl
      | cons w ws =>
        rw [h] at hrest
        exact congrArg (_ :: ·) hrest
    | peek =>
      simp only [answers, plainAnswers, ask, peek, hhead, ← ih i]
      cases l.words.drop i <;> rfl
    | hasNext =>
      have hnext : (!(l.words.drop i).isEmpty) = decide (i < l.words.length) := by
        rw [Bool.eq_iff_iff]
        simp
      simp only [answers, plainAnswers, ask, hasNext, hnext, ih]
    | last =>
      simp only [answers, plainAnswers, ask, last, ih, Option.bind_some]
      cases l.words.getLast? <;> rfl

/-- A line is a cursor over its words. Standing on any line or on none, a cursor that moves to a text without a line
break stands on the text without the white space around it and without its comment, knows of a comment exactly if there
is a mark in the text, and from then on answers all queries, in any order, like the plain list of the line's words. -/
theorem reset_is_cursor (k : Cursor) {text : String} (hne : text ≠ "") (hline : '\n' ∉ text.toList) :
    ∃ k' l ws, k.reset text = .ok k' ∧ k'.line? = some l ∧
      l.cleaned = String.ofList (Line.uncommented (dropBoth isBlank text.toList)) ∧
      (l.comment?.isSome = true ↔ '#' ∈ dropBoth isBlank text.toList) ∧
      Line.splitWords " " l.cleaned = .ok ws ∧ ∀ qs, k'.answers qs = plainAnswers ws 0 qs := by
  obtain ⟨l, hl, hcleaned, hcomment⟩ := Line.ofString_line hline
  refine ⟨⟨some l, l.words⟩, l, l.words, ?_, rfl, ?_, hcomment, Line.splitWords_cleaned hl, answers_eq l 0⟩
  · rw [reset, if_neg (by simpa using hne), hl]
    rfl
  · rw [← hcleaned, String.ofList_toList]

/-- A line of which one word was passed is left for one with a comment. -/
theorem reset_is_cursor_remarked :
    let k : Cursor := ⟨some ⟨"a \"b", "a \"b", none, ["a", "\"b"]⟩, ["\"b"]⟩
    "  nop  # x\t" ≠ "" ∧ '\n' ∉ "  nop  # x\t".toList ∧ ∃ k' l ws, k.reset "  nop  # x\t" = .ok k' ∧ k'.line? = some l ∧
      l.cleaned = "nop" ∧ l.comment?.isSome = true ∧ Line.splitWords " " "nop" = .ok ws ∧
      ∀ qs, k'.answers qs = plainAnswers ws 0 qs := by
  intro k
  obtain ⟨k', l, ws, hreset, hk, hcleaned, hcomment, hws, hqs⟩ :=
    @reset_is_cursor k "  nop  # x\t" (by decide) (by decide)
  have hnop : l.cleaned = "nop" := hcleaned.trans (by decide)
  exact ⟨by decide, by decide, k', l, ws, hreset, hk, hnop, hcomment.mpr (by decide), hnop ▸ hws, hqs⟩

end Cursor

/-! ### Reading ahead -/

namespace Lookahead

open Cursor (Query)

/-- The answer to a query, and what the line is read to behind it. -/
def ask (a : Lookahead) : Query → Except Fault (String ⊕ Bool) × Lookahead
  | .next => match a.next with
    | .ok (w, b) => (.ok (.inl w), b)
    | .error f => (.error f, a)
  | .peek => (a.peek.map .inl, a)
  | .hasNext => (.ok (.inr a.hasNext), a)
  | .last => (a.toCursor.last.map .inl, a)

/-- The answers to queries, one after another. -/
def answers (a : Lookahead) : List Query → List (Except Fault (String ⊕ Bool))
  | [] => []
  | q :: qs => (a.ask q).1 :: answers (a.ask q).2 qs

/-- The word that is held stands in front of those that are still to be taken. -/
theorem toCursor_holding (line? : Option Line) (ws : List String) : (holding line? ws).toCursor = ⟨line?, ws⟩ := by
  cases ws <;> rfl

/-- To read a new line ahead is to move the cursor to it. -/
theorem reset_toCursor (a : Lookahead) (text : String) : a.toCursor.reset text = (a.reset text).map toCursor := by
  rw [Cursor.reset, reset]
  split
  · rw [Except.map, toCursor_holding]
    rfl
  · cases Line.ofString text with
    | error f => rfl
    | ok l => exact congrArg Except.ok (toCursor_holding (some l) l.words).symm

/-- One query is answered alike, and leaves the two at the same word. -/
theorem ask_toCursor (a : Lookahead) (q : Query) : a.toCursor.ask q = ((a.ask q).1, (a.ask q).2.toCursor) := by
  obtain ⟨line?, head?, behind, ends⟩ := a
  cases head? with
  | none =>
    obtain rfl := ends rfl
    cases q <;> rfl
  | some w =>
    cases q with
    | next =>
      have hholding := toCursor_holding line? behind
      exact Prod.ext rfl hholding.symm
    | peek | hasNext | last => rfl

/-- A line that is read one word ahead answers all queries, in any order, like the cursor that passes its words. -/
theorem answers_toCursor (a : Lookahead) (qs : List Query) : a.toCursor.answers qs = a.answers qs := by
  induction qs generalizing a with
  | nil => rfl
  | cons q qs ih => rw [Cursor.answers, answers, ask_toCursor, ih]

end Lookahead

end Dalvik
