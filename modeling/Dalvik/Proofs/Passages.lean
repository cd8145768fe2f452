import Dalvik.Proofs.Runs
import Dalvik.Proofs.Words

/-!
# Passages of a source

A passage is a piece of text that ends at a line break or at the end of the source (`Follows`). A reader
conveys a passage if it reads its lines, whatever follows, and leaves given constructs open and a given
world behind (`Reader.Conveys`). Passages that are joined by a line break are conveyed one after another,
blank lines convey nothing, and a line of words conveys what its statement does
(`Reader.conveys_row`).
-/

namespace Dalvik

open Dalvik.Text Source List

/-- The source of a list of characters. -/
def Source.ofChars (cs : List Char) : Source :=
  .ofString (String.ofList cs)

/-- A text opens with a passage, which ends at a line break or at the end of the text. -/
def Follows (passage cs rest : List Char) : Prop :=
  cs = passage ++ '\n' :: rest ∨ cs = passage ∧ rest = []

theorem Follows.split {passage passage' cs rest : List Char} (h : Follows (passage ++ '\n' :: passage') cs rest) :
    ∃ mid, Follows passage cs mid ∧ Follows passage' mid rest := by
  rcases h with rfl | ⟨rfl, rfl⟩
  · exact ⟨passage' ++ '\n' :: rest, .inl (by simp), .inl rfl⟩
  · exact ⟨passage', .inl rfl, .inr ⟨rfl, rfl⟩⟩

namespace Source

theorem cutLines_break {row : List Char} (h : '\n' ∉ row) (line rest : List Char) :
    cutLines (· == '\n') line (row ++ '\n' :: rest)
      = (line.reverse ++ row ++ ['\n']) :: cutLines (· == '\n') [] rest := by
  induction row generalizing line with
  | nil => simp [cutLines]
  | cons c row ih =>
    have hc : c ≠ '\n' := by rintro rfl; exact h (.head _)
    rw [cons_append, cutLines, if_neg (by simpa using hc), ih fun hmem => h (.tail _ hmem)]
    simp

theorem cutLines_end {row : List Char} (h : '\n' ∉ row) (line : List Char) :
    cutLines (· == '\n') line row = if line = [] ∧ row = [] then [] else [line.reverse ++ row] := by
  induction row generalizing line with
  | nil => by_cases hl : line = [] <;> simp [cutLines, hl]
  | cons c row ih =>
    have hc : c ≠ '\n' := by rintro rfl; exact h (.head _)
    rw [cutLines, if_neg (by simpa using hc), ih fun hmem => h (.tail _ hmem)]
    simp

theorem ofChars_follows {row cs rest : List Char} (hrow : '\n' ∉ row) (hne : row ≠ []) (h : Follows row cs rest) :
    ∃ stop : List Char, (stop = ['\n'] ∨ stop = []) ∧
      ofChars cs = ⟨some (String.ofList (row ++ stop)) :: (ofChars rest).lines⟩ := by
  rcases h with rfl | ⟨rfl, rfl⟩
  · exact ⟨['\n'], .inl rfl, by simp [ofChars, ofString, cutLines_break hrow]⟩
  · exact ⟨[], .inr rfl, by simp [ofChars, ofString, cutLines_end hrow, hne, cutLines]⟩

theorem ofChars_break (rest : List Char) : ofChars ('\n' :: rest) = ⟨some "\n" :: (ofChars rest).lines⟩ := by
  simp [ofChars, ofString, cutLines]

end Source

namespace Reader

variable {ν σ : Type} (r : Reader ν σ)

/-- A passage is read whatever follows it, from some open constructs and a world to others. -/
def Conveys (passage : List Char) (st : List (Slot ν)) (d : σ) (st' : List (Slot ν)) (d' : σ) : Prop :=
  ∀ cs rest k, Follows passage cs rest → ∃ k', r.Reads ⟨.ofChars cs, k, st, d⟩ ⟨.ofChars rest, k', st', d'⟩

variable {r} {st st₁ st₂ : Slots ν} {d d₁ d₂ : σ}

theorem Conveys.append {passage passage' : List Char} (h : r.Conveys passage st d st₁ d₁)
    (h' : r.Conveys passage' st₁ d₁ st₂ d₂) :
    r.Conveys (passage ++ '\n' :: passage') st d st₂ d₂ := by
  intro cs rest k hcs
  obtain ⟨mid, hfirst, hsecond⟩ := hcs.split
  obtain ⟨k₁, hreads⟩ := h cs mid k hfirst
  obtain ⟨k₂, hreads'⟩ := h' mid rest k₁ hsecond
  exact ⟨k₂, hreads.trans hreads'⟩

theorem conveys_nil (hcopy : r.host.copy? = none) (st : Slots ν) (d : σ) : r.Conveys [] st d st d := by
  intro cs rest k hcs
  rcases hcs with rfl | ⟨rfl, rfl⟩
  · have hline : Line.ofString "\n" = .ok ⟨"", "", none, [""]⟩ := rfl
    have hnext := r.outcome_nextLine (by decide) (by decide) hline (ofChars rest).lines k st d
    refine ⟨⟨some ⟨"", "", none, [""]⟩, [""]⟩, .single ?_⟩
    rw [nil_append, ofChars_break, readLine, bind_ok _ hnext]
    simp [outcome_bind, copyLine, hcopy]
  · exact ⟨k, .refl _⟩

section Wording

variable {ws : List String} {pre post cs rest : List Char}

/-- A line of words, with spaces around it. -/
def row (pre : List Char) (ws : List String) (post : List Char) : List Char :=
  pre ++ (" ".intercalate ws).toList ++ post

theorem ofChars_row (h : IsWording ws) (hpre : ∀ c ∈ pre, c = ' ') (hpost : ∀ c ∈ post, c = ' ')
    (hcs : Follows (row pre ws post) cs rest) :
    ∃ stop : List Char, (stop = ['\n'] ∨ stop = []) ∧
      ofChars cs = ⟨some (String.ofList (row pre ws post ++ stop)) :: (ofChars rest).lines⟩ := by
  have hbreak : '\n' ∉ row pre ws post := by
    simp only [row, mem_append, not_or]
    refine ⟨⟨fun hmem => ?_, h.ends.2.2.2⟩, fun hmem => ?_⟩
    · exact absurd (hpre _ hmem) (by decide)
    · exact absurd (hpost _ hmem) (by decide)
  have hne : row pre ws post ≠ [] := fun hnil =>
    h.toList_ne_nil (append_eq_nil_iff.mp (append_eq_nil_iff.mp hnil).1).2
  exact ofChars_follows hbreak hne hcs

theorem outcome_nextLine_row (r : Reader ν σ) (h : IsWording ws) (hpre : ∀ c ∈ pre, c = ' ')
    (hpost : ∀ c ∈ post, c = ' ') (hcs : Follows (row pre ws post) cs rest) (k : Cursor)
    (st : Slots ν) (d : σ) :
    ∃ raw, outcome r.nextLine ⟨.ofChars cs, k, st, d⟩
      = (.ok (), ⟨.ofChars rest, ⟨some ⟨raw, " ".intercalate ws, none, ws⟩, ws⟩, st, d⟩) := by
  have hblank : ∀ c : Char, c = ' ' → isBlank c = true := by rintro c rfl; decide
  obtain ⟨stop, hstop, hsource⟩ := ofChars_row h hpre hpost hcs
  have hshows : Line.Shows (String.ofList (row pre ws post ++ stop)) ws := by
    rw [row, append_assoc]
    refine Line.shows_of_wording h (fun c hc => hblank c (hpre c hc)) fun c hc => ?_
    rcases mem_append.mp hc with hc | hc
    · exact hblank c (hpost c hc)
    · rcases hstop with rfl | rfl
      · obtain rfl : c = '\n' := by simpa using hc
        decide
      · cases hc
  obtain ⟨hremark, raw, hline⟩ := hshows
  have htext : String.ofList (row pre ws post ++ stop) ≠ "" := by
    intro hempty
    have hnil := congrArg String.toList hempty
    rw [String.toList_ofList] at hnil
    have hrow := (append_eq_nil_iff.mp hnil).1
    exact h.toList_ne_nil (append_eq_nil_iff.mp (append_eq_nil_iff.mp hrow).1).2
  refine ⟨raw, ?_⟩
  rw [hsource]
  exact r.outcome_nextLine hremark htext hline (ofChars rest).lines k st d

theorem outcome_readLine_row (r : Reader ν σ) (h : IsWording ws) (hpre : ∀ c ∈ pre, c = ' ')
    (hpost : ∀ c ∈ post, c = ' ') (hcs : Follows (row pre ws post) cs rest) (k : Cursor)
    (st : Slots ν) (d : σ) :
    ∃ raw, outcome r.readLine ⟨.ofChars cs, k, st, d⟩
      = outcome r.statement ⟨.ofChars rest, ⟨some ⟨raw, " ".intercalate ws, none, ws⟩, ws⟩, st, d⟩ := by
  obtain ⟨raw, hnext⟩ := outcome_nextLine_row r h hpre hpost hcs k st d
  refine ⟨raw, ?_⟩
  have hne : " ".intercalate ws ≠ "" := by
    intro hempty
    exact h.toList_ne_nil (by simp [hempty])
  rw [readLine, bind_ok _ hnext]
  simp [outcome_bind, hne]

theorem conveys_row (h : IsWording ws) (hpre : ∀ c ∈ pre, c = ' ') (hpost : ∀ c ∈ post, c = ' ')
    (hstatement : ∀ src raw, ∃ k', outcome r.statement ⟨src, ⟨some ⟨raw, " ".intercalate ws, none, ws⟩, ws⟩, st, d⟩
        = (.ok (), ⟨src, k', st₁, d₁⟩)) :
    r.Conveys (row pre ws post) st d st₁ d₁ := by
  intro cs rest k hcs
  obtain ⟨raw, hread⟩ := outcome_readLine_row r h hpre hpost hcs k st d
  obtain ⟨k', hdone⟩ := hstatement (.ofChars rest) raw
  exact ⟨k', .single (hread.trans hdone)⟩

end Wording

end Reader

end Dalvik
