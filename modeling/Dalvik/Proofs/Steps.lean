import Dalvik.Proofs.Outcome
import Dalvik.Reader.Run

/-!
# Single steps of reading

The outcomes of the steps that every statement is made of: passing words of the current line, looking at
the stack of open constructs, delivering events, and moving to the next line. A session is written with
all of its parts, so that the equations evaluate whole statements.
-/

namespace Dalvik

open Text Read

variable {ν σ : Type}

/-- The lines that are left of a source. -/
abbrev Lines : Type := List (Option String)

/-- The constructs that are open, innermost first. -/
abbrev Slots (ν : Type) : Type := List (Slot ν)

theorem Line.cutWords_ok {sep : List Char} (hsep : sep ≠ []) (q : Scan) (s : List Char) :
    ∃ ws, cutWords sep q s = .ok ws := by
  have hne : sep.isEmpty = false := by simpa using hsep
  fun_induction cutWords sep q s with
  | case1 q => exact ⟨_, rfl⟩
  | case2 q he => simp [hne] at he
  | case3 q he => simp [hne] at he
  | case4 q he => simp [hne] at he
  | case5 q c rest _ _ ih =>
    obtain ⟨ws, hws⟩ := ih
    exact ⟨_, by rw [hws]; rfl⟩
  | case6 q c rest _ _ _ ih => exact ih
  | case7 q c rest _ _ _ _ ih => exact ih
  | case8 q c rest _ _ _ _ ih =>
    obtain ⟨ws, hws⟩ := ih
    exact ⟨_, by rw [hws]; rfl⟩
  | case9 q c rest _ ih => exact ih

theorem Line.splitWords_ok (s : String) : ∃ ws, splitWords " " s = .ok ws := by
  obtain ⟨ws, hws⟩ := @cutWords_ok " ".toList (by decide) .start s.toList
  exact ⟨ws.map String.ofList, by rw [splitWords, hws]; rfl⟩

theorem Line.ofString_ok (s : String) : ∃ l, ofString s = .ok l := by
  rcases h : cutComment (dropStart isBlank (dropEnd isBlank s.toList)) with _ | ⟨front, comment, rest⟩
  · simp only [ofString, h]
    exact ⟨_, by rw [(splitWords_ok _).choose_spec]; rfl⟩
  · simp only [ofString, h]
    exact ⟨_, by rw [(splitWords_ok _).choose_spec]; rfl⟩

theorem Line.splitWords_cleaned {text : String} {l : Line} (h : ofString text = .ok l) :
    splitWords " " l.cleaned = .ok l.words := by
  rcases hcut : cutComment (dropStart isBlank (dropEnd isBlank text.toList)) with _ | ⟨front, comment, rest⟩
  all_goals
    simp only [ofString, hcut] at h
    obtain ⟨ws, hws⟩ := splitWords_ok (String.ofList _)
    rw [hws] at h
    cases h
    exact hws

theorem Line.cleaned_ne_empty {text w : String} {l : Line} (hl : ofString text = .ok l)
    (hw : l.words.head? = some w) (hne : w ≠ "") : l.cleaned ≠ "" := by
  intro hempty
  have h := splitWords_cleaned hl
  rw [hempty] at h
  have hwords : [""] = l.words := Except.ok.inj h
  rw [← hwords] at hw
  exact hne (Option.some.inj hw).symm

theorem Cursor.reset_ok (k : Cursor) (s : String) : ∃ k', k.reset s = .ok k' := by
  unfold reset
  split
  · exact ⟨_, rfl⟩
  · obtain ⟨l, hl⟩ := Line.ofString_ok s
    exact ⟨_, by rw [hl]; rfl⟩

namespace Read

@[simp] theorem outcome_attempt {α : Type} (x : Except Fault α) (s : Session ν σ) :
    outcome (attempt x) s = (x, s) := rfl

section Words

variable (src : Source) (line? : Option Line) (l : Line) (w : String) (ws : List String) (st : Slots ν) (d : σ)

@[simp] theorem outcome_nextWord :
    outcome nextWord ⟨src, ⟨line?, w :: ws⟩, st, d⟩ = (.ok w, ⟨src, ⟨line?, ws⟩, st, d⟩) := rfl

@[simp] theorem outcome_peekWord :
    outcome peekWord ⟨src, ⟨line?, w :: ws⟩, st, d⟩ = (.ok w, ⟨src, ⟨line?, w :: ws⟩, st, d⟩) := rfl

@[simp] theorem outcome_hasWord :
    outcome hasWord ⟨src, ⟨line?, ws⟩, st, d⟩ = (.ok !ws.isEmpty, ⟨src, ⟨line?, ws⟩, st, d⟩) := rfl

@[simp] theorem outcome_currentLine :
    outcome currentLine ⟨src, ⟨some l, ws⟩, st, d⟩ = (.ok l, ⟨src, ⟨some l, ws⟩, st, d⟩) := rfl

@[simp] theorem outcome_cleaned : outcome cleaned ⟨src, ⟨some l, ws⟩, st, d⟩
      = (.ok l.cleaned.toList, ⟨src, ⟨some l, ws⟩, st, d⟩) := rfl

theorem outcome_lastWord {l : Line} {w : String} (h : l.words.getLast? = some w) :
    outcome lastWord ⟨src, ⟨some l, ws⟩, st, d⟩ = (.ok w, ⟨src, ⟨some l, ws⟩, st, d⟩) := by
  simp [lastWord, outcome_bind, Cursor.last, h]

end Words

theorem outcome_firstChar {w : String} {c : Char} (h : w.toList.head? = some c) (s : Session ν σ) :
    outcome (firstChar w) s = (.ok c, s) := by
  simp [firstChar, h]

section Stack

variable (src : Source) (k : Cursor) (slot : Slot ν) (st : Slots ν) (d : σ)

@[simp] theorem outcome_top : outcome top ⟨src, k, slot :: st, d⟩ = (.ok slot, ⟨src, k, slot :: st, d⟩) := rfl

@[simp] theorem outcome_push : outcome (push slot) ⟨src, k, st, d⟩ = (.ok (), ⟨src, k, slot :: st, d⟩) := rfl

@[simp] theorem outcome_pop : outcome pop ⟨src, k, slot :: st, d⟩ = (.ok slot, ⟨src, k, st, d⟩) := rfl

end Stack

theorem outcome_advance_nil (k : Cursor) (st : Slots ν) (d : σ) :
    outcome advance ⟨⟨[]⟩, k, st, d⟩ = (.error .endOfSource, ⟨⟨[]⟩, k, st, d⟩) := rfl

theorem outcome_advance_none (ls : Lines) (k : Cursor) (st : Slots ν) (d : σ) :
    outcome advance ⟨⟨none :: ls⟩, k, st, d⟩ = (.error .undecodable, ⟨⟨ls⟩, k, st, d⟩) := rfl

/-- Moving on takes the first line away and stands on its first word, unless it cannot be cut into
words. -/
theorem outcome_advance_some (l : String) (ls : Lines) (k : Cursor) (st : Slots ν) (d : σ) :
    outcome advance ⟨⟨some l :: ls⟩, k, st, d⟩ = match k.reset l with
      | .ok k' => (.ok l, ⟨⟨ls⟩, k', st, d⟩)
      | .error f => (.error f, ⟨⟨ls⟩, k, st, d⟩) := by
  change outcome (attempt (k.reset l) >>= fun c => do
    modify fun s => { s with cursor := c }
    pure l) ⟨⟨ls⟩, k, st, d⟩ = _
  cases k.reset l <;> rfl

/-- A line that was moved to was the first one of the source, and nothing but the place in the source
has changed. -/
theorem advance_ok {s t : Session ν σ} {l : String} (h : outcome advance s = (.ok l, t)) :
    s.source.lines = some l :: t.source.lines ∧ t.stack = s.stack ∧ t.world = s.world ∧
      s.cursor.reset l = .ok t.cursor := by
  obtain ⟨⟨ls⟩, k, st, d⟩ := s
  match ls with
  | [] => simp [outcome_advance_nil] at h
  | none :: ls => simp [outcome_advance_none] at h
  | some m :: ls =>
    rw [outcome_advance_some] at h
    split at h
    · rename_i k' hk
      obtain ⟨rfl, rfl⟩ : m = l ∧ t = ⟨⟨ls⟩, k', st, d⟩ := by simpa [eq_comm] using h
      exact ⟨rfl, rfl, rfl, hk⟩
    · simp at h

end Read

namespace Reader

variable (r : Reader ν σ)

theorem sendTo_node {n : ν} {e : Event} (h : r.host.hears n e.verb = true) :
    r.sendTo (.node n) e = r.host.deliver n e := by
  simp [sendTo, require, hears, h]

section

variable {text : String} {l : Line} (hremark : Line.isRemark text = false) (hne : text ≠ "")
  (hl : Line.ofString text = .ok l)

include hremark hne hl

theorem outcome_nextLine (ls : Lines) (k : Cursor)
    (st : Slots ν) (d : σ) :
    outcome r.nextLine ⟨⟨some text :: ls⟩, k, st, d⟩ = (.ok (), ⟨⟨ls⟩, ⟨some l, l.words⟩, st, d⟩) := by
  have hreset : k.reset text = .ok ⟨some l, l.words⟩ := by
    have : text.isEmpty = false := by simpa using hne
    simp [Cursor.reset, this, hl, Except.map]
  have hadvance := outcome_advance_some text ls k st d
  rw [hreset] at hadvance
  rw [nextLine, outcome_bind, outcome_get]
  dsimp only
  rw [nextLineWithin, bind_ok _ hadvance]
  simp [hremark]

theorem outcome_readLine (hcleaned : l.cleaned ≠ "")
    (ls : Lines) (k : Cursor) (st : Slots ν) (d : σ) :
    outcome r.readLine ⟨⟨some text :: ls⟩, k, st, d⟩ = outcome r.statement ⟨⟨ls⟩, ⟨some l, l.words⟩, st, d⟩ := by
  rw [readLine, bind_ok _ (r.outcome_nextLine hremark hne hl ls k st d)]
  simp [outcome_bind, hcleaned]

end

section Statement

variable {w : String} (ws : List String) (src : Source) (line? : Option Line)

theorem outcome_wordBound (k : Cursor) (st : Slots ν) (d : σ) : outcome (wordBound : Read ν σ Nat) ⟨src, k, st, d⟩
      = (.ok (2 * k.pending.length + 2), ⟨src, k, st, d⟩) := rfl

theorem outcome_statement_directive (hw : w.toList.head? = some '.') (st : Slots ν) (d : σ) :
    outcome r.statement ⟨src, ⟨line?, w :: ws⟩, st, d⟩
      = outcome (r.directive (2 * (w :: ws).length + 2)) ⟨src, ⟨line?, w :: ws⟩, st, d⟩ := by
  rw [statement, outcome_bind, outcome_peekWord]
  dsimp only
  rw [outcome_bind, outcome_firstChar hw]
  simp only [beq_self_eq_true, if_true]
  rw [bind_ok _ (outcome_wordBound _ _ _ _)]

theorem outcome_statement_label (hw : w.toList.head? = some ':') (st : Slots ν) (d : σ) :
    outcome r.statement ⟨src, ⟨line?, w :: ws⟩, st, d⟩ = outcome r.label ⟨src, ⟨line?, w :: ws⟩, st, d⟩ := by
  rw [statement, outcome_bind, outcome_peekWord]
  dsimp only
  rw [outcome_bind, outcome_firstChar hw]
  rfl

theorem outcome_statement_plain {c : Char} (hw : w.toList.head? = some c) (hdot : c ≠ '.')
    (hcolon : c ≠ ':') (slot : Slot ν) (st : Slots ν) (d : σ) :
    outcome r.statement ⟨src, ⟨line?, w :: ws⟩, slot :: st, d⟩
      = outcome (if r.hasShape slot .annot then r.value (2 * (w :: ws).length + 2)
          else if r.hasShape slot .method then r.instruction else throw (.invalidStatement w))
        ⟨src, ⟨line?, w :: ws⟩, slot :: st, d⟩ := by
  rw [statement, outcome_bind, outcome_peekWord]
  dsimp only
  rw [outcome_bind, outcome_firstChar hw]
  simp only [beq_iff_eq, hdot, hcolon, if_false]
  rw [outcome_bind, outcome_top]
  dsimp only
  split
  · rw [bind_ok _ (outcome_wordBound _ _ _ _)]
  · rfl

end Statement

theorem outcome_leaveField {slot : Slot ν} {name : String}
    (h : r.hasShape slot .field = false ∨ name = Keyword.annot.text ∨ name = Keyword.close.text) (src : Source)
    (k : Cursor) (st : Slots ν) (d : σ) :
    outcome (r.leaveField name) ⟨src, k, slot :: st, d⟩ = (.ok (), ⟨src, k, slot :: st, d⟩) := by
  rw [leaveField, outcome_bind]
  rcases h with h | rfl | rfl
  · simp [h]
  · simp
  · simp

end Reader

end Dalvik
