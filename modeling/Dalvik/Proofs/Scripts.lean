import Dalvik.Proofs.Entries

/-!
# Scripts and their listings

The lines of a script say what a writer makes of its calls: one line for a call that opens nothing, and
one block for a construct, with its heading, its own lines and its end. A script is sound if every call is
one whose text can be read back and no statement has to be written while a construct still waits to
become part of the sheet. The calls of a class document are sound (`Document.sound_content`), and what is
read from the lines of a sound script is what a recorder hears when the calls are made to it
(`Script.Sound.conveys`).
-/

namespace Dalvik

open Dalvik.Text Reader Listing Sheet

/-! ### Passages one after another -/

namespace Reader

variable {ν σ : Type} {r : Reader ν σ}

/-- Passages are conveyed one after another. -/
inductive ConveysAll (r : Reader ν σ) : List String → List (Slot ν) → σ → List (Slot ν) → σ → Prop
  | nil (st : List (Slot ν)) (d : σ) : ConveysAll r [] st d st d
  | cons {b : String} {bs : List String} {st st₁ st₂ : List (Slot ν)} {d d₁ d₂ : σ} :
      r.Conveys b.toList st d st₁ d₁ → ConveysAll r bs st₁ d₁ st₂ d₂ → ConveysAll r (b :: bs) st d st₂ d₂

variable {bs bs' : List String} {st st₁ st₂ : Slots ν} {d d₁ d₂ : σ}

theorem ConveysAll.append (h : r.ConveysAll bs st d st₁ d₁) (h' : r.ConveysAll bs' st₁ d₁ st₂ d₂) :
    r.ConveysAll (bs ++ bs') st d st₂ d₂ := by
  induction h with
  | nil st d => exact h'
  | cons hb _ ih => exact .cons hb (ih h')

theorem ConveysAll.conveys (h : r.ConveysAll bs st d st₁ d₁) (hne : bs ≠ []) :
    r.Conveys ("\n".intercalate bs).toList st d st₁ d₁ := by
  induction h with
  | nil st d => exact absurd rfl hne
  | @cons b bs st st₁ st₂ d d₁ d₂ hb hbs ih =>
    cases hbs with
    | nil => simpa using hb
    | @cons b' bs' _ st₃ _ _ d₃ _ hb' hbs' =>
      have := hb.append (ih (by simp))
      simpa  using this

end Reader

/-! ### Lines -/

namespace Listing

/-- A statement as a line of a sheet. -/
def Statement.line (s : Statement) (indent : Int) : String :=
  margin (indent + s.deeper) ++ s.text ++ s.stop

/-- The end of a construct, as lines of its sheet. -/
def closingLines (shape : Shape) (closing : Keyword) (indent : Int) : List String :=
  (closingStatement shape closing).toList.map (·.line indent)

end Listing

namespace Script

/-- The lines of a script on the sheet of a construct. -/
def lines : Script → Shape → Int → List String
  | done, _, _ => []
  | tell e rest, shape, indent =>
    match statement shape indent e with
    | .ok (some s) => s.line indent :: rest.lines shape indent
    | _ => rest.lines shape indent
  | nest e body rest, shape, indent =>
    match heading shape indent e with
    | .ok (some h) =>
      let inside := (margin h.indent ++ h.text) :: (body.lines h.shape h.indent
        ++ closingLines h.shape h.closing h.indent)
      (margin indent ++ "\n".intercalate inside ++ Sheets.blockStop ⟨h.shape, false, none⟩) :: rest.lines shape indent
    | _ => rest.lines shape indent

open Desk in
/-- Whether every call can be read back, and every statement follows the constructs before it: these are
put on the sheet when it is settled. The flag says whether a construct waits. -/
def Sound : Script → Shape → Bool → Prop
  | done, _, _ => True
  | tell e rest, shape, waits =>
    Told shape e ∧ (settles shape e.verb = true ∨ waits = false) ∧ rest.Sound shape false
  | nest e body rest, shape, _ =>
    (∃ inner sort, Opened shape inner sort e ∧ inner ≠ .classDef ∧ body.Sound inner false) ∧ rest.Sound shape true

end Script

/-! ### Documents are sound -/

namespace Document

open Desk

theorem sound_entries (xs : List Entry) : (Script.tells (xs.map (·.event)) .done).Sound .annot false := by
  induction xs with
  | nil => trivial
  | cons x xs ih => exact ⟨.entry x, .inr rfl, ih⟩

theorem Annotation.sound (a : Annotation) {shape : Shape} (hears : shape.hears .annot = true) (waits : Bool)
    {rest : Script} (hrest : rest.Sound shape true) : (a.script rest).Sound shape waits :=
  ⟨⟨.annot, "annotation", .annot hears a, by decide, sound_entries a.entries⟩, hrest⟩

theorem sound_annotations (as : List Annotation) (waits : Bool) :
    (as.foldr Annotation.script .done).Sound .field waits := by
  induction as generalizing waits with
  | nil => trivial
  | cons a as ih => exact a.sound rfl waits (ih true)

theorem Step.settles (s : Step) : settles .method s.event.verb = true := by
  cases s <;> rfl

theorem sound_parts (ps : List Part) (waits : Bool) : (ps.foldr Part.script .done).Sound .method waits := by
  induction ps generalizing waits with
  | nil => trivial
  | cons p ps ih =>
    cases p with
    | annotation a => exact a.sound rfl waits (ih true)
    | step s => exact ⟨.step s, .inl s.settles, ih false⟩

theorem sound_members (ms : List Member) (waits : Bool) : (ms.foldr Member.script .done).Sound .classDef waits := by
  induction ms generalizing waits with
  | nil => trivial
  | cons m ms ih =>
    cases m with
    | annotation a => exact a.sound rfl waits (ih true)
    | field flags name type value? annotations =>
      exact ⟨⟨.field, "field", .field flags name type value?, by decide, sound_annotations annotations false⟩, ih true⟩
    | method flags name parameters result body =>
      exact ⟨⟨.method, "method", .method flags name parameters result, by decide, sound_parts body false⟩, ih true⟩

theorem sound_content (doc : Document) : doc.content.Sound .classDef false := by
  unfold content
  induction doc.details with
  | nil => exact sound_members doc.members false
  | cons x xs ih => exact ⟨.detail x, .inr rfl, ih⟩

end Document

/-! ### Reading -/

namespace Desk

section Recorder

variable {shape : Shape} {label : String} {e : Event} (d : Desk)

theorem outcome_visit_recorder (he : shape.hears e.verb = true) :
    outcome ((Listener.recorder shape label).visit e) d = (.ok (Listener.handedOver d e), d.hear label e) := by
  have hears : (Listener.recorder shape label).hears e.verb = true := by
    simpa [Listener.hears, Listener.shape?] using he
  rw [Listener.visit, if_pos hears]
  exact outcome_record label e d

@[simp] theorem hear_declined : (d.hear label e).declined = d.declined := by
  unfold hear
  split <;> rfl

end Recorder

end Desk

open Desk in
theorem conveys_block {m : String} {first : String} {bs : List String} {i : Insert}
    {st st' : Slots Listener} {d d' : Desk} (h : reader.ConveysAll ((m ++ first) :: bs) st d st' d') :
    reader.Conveys (m ++ "\n".intercalate (first :: bs) ++ Sheets.blockStop i).toList st d st' d' := by
  have hblock := h.conveys (by simp)
  rw [← String.intercalate_cons_append, String.toList_append]
  unfold Sheets.blockStop
  split
  · exact hblock.append (conveys_nil reader_copy? st' d')
  · simpa using hblock

open Desk in
theorem Script.Sound.conveys {sc : Script} {shape : Shape} {waits : Bool} (h : sc.Sound shape waits) (indent : Int)
    (label : String) (st : Slots Listener) {d : Desk} (hd : d.declined = []) :
    ∃ d', outcome (sc.drive (.recorder shape label)) d = (.ok (), d') ∧ d'.declined = [] ∧
      reader.ConveysAll (sc.lines shape indent) (taped shape label st) d (taped shape label st) d' := by
  induction sc generalizing shape waits indent label st d with
  | done => exact ⟨d, rfl, hd, .nil _ _⟩
  | tell e rest ih =>
    obtain ⟨htold, -, hrest⟩ := h
    obtain ⟨-, s, hs, hconveys⟩ := htold.written indent
    obtain ⟨d', hdrive, hd', hall⟩ := ih hrest indent label st (d := d.hear label e) (by simp [hd])
    refine ⟨d', ?_, hd', ?_⟩
    · rw [Script.drive, bind_ok _ (outcome_visit_recorder d htold.hears)]
      exact hdrive
    · rw [Script.lines, hs]
      refine .cons ?_ hall
      have := hconveys (margin (indent + s.deeper)).toList (margin_blank _) label st d
      simpa [Statement.line] using this
  | nest e body rest ihbody ihrest =>
    obtain ⟨⟨inner, sort, hopened, hinner, hbody⟩, hrest⟩ := h
    obtain ⟨h, hheading, rfl, hclosing, hconveys⟩ := hopened.written indent
    obtain ⟨d₁, hdrive, hd₁, hall⟩ := ihbody hbody h.indent s!"{sort}#{d.recorders}"
      (taped shape label st) (d := d.hear label e) (by simp [hd])
    obtain ⟨d₂, hdrive₂, hd₂, hall₂⟩ := ihrest hrest indent label st
      (d := d₁.hear s!"{sort}#{d.recorders}" .close) (by simp [hd₁])
    have hclose : h.shape.hears Verb.close = true := by cases h.shape <;> rfl
    refine ⟨d₂, ?_, hd₂, ?_⟩
    · rw [Script.drive, bind_ok _ (outcome_visit_recorder d hopened.hears),
        handedOver_of_opens hopened.opens hd, bind_ok _ hdrive,
        bind_ok _ (outcome_visit_recorder d₁ hclose)]
      exact hdrive₂
    · rw [Script.lines, hheading]
      refine .cons (conveys_block ?_) hall₂
      obtain ⟨s, hs, hdeeper, hstop, hend⟩ := conveys_close hinner
      have hlines : closingLines h.shape h.closing h.indent = [margin h.indent ++ s.text] := by
        simp [closingLines, hclosing, hs, Statement.line, hdeeper, hstop]
      have hfirst := hconveys (margin indent ++ margin h.indent).toList (by
        rw [String.toList_append]
        intro c hc
        exact (List.mem_append.mp hc).elim (margin_blank _ c) (margin_blank _ c)) label st d hd
      have hlast := hend (margin h.indent).toList (margin_blank _) s!"{sort}#{d.recorders}" (taped shape label st) d₁
      rw [hlines]
      refine .cons (by simpa using hfirst) (hall.append (.cons ?_ (.nil _ _)))
      simpa using hlast

end Dalvik
