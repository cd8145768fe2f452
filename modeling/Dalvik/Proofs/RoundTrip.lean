import Dalvik.Proofs.Unread
import Dalvik.Proofs.Writing

/-!
# Reading undoes writing

A class document is written by calling a writer with the calls of the document, and its listing can be
read. Every document has a listing (`Document.outcome_write`): its heading, and the lines of its calls.
The main statement, `Document.read_write`, says that reading the listing makes the calls of the document to
the root again: what the root and the listeners that it hands over have heard is the same as if the calls
had been made to the root directly, and nothing but the root is left open.
-/

namespace Dalvik

open Reader Sheets

variable {k : Cursor} {label : String} {d d' : Desk} {bs : List String}

namespace Document

open Desk

/-- The listing of a document. -/
def listing (doc : Document) (indent : Int) : String :=
  "\n".intercalate ((classHeading doc).line indent :: doc.content.lines .classDef indent)

variable (doc : Document)

theorem writable_script : doc.script.Writable .classDef false :=
  ⟨⟨rfl, fun _ => ⟨rfl, classHeading doc, rfl⟩⟩, .inr rfl, (sound_content doc).writable⟩

theorem outcome_write (indent : Int) (d : Desk) : ∃ d', outcome (doc.write indent) d = (.ok (doc.listing indent), d') :=
  (writable_script doc).outcome_write indent d

theorem follows_heading (indent : Int) (bs : List String) :
    Follows ((Sheet.margin indent).toList ++ (classHeading doc).text.toList)
      ("\n".intercalate ((classHeading doc).line indent :: bs)).toList ("\n".intercalate bs).toList := by
  have hline : ((classHeading doc).line indent).toList
      = (Sheet.margin indent).toList ++ (classHeading doc).text.toList := by
    simp [Listing.Statement.line, classHeading]
  rw [← hline]
  cases bs with
  | nil => exact .inr ⟨by simp, by simp⟩
  | cons b bs => exact .inl (by simp [String.intercalate_cons_cons])

theorem outcome_visit_heading (indent : Int) (bs : List String) (src : Source) (k : Cursor)
    (label : String) (d : Desk) :
    ∃ k', outcome (reader.visit (.text ("\n".intercalate ((classHeading doc).line indent :: bs)))
        (some (.recorder .classDef label))) ⟨src, k, [], d⟩
      = outcome reader.readBody ⟨.ofChars ("\n".intercalate bs).toList, k', [.node (.recorder .classDef label)],
          d.hear label doc.header⟩ := by
  have hfollows := follows_heading doc indent bs
  generalize "\n".intercalate ((classHeading doc).line indent :: bs) = code at hfollows ⊢
  have hpresent : (Input.text code).isPresent = true := by
    rw [Input.isPresent, Bool.not_eq_true', ← Bool.not_eq_true, String.isEmpty_iff]
    rintro rfl
    rcases hfollows with h | ⟨h, -⟩ <;> simp [classHeading, Listing.directive] at h
  have hsource : (Input.text code).source = .ok (.ofChars code.toList) := by
    rw [Source.ofChars, String.ofList_toList]
    rfl
  obtain ⟨k', hopen⟩ := outcome_openClass doc (margin_blank indent) hfollows k label [] d
  have hbegin : outcome (reader.begin (.text code) (.recorder .classDef label)) ⟨src, k, [], d⟩ = (.ok (), _) :=
    (reader.outcome_begin hpresent hsource rfl).trans hopen
  exact ⟨k', by rw [reader.visit_eq, bind_ok _ hbegin]⟩

theorem outcome_readBody_of_stops {src : Source} {f : Fault} {u : Session Listener Desk}
    (h : reader.Stops ⟨src, k, [.node (.recorder .classDef label)], d⟩ f u) :
    outcome reader.readBody ⟨src, k, [.node (.recorder .classDef label)], d⟩
      = if f.endsReading then outcome (reader.tell .close) u
        else if f = .lineExhausted then (.error .unexpectedEndOfLine, u) else (.error f, u) := by
  refine (governs .standard false).outcome_readBody (fun slot hslot n hn => ?_) h
  obtain rfl := List.mem_singleton.mp hslot
  cases hn
  exact ⟨.classDef, label, rfl⟩

theorem reads_of_conveysAll {ν σ : Type} {r : Reader ν σ} {st st' : Slots ν} {d d' : σ}
    (h : r.ConveysAll bs st d st' d') (k : Cursor) :
    ∃ k', r.Reads ⟨.ofChars ("\n".intercalate bs).toList, k, st, d⟩ ⟨.ofChars [], k', st', d'⟩ := by
  by_cases hne : bs = []
  · subst hne
    cases h
    exact ⟨k, .refl _⟩
  · exact h.conveys hne _ [] k (.inr ⟨rfl, rfl⟩)

theorem outcome_readBody_of_conveysAll {top : String} {shape : Shape} {st : Slots Listener}
    (h : reader.ConveysAll bs [.node (.recorder .classDef label)] d (taped shape top st) d') :
    ∃ k', outcome reader.readBody ⟨.ofChars ("\n".intercalate bs).toList, k, [.node (.recorder .classDef label)], d⟩
      = (.ok (), ⟨⟨[]⟩, k', taped shape top st, d'.hear top .close⟩) := by
  obtain ⟨k', hreads⟩ := reads_of_conveysAll h k
  have hend : outcome reader.readLine ⟨.ofChars [], k', taped shape top st, d'⟩
      = (.error .endOfSource, ⟨.ofChars [], k', taped shape top st, d'⟩) := rfl
  have hclose : shape.hears Event.close.verb = true := by cases shape <;> rfl
  refine ⟨k', ?_⟩
  rw [outcome_readBody_of_stops (hreads.stops ⟨_, .refl _, hend⟩)]
  exact outcome_tell _ _ st d' hclose

theorem outcome_conclude (label : String)
    (hdrive : outcome (doc.content.drive (.recorder .classDef label)) (d.hear label doc.header) = (.ok (), d')) :
    outcome (doc.script.conclude (.recorder .classDef label)) d = (.ok (), d'.hear label .close) := by
  have hheader : Shape.classDef.hears doc.header.verb = true := rfl
  rw [Script.conclude, script, Script.drive, bind_assoc, bind_ok _ (outcome_visit_recorder d hheader), bind_ok _ hdrive]
  rfl

/-- **Reading undoes writing.** Every document is written; and a reader that is given the listing makes the
calls of the document to the root, and to the listeners that these calls open, as if they had been made
directly. Every line is read, and only the root is left open. -/
theorem read_write (doc : Document) (indent : Int) (d₀ d : Desk) (src : Source) (k : Cursor) (label : String) :
    ∃ code d₁ d₂ k', outcome (doc.write indent) d₀ = (.ok code, d₁) ∧
      outcome (doc.script.conclude (.recorder .classDef label)) { d with declined := [] } = (.ok (), d₂) ∧
      outcome (reader.visit (.text code) (some (.recorder .classDef label))) ⟨src, k, [], { d with declined := [] }⟩
        = (.ok (), ⟨⟨[]⟩, k', [.node (.recorder .classDef label)], d₂⟩) := by
  obtain ⟨d₁, hwrite⟩ := outcome_write doc indent d₀
  obtain ⟨k₁, hvisit⟩ := outcome_visit_heading doc indent (doc.content.lines .classDef indent) src k label
    { d with declined := [] }
  obtain ⟨d₂, hdrive, -, hall⟩ := (sound_content doc).conveys indent label []
    (d := Desk.hear { d with declined := [] } label doc.header) (by simp)
  obtain ⟨k₂, hbody⟩ := outcome_readBody_of_conveysAll (k := k₁) hall
  exact ⟨_, d₁, _, k₂, hwrite, outcome_conclude doc label hdrive, hvisit.trans hbody⟩

end Document

end Dalvik
