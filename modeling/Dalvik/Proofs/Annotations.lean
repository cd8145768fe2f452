import Dalvik.Proofs.Fidelity
import Dalvik.Proofs.RoundTrip

/-!
# Annotations in a source

An annotation in a source has a heading, the properties of its body and an end. It is read with exactly its own calls
if its body is faithful, and otherwise these calls are never made, however far the source is read
(`AnnotationSource.read_iff_faithful`). What is made instead is known as long as no text is cut off. If the texts in
quotes of a faithful body hold no quotes, then a writer that receives the calls of the body writes a text that is read
as these calls again.
-/

namespace Dalvik

open Dalvik.Text Reader Desk Document List

/-! ### Bodies that are written and read again -/

namespace Properties

/-- A word, or a text in quotes that holds no quotes. -/
def Scalar.IsPlain : Scalar → Prop
  | word _ _ => True
  | quote s _ => '"' ∉ s.toList

/-- No text in quotes holds quotes. -/
def IsPlain : Properties → Prop
  | done => True
  | value _ v rest => v.1.IsPlain ∧ rest.IsPlain
  | list _ _ _ items rest => (∀ x ∈ items, x.IsPlain) ∧ rest.IsPlain
  | constant _ _ _ _ rest => rest.IsPlain
  | nested _ _ _ body rest => body.IsPlain ∧ rest.IsPlain

theorem Scalar.IsPlain.isQuotable {s : String} {h : '\n' ∉ s.toList} (hs : (Scalar.quote s h).IsPlain)
    (hmark : '#' ∉ (Scalar.quote s h).text.toList) : IsQuotable s := by
  intro c hc
  refine ⟨?_, ?_, ?_⟩
  · rintro rfl
    exact hs hc
  · rintro rfl
    exact hmark (by simp [Scalar.text, inQuotes, hc])
  · rintro rfl
    exact h hc

theorem told_value {name : { s : String // isEntryName s = true }} {v : Scalar} (hv : v.IsValue) (hplain : v.IsPlain)
    (hmark : '#' ∉ v.text.toList) (hbrace : '\x7b' ∉ v.text.toList) :
    Told .annot (.value (.text name.1) (.text v.text)) := by
  cases v with
  | word s hs =>
    have hword : isEntryWord s = true := by
      simp only [isEntryWord, Bool.and_eq_true, decide_eq_true_eq, bne_iff_ne, Bool.not_eq_true', contains_eq_mem,
        decide_eq_false_iff_not]
      exact ⟨⟨hs, hv.1⟩, hbrace⟩
    exact .entry (.value name (.plain s hword))
  | quote s hs =>
    have hinner : '\x7b' ∉ s.toList := fun hmem => hbrace (by simp [Scalar.text, inQuotes, hmem])
    exact .entry (.value name (.quote s ⟨hplain.isQuotable hmark, hinner⟩))

theorem exists_words {xs : List Scalar} (hplain : ∀ x ∈ xs, x.IsPlain)
    (hxs : ∀ x ∈ xs, '#' ∉ x.text.toList ∧ ',' ∉ x.text.toList ∧ '\x7d' ∉ x.text.toList) :
    ∃ ws : List (Word (isElementWord · = true) fun _ => True), ws.map (·.text) = xs.map (·.text) := by
  induction xs with
  | nil => exact ⟨[], rfl⟩
  | cons x xs ih =>
    obtain ⟨ws, hws⟩ := ih (fun y hy => hplain y (.tail _ hy)) fun y hy => hxs y (.tail _ hy)
    obtain ⟨hmark, hcomma, hbrace⟩ := hxs x mem_cons_self
    have hx := hplain x mem_cons_self
    cases x with
    | word s hs =>
      have hword : isElementWord s = true := by
        simp only [isElementWord, Bool.and_eq_true, decide_eq_true_eq, bne_iff_ne]
        exact ⟨⟨⟨hs, fun h => hbrace (mem_of_head? h)⟩, fun h => hbrace (mem_of_getLast? h)⟩,
          fun h => hcomma (mem_of_getLast? h)⟩
      exact ⟨.plain s hword :: ws, by rw [map_cons, hws]; rfl⟩
    | quote s hs =>
      exact ⟨.quote s ⟨hx.isQuotable hmark, trivial⟩ :: ws, by rw [map_cons, hws]; rfl⟩

variable {b : Properties} (h : b.Faithful) (hplain : b.IsPlain)

include h hplain

theorem Faithful.sound : b.script.Sound .annot false := by
  induction b with
  | done => trivial
  | value name v rest ih =>
    exact ⟨told_value v.2 hplain.1 h.1.1 h.1.2.1, .inr rfl, ih h.2 hplain.2⟩
  | list name left right items rest ih =>
    obtain ⟨⟨hne, hitems⟩, hrest⟩ := h
    obtain ⟨ws, hws⟩ := exists_words hplain.1 hitems
    refine ⟨?_, .inr rfl, ih hrest hplain.2⟩
    cases ws with
    | nil => exact absurd (map_eq_nil_iff.mp hws.symm) hne
    | cons w ws =>
      rw [← hws]
      exact .entry (.array name w ws)
  | constant => cases h
  | nested => cases h

theorem Faithful.read_writeIn (indent : Int) (d₀ : Desk)
    (label : String) (st : Slots Listener) {d : Desk} (hd : d.declined = []) (k : Cursor) :
    ∃ code d₁ d' k', outcome (b.script.writeIn .annot indent) d₀ = (.ok code, d₁) ∧
      outcome (b.script.conclude (.recorder .annot label)) d = (.ok (), d') ∧
      reader.Reads ⟨.ofChars code.toList, k, taped .annot label st, d⟩ ⟨⟨[]⟩, k', st, d'⟩ := by
  have hsound := h.sound hplain
  obtain ⟨d₁, hwrite⟩ := hsound.writable.outcome_writeIn indent d₀
  obtain ⟨d₂, hdrive, -, hall⟩ := hsound.conveys indent label st hd
  obtain ⟨s, hs, hdeeper, hstop, hend⟩ := @conveys_close .annot (by decide)
  have hlines : Listing.closingLines .annot (Listener.closingOf .annot) indent = [Sheet.margin indent ++ s.text] := by
    simp [Listing.closingLines, hs, Listing.Statement.line, hdeeper, hstop]
  have hlast : reader.ConveysAll [Sheet.margin indent ++ s.text] (taped .annot label st) d₂ st (d₂.hear label .close) :=
    .cons (by simpa using hend (Sheet.margin indent).toList (margin_blank _) label st d₂) (.nil _ _)
  obtain ⟨k', hreads⟩ := reads_of_conveysAll (hall.append hlast) k
  rw [hlines] at hwrite
  refine ⟨_, d₁, d₂.hear label .close, k', hwrite, ?_, hreads⟩
  rw [Script.conclude, bind_ok _ hdrive]
  rfl

end Properties

/-! ### Whole annotations -/

/-- An annotation in a source. -/
structure AnnotationSource where
  flags : List { k : String // Access.isKeyword k = true }
  type : TypeName
  body : Properties

namespace AnnotationSource

/-- The words of the heading. -/
def headingWords (a : AnnotationSource) : List String :=
  Listing.directive .annot :: (a.flags.map (·.1) ++ [a.type.1])

/-- The end of an annotation. -/
def endWords : List String :=
  [Listing.directive .close, Keyword.annot.text]

/-- The lines of an annotation, without the white space around them. -/
def texts (a : AnnotationSource) : List String :=
  " ".intercalate a.headingWords :: (a.body.texts ++ [" ".intercalate endWords])

/-- The call of the heading. -/
def event (a : AnnotationSource) : Event :=
  .annot (.int (Access.flags (a.flags.map (·.1)))) (.text a.type.1)

/-- The calls that an annotation stands for. -/
def script (a : AnnotationSource) : Script :=
  .nest a.event a.body.script .done

/-- The calls that a reader makes. -/
def heard (a : AnnotationSource) : Script :=
  .nest a.event a.body.heard .done

variable {outer : Shape} {label raw : String} {st : Slots Listener} {d d' : Desk} (a : AnnotationSource)

theorem isKeyword_flags : ∀ k ∈ a.flags.map (·.1), Access.isKeyword k = true := forall_mem_map.mpr fun x _ => x.2

theorem isWording_headingWords : IsWording a.headingWords :=
  isWording_heading a.isKeyword_flags .annot (.inl (isBare_typeName a.type.2))

theorem ends_headingWords (hears : outer.hears .annot = true) (a : AnnotationSource) (hd : d.declined = []) :
    Ends raw a.headingWords a.headingWords (taped outer label st) d reader.statement
      (.node (.recorder .annot (Construct.annot.label d)) :: taped outer label st)
      (d.hear label a.event) := by
  refine .directive .annot (by decide) rfl (by decide) (.inr (.inl rfl)) (.atLineEnd (.passKeyword .annot ?_))
  refine .accessFlags a.isKeyword_flags (isKeyword_typeName a.type.2) (.bind (fun src => Read.outcome_peekWord ..) ?_)
  refine .checkDescriptor (Descriptor.isDescriptor_typeName a.type.2) (.bind (fun src => Read.outcome_top ..) ?_)
  have hopens : Listener.opens a.event.verb = some (Construct.annot.sort, .annot) := rfl
  exact .open (e := a.event) hears hopens hd (.of_outcome fun src => rfl)

theorem ends_endWords :
    Ends raw endWords endWords (taped .annot label st) d reader.statement st (d.hear label .close) :=
  .close (by decide) rfl fun src k => outcome_sendTo src k st d rfl

theorem reads_heard {a : AnnotationSource} (ha : a.body.Legible) (hears : outer.hears .annot = true) (label : String)
    (st : Slots Listener) (hd : d.declined = []) : ReadsAs a.texts a.heard outer label st d := by
  have hend : IsWording endWords := ⟨(isBare_directive _).1, .inl (by decide)⟩
  refine .nest (c := .annot) hd hears rfl (fun l hl => takes_wording a.isWording_headingWords hl
    fun raw => ends_headingWords hears a hd) (Properties.reads_heard ha _ _ (by simp [hd])) ?_ fun d hd => .done hd
  exact fun l hl inner d => takes_wording hend hl fun raw => ends_endWords

theorem drive_script (hears : outer.hears .annot = true) (label : String) (hd : d.declined = []) :
    ∃ d₁ d', outcome (a.body.script.drive (.recorder .annot (Construct.annot.label d))) (d.hear label a.event)
        = (.ok (), d₁) ∧ d' = d₁.hear (Construct.annot.label d) .close ∧
      outcome (a.script.drive (.recorder outer label)) d = (.ok (), d') := by
  have hopens : Listener.opens a.event.verb = some (Construct.annot.sort, .annot) := rfl
  obtain ⟨d₁, hbody, -⟩ := a.body.drive_script (Construct.annot.label d) (d := d.hear label a.event) (by simp [hd])
  refine ⟨d₁, _, hbody, rfl, ?_⟩
  rw [Construct.label] at hbody
  rw [script, Script.drive, bind_ok _ (outcome_visit_recorder d hears), handedOver_of_opens hopens hd, bind_ok _ hbody]
  rfl

theorem not_suffix_of_not_faithful {a : AnnotationSource} (ha : ¬ a.body.Faithful) (hears : outer.hears .annot = true)
    (hst : ∀ slot ∈ st, Recorded slot) (hd : d.declined = [])
    (hdrive : outcome (a.script.drive (.recorder outer label)) d = (.ok (), d')) {ls : List String}
    (hls : Forall₂ Line.Carries ls a.texts) {rest : Lines} {k : Cursor} {t : Session Listener Desk}
    (ht : reader.Reads ⟨⟨ls.map some ++ rest⟩, k, taped outer label st, d⟩ t) :
    ¬ d'.notes <:+ t.world.notes := by
  obtain ⟨d₁, _, hbody, rfl, hscript⟩ := a.drive_script hears label hd
  obtain rfl : _ = d' := (Prod.mk.inj (hscript.symm.trans hdrive)).2
  obtain ⟨l, ls, hl, htail, rfl⟩ := forall₂_cons_right_iff.mp hls
  have hfront := forall₂_take_append ls a.body.texts _ htail
  have hlines : ls.map some ++ rest
      = (ls.take a.body.texts.length).map some ++ ((ls.drop a.body.texts.length).map some ++ rest) := by
    rw [← append_assoc, ← map_append, take_append_drop]
  obtain ⟨k', hread⟩ := (takes_wording a.isWording_headingWords hl fun raw =>
    ends_headingWords hears a hd).line (ls.map some ++ rest) k
  have hstack : ∀ slot ∈ taped outer label st, Recorded slot := by
    intro slot hslot
    rcases mem_cons.mp hslot with rfl | hslot
    · exact fun n hn => ⟨outer, label, by cases hn; rfl⟩
    · exact hst slot hslot
  obtain ⟨hsuffix, -⟩ := suffix_drive (by simp [hd]) hbody
  refine not_suffix_of_line hread (hsuffix.trans (suffix_hear _ _ _)) (fun u hu h => ?_) ht
  rw [hlines] at hu
  exact Properties.not_suffix_of_not_faithful ha hstack (by simp [hd]) hbody hfront hu ((suffix_hear _ _ _).trans h)

/-- An annotation is read with exactly its own calls if its body is faithful, and then, without quotes inside of
quotes, its calls can be written and read again; otherwise these calls are never made. As long as no text is cut off
the calls that are made are the ones that are heard. -/
theorem read_iff_faithful (a : AnnotationSource) (hears : outer.hears .annot = true) (label : String)
    (hst : ∀ slot ∈ st, Recorded slot) (hd : d.declined = []) {ls : List String}
    (hls : Forall₂ Line.Carries ls a.texts) (rest : List (Option String)) (k : Cursor) :
    ∃ d', outcome (a.script.drive (.recorder outer label)) d = (.ok (), d') ∧
      (a.body.Faithful → ∃ k', reader.Reads ⟨⟨ls.map some ++ rest⟩, k, .node (.recorder outer label) :: st, d⟩
        ⟨⟨rest⟩, k', .node (.recorder outer label) :: st, d'⟩) ∧
      (¬ a.body.Faithful → ∀ t, reader.Reads ⟨⟨ls.map some ++ rest⟩, k, .node (.recorder outer label) :: st, d⟩ t →
        ¬ d'.notes <:+ t.world.notes) ∧
      (a.body.Legible → ∃ d'' k', outcome (a.heard.drive (.recorder outer label)) d = (.ok (), d'') ∧
        reader.Reads ⟨⟨ls.map some ++ rest⟩, k, .node (.recorder outer label) :: st, d⟩
          ⟨⟨rest⟩, k', .node (.recorder outer label) :: st, d''⟩) ∧
      (a.body.Faithful → a.body.IsPlain → ∀ (indent : Int) (d₀ : Desk) (label : String) (st : List (Slot Listener))
        (k : Cursor), ∃ code d₁ d' k', outcome (a.body.script.writeIn .annot indent) d₀ = (.ok code, d₁) ∧
          outcome (a.body.script.conclude (.recorder .annot label)) d = (.ok (), d') ∧
          reader.Reads ⟨.ofChars code.toList, k, .node (.recorder .annot label) :: st, d⟩ ⟨⟨[]⟩, k', st, d'⟩) := by
  obtain ⟨-, d', -, -, hdrive⟩ := a.drive_script hears label hd
  refine ⟨d', hdrive, fun ha => ?_, fun ha t ht => not_suffix_of_not_faithful ha hears hst hd hdrive hls ht,
    fun ha => ?_, fun ha hplain indent d₀ label st k => ha.read_writeIn hplain indent d₀ label st hd k⟩
  · obtain ⟨hlegible, heq⟩ := ha.heard_eq
    obtain ⟨d'', hheard, -, hreads⟩ := reads_heard hlegible hears label st hd
    rw [heard, heq, ← script, hdrive] at hheard
    obtain rfl : d' = d'' := (Prod.mk.inj hheard).2
    exact hreads ls hls rest k
  · obtain ⟨d'', hheard, -, hreads⟩ := reads_heard ha hears label st hd
    obtain ⟨k', hread⟩ := hreads ls hls rest k
    exact ⟨d'', k', hheard, hread⟩

/-- An annotation with a number and a list of a text and a word. -/
def settings : AnnotationSource where
  flags := [⟨"runtime", by decide⟩]
  type := ⟨"LA;", by decide⟩
  body := .value ⟨"n", by decide⟩ ⟨.word "0x1" (by decide), by decide, by decide⟩
    (.list ⟨"xs", by decide⟩ 1 1 [.quote "a b" (by decide), .word "c" (by decide)] .done)

theorem read_settings :
    ∃ d' k', outcome (settings.script.drive (.recorder .field "field#1")) (empty []) = (.ok (), d') ∧
      reader.Reads ⟨⟨[some "  .annotation runtime LA;\n", some "    n = 0x1\n", some "    xs = \x7b \"a b\", c \x7d\n",
          some "  .end annotation\n", none]⟩, .start,
          [.node (.recorder .field "field#1"), .node (.recorder .classDef "class#0")], empty []⟩
        ⟨⟨[none]⟩, k', [.node (.recorder .field "field#1"), .node (.recorder .classDef "class#0")], d'⟩ ∧
      ∃ code d₁ d₂ k₂, outcome (settings.body.script.writeIn .annot 1) (empty []) = (.ok code, d₁) ∧
        outcome (settings.body.script.conclude (.recorder .annot "annotation#0")) (empty []) = (.ok (), d₂) ∧
        reader.Reads ⟨.ofChars code.toList, .start, [.node (.recorder .annot "annotation#0")], empty []⟩
          ⟨⟨[]⟩, k₂, [], d₂⟩ := by
  have hfaithful : settings.body.Faithful :=
    ⟨⟨by decide, by decide, rfl⟩, ⟨by decide, by decide⟩, trivial⟩
  have hplain : settings.body.IsPlain := ⟨trivial, by simp [Properties.Scalar.IsPlain], trivial⟩
  have hcarries : ∀ {l t : String} (n : Nat), l = String.ofList (replicate n ' ' ++ t.toList ++ ['\n']) →
      Line.Carries l t :=
    fun n hl => ⟨replicate n ' ', ['\n'], Properties.replicate_blank n, by decide, hl⟩
  have hlines : Forall₂ Line.Carries ["  .annotation runtime LA;\n", "    n = 0x1\n",
      "    xs = \x7b \"a b\", c \x7d\n", "  .end annotation\n"] settings.texts :=
    .cons (hcarries 2 (by decide)) (.cons (hcarries 4 (by decide)) (.cons (hcarries 4 (by decide))
      (.cons (hcarries 2 (by decide)) .nil)))
  have hrecorded : ∀ slot ∈ [Slot.node (Listener.recorder .classDef "class#0")], Recorded slot := by
    rintro _ (_ | ⟨_, ⟨⟩⟩) n ⟨⟩
    exact ⟨.classDef, "class#0", rfl⟩
  have hears : Shape.field.hears Verb.annot = true := rfl
  obtain ⟨d', hdrive, hreads, -, -, hagain⟩ :=
    read_iff_faithful settings hears "field#1" hrecorded (d := empty []) rfl hlines [none] .start
  obtain ⟨k', hread⟩ := hreads hfaithful
  exact ⟨d', k', hdrive, hread, hagain hfaithful hplain 1 _ _ _ _⟩

/-- The names of the constants that were told. -/
def constantNames (d : Desk) : List String :=
  d.notes.filterMap fun
    | .heard _ (.enumConst (.text name) _ _ _) _ => some name
    | _ => none

/-- The name of a constant is lost: the constant is told under the rest of its line. -/
theorem constant_loses_name : constantNames (outcome (reader.visit
        (.text ".class public LA;\n.annotation runtime LB;\nn = .enum LC;->D:LC;\n.end annotation\n")
        (some (.recorder .classDef "class#0"))) ⟨⟨[]⟩, .start, [], empty []⟩).2.world = [" = .enum LC;->D:LC;"] ∧
      constantNames (outcome ((Script.tell (.classDef (.text "LA;") (.int 1)) (.nest (.annot (.int 0x100000) (.text "LB;"))
          (.tell (.enumConst (.text "n") (.text "LC;") (.text "D") (.text "LC;")) .done)
          .done)).conclude (.recorder .classDef "class#0")) (empty [])).2 = ["n"] := by
  constructor
  · decide +kernel
  · decide +kernel

end AnnotationSource

end Dalvik
