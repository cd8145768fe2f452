import Dalvik.Proofs.Blocks

/-!
# Constructs whose end is not written

What becomes of payloads and of inner classes when a class is written and read again. A payload is looked at in a
method with any parts before and behind it, of a class with any members before and behind the method
(`Document.Scene`); inner classes are looked at in classes with any items (`Document.ClassTree`). A writer
takes the calls of a payload only if all that it has to write are texts, which the values of an array are not as
they are read (`Desk.verdict_readLine_arrayData`).
-/

namespace Dalvik

open Dalvik.Text Reader Desk Listing String Listener Sheet

/-! ### Scripts one after another -/

namespace Script

/-- The calls of a script, and then those of another one to the same listener. -/
def followedBy : Script → Script → Script
  | done, k => k
  | tell e rest, k => tell e (rest.followedBy k)
  | nest e body rest, k => nest e body (rest.followedBy k)

theorem lines_followedBy (sc k : Script) (shape : Shape) (indent : Int) :
    (sc.followedBy k).lines shape indent = sc.lines shape indent ++ k.lines shape indent := by
  induction sc with
  | done => rfl
  | tell e rest ih =>
    rw [followedBy, lines, lines]
    split <;> simp [ih]
  | nest e body rest _ ih =>
    rw [followedBy, lines, lines]
    split <;> simp [ih]

theorem Writable.followedBy {sc k : Script} {shape : Shape} {waits : Bool} (h : sc.Writable shape waits)
    (hk : ∀ waits, k.Writable shape waits) : (sc.followedBy k).Writable shape waits := by
  induction sc generalizing waits with
  | done => exact hk waits
  | tell e rest ih => exact ⟨h.1, h.2.1, ih h.2.2⟩
  | nest e body rest _ ih => exact ⟨h.1, ih h.2⟩

end Script

theorem exists_intercalate_eq (as bs : List String) (x y : String) :
    ∃ tail, "\n".intercalate (as ++ (x ++ y) :: bs) = "\n".intercalate (as ++ [x]) ++ (y ++ tail) := by
  induction as with
  | nil =>
    cases bs with
    | nil => exact ⟨"", by simp⟩
    | cons b bs =>
      exact ⟨"\n" ++ "\n".intercalate (b :: bs), by simp [intercalate_cons_cons, append_assoc]⟩
  | cons a as ih =>
    obtain ⟨tail, htail⟩ := ih
    rw [List.cons_append, List.cons_append, intercalate_cons_of_ne_nil (by simp),
      intercalate_cons_of_ne_nil (by simp), htail]
    simp [append_assoc]

theorem block_eq (m first x stop : String) (as : List String) {bs : List String} (hbs : bs ≠ []) :
    m ++ "\n".intercalate (first :: (as ++ x :: bs)) ++ stop
      = "\n".intercalate ((m ++ first) :: as ++ [x]) ++ ("\n" ++ ("\n".intercalate bs ++ stop)) := by
  have hlines : (m ++ first) :: (as ++ x :: bs) = ((m ++ first) :: as ++ [x]) ++ bs := by simp
  rw [← intercalate_cons_append, hlines, intercalate_append_of_ne_nil (by simp) hbs]
  simp [append_assoc]

/-- What a fault is reported as when it ends the reading of a source. -/
def Fault.reported (f : Fault) : Fault :=
  if f = .lineExhausted then .unexpectedEndOfLine else f

namespace Document

/-! ### Payloads in a method -/

/-- A place in a method: what comes before it in the class and in the method, and what comes behind it. -/
structure Scene where
  doc : Document
  flags : Flags
  name : { s : String // Signature.isMethodName s = true }
  parameters : List TypeName
  result : TypeName
  before : List Part
  behind : List Part
  after : List Member

namespace Scene

/-- The call that opens the method. -/
def opening (x : Scene) : Event :=
  .method (.text x.name) (.int x.flags.val) (.texts (x.parameters.map (·.1))) (.text x.result)

/-- The calls of the class, with one more at the place. -/
def script (x : Scene) (e : Event) : Script :=
  .tell x.doc.header (x.doc.content.followedBy (.nest x.opening
    ((x.before.foldr Part.script .done).followedBy (.tell e (x.behind.foldr Part.script .done)))
    (x.after.foldr Member.script .done)))

/-- Makes the calls up to the place. -/
def approach (x : Scene) (root : Listener) : Act Listener := do
  x.doc.script.drive root
  let method ← root.visit x.opening
  (x.before.foldr Part.script .done).drive method
  pure method

/-- The class is written with a call at the place; but reading the listing makes the calls up to the place and
stops there with a fault. The class and the method are left open, and the method is told its end if the fault is
one that ends the reading quietly. -/
def Lost (x : Scene) (e : Event) (f : Fault) : Prop :=
  ∀ (indent : Int) (d₀ d : Desk) (src : Source) (k : Cursor) (label : String), ∃ code d₁ method d₂ src' k',
    outcome ((x.script e).write indent) d₀ = (.ok code, d₁) ∧
    outcome (x.approach (.recorder .classDef label)) { d with declined := [] } = (.ok (.recorder .method method), d₂) ∧
    outcome (reader.visit (.text code) (some (.recorder .classDef label))) ⟨src, k, [], { d with declined := [] }⟩
      = (if f.endsReading then .ok () else .error f.reported,
          ⟨src', k', [.node (.recorder .method method), classSlot label],
            if f.endsReading then d₂.hear method .close else d₂⟩)

variable (x : Scene) {e : Event} {f : Fault}

theorem writable_script (h : Stuck e f) : (x.script e).Writable .classDef false := by
  have hopened : Opened .classDef .method "method" x.opening := .method x.flags x.name x.parameters x.result
  obtain ⟨hears, hnew, hheading⟩ := hopened.writable
  have hwritten : ∀ indent, heading .method indent e = .ok none ∧ ∃ s, statement .method indent e = .ok (some s) := by
    intro indent
    obtain ⟨hnone, s, hs, -⟩ := h.written indent
    exact ⟨hnone, s, hs⟩
  have hbody := (sound_parts x.before false).writable.followedBy (k := .tell e (x.behind.foldr Part.script .done))
    fun _ => ⟨⟨h.hears, hwritten⟩, .inl h.settles, (sound_parts x.behind false).writable⟩
  have hmethod : ∀ waits, (Script.nest x.opening ((x.before.foldr Part.script .done).followedBy
      (.tell e (x.behind.foldr Part.script .done))) (x.after.foldr Member.script .done)).Writable .classDef waits :=
    fun _ => ⟨⟨.method, hears, hnew, hheading, hbody⟩, (sound_members x.after true).writable⟩
  exact ⟨⟨rfl, fun _ => ⟨rfl, classHeading x.doc, rfl⟩⟩, .inr rfl, (sound_content x.doc).writable.followedBy hmethod⟩

/-- The lines of the class: those of the members before the method, and the method, which goes on behind the
statement of the call. -/
theorem lines_script (h : Stuck e f) (indent : Int) :
    ∃ hd s more after, heading .classDef indent x.opening = .ok (some hd) ∧ hd.shape = .method ∧
      statement .method hd.indent e = .ok (some s) ∧
      (x.script e).lines .classDef indent = (classHeading x.doc).line indent ::
        (x.doc.content.lines .classDef indent ++ ("\n".intercalate (((margin indent ++ (margin hd.indent ++ hd.text)) ::
            (x.before.foldr Part.script .done).lines .method hd.indent) ++ [s.line hd.indent]) ++ ("\n" ++ more))
          :: after) := by
  have hopened : Opened .classDef .method "method" x.opening := .method x.flags x.name x.parameters x.result
  obtain ⟨hd, hheading, hshape, hclosing, -⟩ := hopened.written indent
  obtain ⟨-, s, hs, -⟩ := h.written hd.indent
  obtain ⟨last, hlast, -⟩ := conveys_close (show Shape.method ≠ .classDef by decide)
  have hbehind : (x.behind.foldr Part.script .done).lines .method hd.indent
      ++ closingLines .method hd.closing hd.indent ≠ [] := by
    rw [hclosing, closingLines, hlast]
    simp
  have hheader : statement .classDef indent x.doc.header = .ok (some (classHeading x.doc)) := rfl
  refine ⟨hd, s, "\n".intercalate ((x.behind.foldr Part.script .done).lines .method hd.indent
    ++ closingLines .method hd.closing hd.indent) ++ Sheets.blockStop ⟨.method, false, none⟩,
    (x.after.foldr Member.script .done).lines .classDef indent, hheading, hshape, hs, ?_⟩
  rw [script, Script.lines, hheader]
  rw [Script.lines_followedBy, Script.lines, hheading]
  dsimp only
  rw [hshape, Script.lines_followedBy, Script.lines, hs]
  rw [List.append_assoc, List.cons_append, block_eq _ _ _ _ _ hbehind]

/-- **Calls that are lost.** Where reading stops in the statement of a call, the call is never made. -/
theorem lost (h : Stuck e f) : x.Lost e f := by
  intro indent d₀ d src k label
  obtain ⟨d₁, hwrite⟩ := (x.writable_script h).outcome_write indent d₀
  obtain ⟨hd, s, more, after, hheading, hshape, hs, hlines⟩ := x.lines_script h indent
  rw [hlines] at hwrite
  -- the calls up to the place are read
  obtain ⟨sort, hopened⟩ : ∃ sort, Opened .classDef .method sort x.opening :=
    ⟨_, .method x.flags x.name x.parameters x.result⟩
  obtain ⟨d₂, hcontent, hd₂, hfirst⟩ := (sound_content x.doc).conveys indent label []
    (d := hear { d with declined := [] } label x.doc.header) (by simp)
  obtain ⟨hd', hheading', -, -, hopen⟩ := hopened.written indent
  obtain rfl : hd = hd' := Option.some.inj (Except.ok.inj (hheading.symm.trans hheading'))
  obtain ⟨d₃, hbefore, -, hsecond⟩ := (sound_parts x.before false).conveys hd.indent s!"{sort}#{d₂.recorders}"
    [classSlot label] (d := d₂.hear label x.opening) (by simp [hd₂])
  -- and reading stops in the statement behind them
  obtain ⟨-, s', hs', hstuck⟩ := h.written hd.indent
  obtain rfl : s = s' := Option.some.inj (Except.ok.inj (hs.symm.trans hs'))
  have hheadingRow := hopen (margin indent ++ margin hd.indent).toList (by
    rw [toList_append]
    intro c hc
    exact (List.mem_append.mp hc).elim (margin_blank _ c) (margin_blank _ c)) label [] d₂ hd₂
  have hline := hstuck (margin (hd.indent + s.deeper)).toList (margin_blank _) s!"{sort}#{d₂.recorders}"
    [classSlot label] d₃
  have hblock := ConveysAll.stalls
    (.cons (b := margin indent ++ (margin hd.indent ++ hd.text)) (by simpa using hheadingRow) hsecond)
    (b := s.line hd.indent) (by simpa [Statement.line] using hline)
  generalize "\n".intercalate (((margin indent ++ (margin hd.indent ++ hd.text)) ::
    (x.before.foldr Part.script .done).lines .method hd.indent) ++ [s.line hd.indent]) = block at hwrite hblock
  obtain ⟨tail, htail⟩ := exists_intercalate_eq (x.doc.content.lines .classDef indent) after block ("\n" ++ more)
  obtain ⟨k₁, hvisit⟩ := outcome_visit_heading x.doc indent
    (x.doc.content.lines .classDef indent ++ (block ++ ("\n" ++ more)) :: after) src k label { d with declined := [] }
  obtain ⟨src', k', hstops⟩ := hfirst.stalls hblock (more ++ tail).toList k₁
  have htext : ("\n".intercalate (x.doc.content.lines .classDef indent ++ (block ++ ("\n" ++ more)) :: after)).toList
      = ("\n".intercalate (x.doc.content.lines .classDef indent ++ [block])).toList
        ++ '\n' :: (more ++ tail).toList := by
    rw [htail, toList_append, toList_append, toList_append, toList_append]
    rfl
  refine ⟨_, d₁, s!"{sort}#{d₂.recorders}", d₃, src', k', hwrite, ?_, ?_⟩
  · have hheader : Shape.classDef.hears x.doc.header.verb = true := rfl
    rw [approach, Document.script, Script.drive, bind_assoc, bind_ok _ (outcome_visit_recorder _ hheader),
      bind_ok _ hcontent, bind_ok _ (outcome_visit_recorder d₂ hopened.hears),
      handedOver_of_opens hopened.opens hd₂, bind_ok _ hbefore]
    rfl
  · have hclose : Shape.method.hears Event.close.verb = true := rfl
    rw [hvisit, htext, outcome_readBody_of_stops hstops]
    split
    · exact outcome_tell src' k' [classSlot label] d₃ hclose
    · unfold Fault.reported
      split <;> rfl

end Scene

end Document

/-! ### Payloads for a writer -/

namespace Literal

/-- Whether the value of a literal is a text. -/
def isText : Literal → Bool
  | .text _ => true
  | _ => false

theorem isSome_texts? (vs : List Literal) : (Datum.list (vs.map .literal)).texts?.isSome = vs.all isText := by
  have hmap : ((vs.map Datum.literal).mapM Datum.text?).isSome = vs.all isText := by
    induction vs with
    | nil => rfl
    | cons v vs ih =>
      rw [List.map_cons, List.mapM_cons, List.all_cons, ← ih]
      cases v with
      | text t => cases (vs.map Datum.literal).mapM Datum.text? <;> rfl
      | _ => rfl
  exact hmap

end Literal

namespace Desk

section Refusing

variable (i : Nat) (closing : Keyword) (d : Desk)

theorem verdict_arrayData (width values : Datum) :
    (outcome ((writer .method i closing .nobody).visit (.arrayData width values)) d).1
      = if values.texts?.isSome then .ok .nobody else .error .operandType := by
  have he : Shape.method.hears (Event.arrayData width values).verb = true := rfl
  cases hv : values.texts? with
  | some xs =>
    have hstatement : ∀ indent, ∃ s, statement .method indent (.arrayData width values) = .ok (some s) := by
      intro indent
      rw [Listing.statement, Listing.ofMethod, Listing.joined, hv]
      exact ⟨_, rfl⟩
    obtain ⟨s, hs⟩ := hstatement ((d.readied .method i (.arrayData width values)).sheets.sheet i).indent
    rw [outcome_visit_writer closing he (outcome_write_statement closing rfl hs)]
    rfl
  | none =>
    have hstatement : ∀ indent, statement .method indent (.arrayData width values) = .error .operandType := by
      intro indent
      rw [Listing.statement, Listing.ofMethod, Listing.joined, hv]
      rfl
    have hverb : (Event.arrayData width values).verb = .arrayData := rfl
    rw [outcome_visit_eq closing he, outcome_bind, outcome_write_fault closing (by rw [hverb]; decide) rfl
      (hstatement _)]
    rfl

theorem outcome_tell_node (o : Options) (copy? : Option (String → Context → Act Unit)) {l : Listener} {e : Event}
    (he : l.hears e.verb = true) (src : Source) (k : Cursor) (st : Slots Listener) :
    (outcome ((Reader.mk o (host copy?)).tell e) ⟨src, k, .node l :: st, d⟩).1
      = (outcome (l.visit e) d).1.map fun _ => () := by
  have hears : (Reader.mk o (host copy?)).host.hears l e.verb = true := he
  have hdeliver : outcome ((host copy?).deliver l e) ⟨src, k, .node l :: st, d⟩
      = ((outcome (l.deliver e) d).1.map some?, ⟨src, k, .node l :: st, (outcome (l.deliver e) d).2⟩) := by
    change outcome (reading (some? <$> l.deliver e)) _ = _
    rw [outcome_reading, outcome_map]
  rw [Reader.tell, Reader.send, bind_assoc, bind_ok _ (Read.outcome_top ..), outcome_bind,
    Reader.sendTo_node _ hears, hdeliver, Listener.visit, if_pos he]
  cases (outcome (l.deliver e) d).1 <;> rfl

theorem verdict_readLine_arrayData (o : Options) (copy? : Option (String → Context → Act Unit)) (width : Document.Bare)
    {xs : List (List Char × List String)} {vs : List Literal} {z : List Char × List String} (hxs : AreRows (xs ++ [z]))
    (hvs : AreLiterals xs vs) (hclose : firstWord z = directive .close) {pre : List Char}
    (hpre : ∀ c ∈ pre, c = ' ') (text : List Char) (k : Cursor) (st : Slots Listener) :
    (outcome (Reader.mk o (host copy?)).readLine
        ⟨.ofChars (row pre [directive .arrayData, width.1] [] ++ '\n' :: rows (xs ++ [z]) text), k,
          .node (.writer .method i closing .nobody) :: st, d⟩).1
      = if vs.all Literal.isText then .ok () else .error .operandType := by
  have hmethod : (Reader.mk o (host copy?)).hasShape (.node (.writer .method i closing .nobody)) .field = false := rfl
  obtain ⟨k₁, hread⟩ := outcome_readLine_arrayData (host_private copy?) hmethod hpre (rows (xs ++ [z]) text) k st d
    width.2
  rw [rows_append] at hread ⊢
  have hrows : AreRows xs := fun x hx => hxs x (List.mem_append_left _ hx)
  obtain ⟨hz, hws⟩ := hxs z (List.mem_append_right _ (List.mem_singleton_self z))
  obtain ⟨m, ws⟩ := z
  obtain ⟨w, more, rfl, -⟩ := hws.exists_cons
  -- the values, and then the row that ends them
  obtain ⟨k₂, hvalues⟩ := outcome_arrayValues_rows (Reader.mk o (host copy?)) hrows hvs
    ((Source.ofChars (rows xs (rows [(m, w :: more)] text))).lines.length + 1) (rows [(m, w :: more)] text) k₁
    (.node (.writer .method i closing .nobody) :: st) d
  obtain ⟨k₃, hend⟩ := outcome_arrayValues_succ (Reader.mk o (host copy?)) hz
    (Source.ofChars (rows xs (rows [(m, w :: more)] text))).lines.length [] text k₂
    (.node (.writer .method i closing .nobody) :: st) d hws
  have hdone : w = directive .close := hclose
  rw [if_pos hdone] at hend
  have hall : outcome ((Reader.mk o (host copy?)).arrayValues false (xs.length
      + ((Source.ofChars (rows xs (rows [(m, w :: more)] text))).lines.length + 1)))
      ⟨.ofChars (rows xs (rows [(m, w :: more)] text)), k₁, .node (.writer .method i closing .nobody) :: st, d⟩
      = (.ok (vs.map .literal), ⟨.ofChars text, k₃, .node (.writer .method i closing .nobody) :: st, d⟩) := by
    rw [hvalues, outcome_map, hend]
    simp [rows, Except.map]
  have hears : (writer .method i closing .nobody).hears
      (Event.arrayData (.text width.1) (.list (vs.map .literal))).verb = true := rfl
  have htell := outcome_tell_node d o copy? hears (.ofChars text) k₃ st
  rw [verdict_arrayData, Literal.isSome_texts?] at htell
  rw [hread _ (Nat.lt_of_lt_of_le (Nat.lt_succ_self _) (Nat.le_add_left _ xs.length)), bind_ok _ hall]
  refine Eq.trans htell ?_
  split <;> rfl

theorem verdict_switches (first : String) (labels : List String) (branches : List (String × String)) :
    (outcome ((writer .method i closing .nobody).visit (.packedSwitch (.text first) (.texts labels))) d).1
        = .ok .nobody ∧
      (outcome ((writer .method i closing .nobody).visit (Document.sparseEvent branches)) d).1 = .ok .nobody := by
  constructor
  · have hstatement : ∀ indent, ∃ s, statement .method indent (.packedSwitch (.text first) (.texts labels))
        = .ok (some s) := by
      intro indent
      rw [Listing.statement, Listing.ofMethod, Listing.joined_texts]
      exact ⟨_, rfl⟩
    obtain ⟨s, hs⟩ := hstatement
      ((d.readied .method i (.packedSwitch (.text first) (.texts labels))).sheets.sheet i).indent
    rw [outcome_visit_writer closing rfl (outcome_write_statement closing rfl hs)]
    rfl
  · rfl

end Refusing

end Desk

namespace Document

/-- A property of all texts that a writer of a method writes for a call, with any margin in front of them. -/
def Written (e : Event) (P : List Char → Prop) : Prop :=
  ∀ indent, ∃ s, statement .method indent e = .ok (some s) ∧
    ∀ pre : List Char, (∀ c ∈ pre, c = ' ') → P (pre ++ (s.text ++ s.stop).toList)

open Desk in
/-- **What becomes of payloads and inner classes** when they are written and read again. No array is read back; nor
is a packed switch, unless the word of an end is part of its first label, and then it is read without labels; nor is
a sparse switch without branches. Another sparse switch takes in the lines behind it: up to the next line that ends
something, which then ends nothing else, and with a blank line before that it is not read back either. Inner classes
never end, so that all that is behind one is read as its own. Reading an array into a writer fails if one of its
values is no text; the writer takes both kinds of switches. -/
theorem blocks_unterminated (x : Scene) (c : ClassTree) (i : Nat) (closing : Keyword) (d : Desk) :
    (∀ (width : Bare) (values : List ArrayText), x.Lost (arrayEvent width values) (arrayFault values)) ∧
    (∀ (first : Bare) (labels : List Target),
      (∀ l ∈ labels.head?, occurs Keyword.close.text.toList l.1.toList = false) →
      x.Lost (packedEvent first labels) .noElement) ∧
    (∀ (first : Bare) (l : Target) (ls : List Target), occurs Keyword.close.text.toList l.1.toList = true →
      Written (packedEvent first (l :: ls)) fun text => ∀ label st d,
        reader.Conveys text (.node (.recorder .method label) :: st) d (.node (.recorder .method label) :: st)
          ((d.hear label (packedEvent first [])).hearLabels label ls)) ∧
    x.Lost (sparseEvent []) .noElement ∧
    (∀ branches : List (Key × Label), branches ≠ [] → (branches.map (·.1.1)).Nodup →
      Written (sparseEvent (branchTexts branches)) fun text => ∀ ys, AreRows ys →
        (∀ y ∈ ys, firstWord y ≠ directive .close) → ∀ label st d,
        (∀ z, AreRows [z] → firstWord z = directive .close →
          reader.Conveys (text ++ '\n' :: rows ys (row z.1 z.2 [])) (.node (.recorder .method label) :: st) d
            (.node (.recorder .method label) :: st)
            (d.hear label (sparseEvent (branchesOf ys (branchTexts branches))))) ∧
        ∀ b : List Char, (∀ c ∈ b, c = ' ') →
          reader.Stalls (text ++ '\n' :: rows ys b) (.node (.recorder .method label) :: st) d .noElement
            (.node (.recorder .method label) :: st) d) ∧
    (c.script.spill = c.script ↔ c.items.InnerLast) ∧
    (∀ (indent : Int) (d₀ d : Desk) (src : Source) (k : Cursor) (label : String), ∃ code d₁ top below d₂ k',
      outcome (c.script.write indent) d₀ = (.ok code, d₁) ∧ below.length = c.script.innerClasses ∧
      outcome (c.script.spill.conclude (.recorder .classDef label)) { d with declined := [] }
        = (.ok (), d₂.closeAll below) ∧
      outcome (reader.visit (.text code) (some (.recorder .classDef label))) ⟨src, k, [], { d with declined := [] }⟩
        = (.ok (), ⟨⟨[]⟩, k', (top :: below).map classSlot, d₂⟩)) ∧
    (∀ (o : Options) (copy? : Option (String → Context → Act Unit)) (width : Bare)
      (xs : List (List Char × List String)) (vs : List Literal) (z : List Char × List String), AreRows (xs ++ [z]) →
      AreLiterals xs vs → firstWord z = directive .close →
      ∀ pre : List Char, (∀ c ∈ pre, c = ' ') → ∀ text k st,
      (outcome (Reader.mk o (host copy?)).readLine
          ⟨.ofChars (row pre [directive .arrayData, width.1] [] ++ '\n' :: rows (xs ++ [z]) text), k,
            .node (.writer .method i closing .nobody) :: st, d⟩).1
        = if vs.all Literal.isText then .ok () else .error .operandType) ∧
    ∀ (first : String) (labels : List String) (branches : List (String × String)),
      (outcome ((Listener.writer .method i closing .nobody).visit (.packedSwitch (.text first) (.texts labels))) d).1
        = .ok .nobody ∧
      (outcome ((Listener.writer .method i closing .nobody).visit (sparseEvent branches)) d).1 = .ok .nobody := by
  refine ⟨fun width values => x.lost (.arrayData width values),
    fun first labels h => x.lost (.packedSwitch first labels h),
    fun first l ls h indent => ⟨_, statement_packedEvent indent first (l :: ls), fun pre hpre label st d =>
      conveys_packedSwitch_end first l ls h (margin_blank _) hpre label st d⟩,
    x.lost .sparseSwitch,
    fun branches hne hkeys indent => ⟨_, statement_sparseEvent indent branches, fun pre hpre ys hys hend label st d =>
      ⟨fun z hz hclose => ?_, fun b hb => ?_⟩⟩,
    c.spill_eq_self, c.visit_spill,
    fun o copy? width xs vs z hxs hvs hclose pre hpre text k st =>
      verdict_readLine_arrayData i closing d o copy? width hxs hvs hclose hpre text k st,
    verdict_switches i closing d⟩
  · rw [append_empty]
    exact conveys_sparseSwitch hne hkeys (margin_blank _) hys hend hpre label st d (hz z (List.mem_singleton_self z))
      hclose
  · rw [append_empty]
    exact stalls_sparseSwitch hne hkeys (margin_blank _) hys hend hpre label st d hb

/-- An array of two numbers: a writer that is told of it while the class is read refuses it, and if a writer is called
with its texts, reading what it has written ends in a fault. -/
theorem array_refused :
    (outcome ((Reader.mk .standard (host (some fun line c => copy .classDef 0 (.text line) c))).visit
        (.text ".class public LA;\n.method public a()V\n.array-data 4\n1\n2\n.end array-data\n.end method\n")
        (some (.writer .classDef 0 .classDef .nobody)))
      ⟨⟨[]⟩, .start, [], { empty [] with sheets := #[.blank 0] }⟩).1 = .error .operandType ∧
    (outcome ((Script.tell (.classDef (.text "LA;") (.int 1))
        (.nest (.method (.text "a") (.int 1) (.texts []) (.text "V"))
          (.tell (.arrayData (.text "4") (.texts ["1", "2"])) .done) .done)).write 0) (empty [])).1
      = .ok ".class public LA;\n.method public a()V\n.array-data 4\n        1\n        2\n\n.end method\n" ∧
    (outcome (reader.visit
        (.text ".class public LA;\n.method public a()V\n.array-data 4\n        1\n        2\n\n.end method\n")
        (some (.recorder .classDef "class#0"))) ⟨⟨[]⟩, .start, [], empty []⟩).1 = .error .noElement := by
  refine ⟨?_, ?_, ?_⟩ <;> decide +kernel

end Document

end Dalvik
