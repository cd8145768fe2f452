import Dalvik.Proofs.Document
import Dalvik.Proofs.Passages

/-!
# Written statements are read back

A call that opens nothing is written as a statement, and the statement has to be read as the same call
(`Desk.Told`). `Desk.Ends` follows what a step of reading does on one line of words, whatever lines come
next; it is composed along the steps of a statement, so that each statement is one chain of such steps. A
statement that is a single line of words is read from it (`Desk.told_of_row`). This is used here for the
statements of a method whose words have no structure of their own.
-/

namespace Dalvik

open Dalvik.Text Reader Listing Read Reader

variable {α : Type} {dir : Directive} {e : Event} {w : String} {text : List Char} {shape : Shape} {a : α}

theorem directive_name (kw : Keyword) : String.ofList ((directive kw).toList.drop 1) = kw.text := by
  cases kw <;> decide

theorem isBare_directive (kw : Keyword) : IsBare (directive kw) ∧ (directive kw).toList.head? = some '.' := by
  cases kw <;> decide

namespace Reader

variable {ν σ : Type} {r : Reader ν σ}
variable {slot : Slot ν} {n : ν} {body : Read ν σ Unit} {k : PUnit → Read ν σ Unit} {ws : List String}

/-- A line of words on which a reader stands. -/
abbrev lineOf (raw : String) (ws : List String) : Line :=
  ⟨raw, " ".intercalate ws, none, ws⟩

section

variable (src : Source) (st : Slots ν) (d : σ) (kw : Keyword)

theorem outcome_publishComment (raw : String) (ws pending : List String) :
    outcome r.publishComment ⟨src, ⟨some (lineOf raw ws), pending⟩, st, d⟩
      = (.ok (), ⟨src, ⟨some (lineOf raw ws), pending⟩, st, d⟩) := rfl

theorem outcome_passKeyword (line? : Option Line) (ws : List String) :
    outcome (r.passKeyword kw) ⟨src, ⟨line?, Listing.directive kw :: ws⟩, st, d⟩
      = (.ok (), ⟨src, ⟨line?, ws⟩, st, d⟩) := by
  have hcheck : r.checkKeyword (Listing.directive kw) kw = pure () := by
    rw [checkKeyword]
    split
    · cases kw <;> rfl
    · rfl
  rw [passKeyword, bind_ok _ (outcome_nextWord ..), hcheck]
  rfl

variable (hplain : kw ≠ .implements ∧ kw ≠ .classDef) (hdir : Directive.ofName? kw.text = some dir)
  (hsimple : dir ≠ .value ∧ dir ≠ .directive)
  (hfield : r.hasShape slot .field = false ∨ kw = .annot ∨ kw = .close) (line? : Option Line)
  (ws : List String)

include hplain hdir hsimple hfield

theorem outcome_directive_simple (n : Nat) :
    outcome (r.directive (n + 1)) ⟨src, ⟨line?, Listing.directive kw :: ws⟩, slot :: st, d⟩
      = outcome (r.simpleDirective dir) ⟨src, ⟨line?, Listing.directive kw :: ws⟩, slot :: st, d⟩ := by
  have hplain' : kw.text ≠ Keyword.implements.text ∧ kw.text ≠ Keyword.classDef.text := by
    revert hplain
    cases kw <;> decide
  have hfield' : r.hasShape slot .field = false ∨ kw.text = Keyword.annot.text ∨ kw.text = Keyword.close.text :=
    hfield.imp id (Or.imp (congrArg _) (congrArg _))
  unfold directive
  rw [outcome_bind, outcome_peekWord]
  dsimp only
  rw [directive_name, bind_ok _ (outcome_leaveField r hfield' src _ st d),
    if_neg (by simpa using hplain'.1), if_neg (by simpa using hplain'.2), hdir]
  cases dir <;> first | rfl | simp at hsimple

theorem outcome_statement_simple :
    outcome r.statement ⟨src, ⟨line?, Listing.directive kw :: ws⟩, slot :: st, d⟩
      = outcome (r.simpleDirective dir) ⟨src, ⟨line?, Listing.directive kw :: ws⟩, slot :: st, d⟩ := by
  rw [outcome_statement_directive _ ws src line? (isBare_directive kw).2]
  exact outcome_directive_simple src st d kw hplain hdir hsimple hfield line? ws _

end

/-- On a line of words, a step of reading goes from some open constructs and a world to others, whatever lines
follow. -/
def Ends (raw : String) (ws pending : List String) (st : List (Slot ν)) (d : σ) (x : Read ν σ Unit)
    (st' : List (Slot ν)) (d' : σ) : Prop :=
  ∀ src, ∃ k', outcome x ⟨src, ⟨some (lineOf raw ws), pending⟩, st, d⟩ = (.ok (), ⟨src, k', st', d'⟩)

namespace Ends

variable {raw : String} {ws pending pending' : List String} {st st₁ st' : Slots ν} {d d₁ d' : σ}

theorem bind {x : Read ν σ α} {k : α → Read ν σ Unit}
    (hx : ∀ src, outcome x ⟨src, ⟨some (lineOf raw ws), pending⟩, st, d⟩ = (.ok a, ⟨src, ⟨some (lineOf raw ws), pending'⟩, st₁, d₁⟩))
    (hk : Ends raw ws pending' st₁ d₁ (k a) st' d') : Ends raw ws pending st d (x >>= k) st' d' := by
  intro src
  obtain ⟨k', hend⟩ := hk src
  exact ⟨k', (bind_ok _ (hx src)).trans hend⟩

theorem of_outcome {x : Read ν σ Unit} (hx : ∀ src, outcome x ⟨src, ⟨some (lineOf raw ws), pending⟩, st, d⟩
      = (.ok (), ⟨src, ⟨some (lineOf raw ws), pending'⟩, st', d'⟩)) : Ends raw ws pending st d x st' d' :=
  fun src => ⟨_, hx src⟩

theorem tell (he : ∀ src k, outcome (r.tell e) ⟨src, k, st, d⟩ = (.ok (), ⟨src, k, st', d'⟩)) :
    Ends raw ws pending st d (r.tell e >>= fun _ => r.publishComment) st' d' :=
  .bind (fun src => he src _) (.of_outcome fun src => outcome_publishComment src st' d' raw ws pending)

theorem unlessMuted (h : Ends raw ws pending (.node n :: st) d body st' d') :
    Ends raw ws pending (.node n :: st) d (r.unlessMuted body) st' d' :=
  h

theorem atLineEnd (h : Ends raw ws pending st d body st' d') : Ends raw ws pending st d (r.atLineEnd body) st' d' := by
  intro src
  obtain ⟨k', hend⟩ := h src
  refine ⟨k', ?_⟩
  rw [Reader.atLineEnd, outcome_tryCatch, hend]

theorem checkDescriptor (hw : Descriptor.isDescriptor w = true) (hk : Ends raw ws pending st d (k ⟨⟩) st' d') :
    Ends raw ws pending st d (r.checkDescriptor w >>= k) st' d' := by
  refine .bind (fun src => ?_) hk
  simp [Reader.checkDescriptor, hw]

theorem attempt {x : Except Fault α} {k : α → Read ν σ Unit} (hx : x = .ok a)
    (hk : Ends raw ws pending st d (k a) st' d') :
    Ends raw ws pending st d (attempt x >>= k) st' d' :=
  .bind (fun src => by rw [hx]; rfl) hk

theorem lastWord {k : String → Read ν σ Unit} (hw : ws.getLast? = some w) (hk : Ends raw ws pending st d (k w) st' d') :
    Ends raw ws pending st d (lastWord >>= k) st' d' :=
  .bind (fun src => outcome_lastWord src pending st d hw) hk

theorem passKeyword (kw : Keyword) (hk : Ends raw ws pending st d (k ⟨⟩) st' d') :
    Ends raw ws (Listing.directive kw :: pending) st d (r.passKeyword kw >>= k) st' d' :=
  .bind (fun src => outcome_passKeyword src st d kw _ pending) hk

theorem directive {slot : Slot ν} (kw : Keyword) {dir : Directive}
    (hplain : kw ≠ .implements ∧ kw ≠ .classDef) (hdir : Directive.ofName? kw.text = some dir)
    (hsimple : dir ≠ .value ∧ dir ≠ .directive)
    (hfield : r.hasShape slot .field = false ∨ kw = .annot ∨ kw = .close)
    (h : Ends raw ws (Listing.directive kw :: pending) (slot :: st) d (r.simpleDirective dir) st' d') :
    Ends raw ws (Listing.directive kw :: pending) (slot :: st) d r.statement st' d' := by
  intro src
  rw [outcome_statement_simple src st d kw hplain hdir hsimple hfield]
  exact h src

theorem numbered {x : Int} (hx : x.natAbs < 10 ^ Number.longestDecimal) (kw : Keyword) (v : Verb)
    (event : Datum → Event) (hv : r.host.hears n v = true)
    (h : Ends raw ws (toString x :: pending) (.node n :: st) d (r.tell (event (.int x)) >>= fun _ => r.publishComment) st' d') :
    Ends raw ws (Listing.directive kw :: toString x :: pending) (.node n :: st) d (r.numbered kw v event) st' d' := by
  have hmuted : (Slot.node n).isMuted .method = false := rfl
  have hrequire : r.require (.node n) v = pure () := by
    have : r.hears (.node n) v = true := hv
    rw [require, if_pos this]
  refine .bind (fun src => outcome_top _ _ _ _ _) ?_
  simp only [hmuted, hrequire, Bool.false_eq_true, if_false, pure_bind]
  refine .passKeyword kw (.bind (fun src => outcome_peekWord ..) ?_)
  rw [Number.parseDecimal?_toString hx]
  exact h

end Ends

/-- A text that is one line of words, with an empty line behind it or none. -/
structure IsRow (text : List Char) (ws : List String) : Prop where
  words : IsWording ws
  text_eq : ∃ post tail, text = (" ".intercalate ws).toList ++ post ++ tail ∧ (∀ c ∈ post, c = ' ') ∧
    (tail = [] ∨ tail = ['\n'])

theorem IsRow.conveys {text : List Char} (h : IsRow text ws) (hcopy : r.host.copy? = none)
    {pre : List Char} (hpre : ∀ c ∈ pre, c = ' ') {st st' : Slots ν} {d d' : σ}
    (hread : ∀ raw, Ends raw ws ws st d r.statement st' d') : r.Conveys (pre ++ text) st d st' d' := by
  obtain ⟨hws, post, tail, rfl, hpost, htail⟩ := h
  have hrow := conveys_row hws hpre hpost fun src raw => hread raw src
  rcases htail with rfl | rfl
  · simpa [row] using hrow
  · simpa [row] using hrow.append (conveys_nil hcopy st' d')

theorem isRow_of_eq (hws : IsWording ws) (htext : text = (" ".intercalate ws).toList) : IsRow text ws :=
  ⟨hws, [], [], by simp [htext], by simp, .inl rfl⟩

theorem isRow_of_eq_break (hws : IsWording ws) (htext : text = (" ".intercalate ws).toList ++ ['\n']) : IsRow text ws :=
  ⟨hws, [], ['\n'], by simp [htext], by simp, .inr rfl⟩

end Reader

/-- The reader of class documents: all is checked, comments are passed over, and recorders listen. -/
abbrev Desk.reader : Reader Listener Desk := Desk.recording .standard false

theorem Reader.Ends.hear {raw : String} {ws pending : List String} {st : Slots Listener} {d : Desk}
    {label : String} (he : shape.hears e.verb = true) :
    Ends raw ws pending (taped shape label st) d (Desk.reader.tell e >>= fun _ => Desk.reader.publishComment)
      (taped shape label st) (d.hear label e) :=
  .tell fun src k => Desk.outcome_tell src k st d he

namespace Desk

/-- A call that opens nothing, and that is written as a statement which is read as the same call. -/
structure Told (shape : Shape) (e : Event) : Prop where
  hears : shape.hears e.verb = true
  opens : Listener.opens e.verb = none
  written : ∀ indent, heading shape indent e = .ok none ∧ ∃ s, statement shape indent e = .ok (some s) ∧
      ∀ pre : List Char, (∀ c ∈ pre, c = ' ') → ∀ label st d,
        reader.Conveys (pre ++ (s.text ++ s.stop).toList) (.node (.recorder shape label) :: st) d
          (.node (.recorder shape label) :: st) (d.hear label e)

theorem reader_copy? : reader.host.copy? = none := rfl

theorem told_of_row {ws : List String} (hears : shape.hears e.verb = true) (opens : Listener.opens e.verb = none)
    (hheading : ∀ indent, heading shape indent e = .ok none) {s : Statement}
    (hstatement : ∀ indent, statement shape indent e = .ok (some s)) (hrow : IsRow (s.text ++ s.stop).toList ws)
    (hread : ∀ raw label st d, Ends raw ws ws (taped shape label st) d reader.statement (taped shape label st) (d.hear label e)) :
    Told shape e where
  hears := hears
  opens := opens
  written indent := ⟨hheading indent, s, hstatement indent, fun _ hpre label st d =>
    hrow.conveys reader_copy? hpre fun raw => hread raw label st d⟩

namespace Told

open Document

theorem numbered (kw : Keyword) (v : Verb) {event : Datum → Event} (n : Numeral)
    (hplain : kw ≠ .implements ∧ kw ≠ .classDef) (hdir : Directive.ofName? kw.text = some dir)
    (hsimple : dir ≠ .value ∧ dir ≠ .directive) (hread : reader.simpleDirective dir = reader.numbered kw v event)
    (hv : Shape.method.hears v = true) (he : ∀ x, (event x).verb = v) (hopens : Listener.opens v = none)
    (hheading : ∀ indent, heading .method indent (event (.int n)) = .ok none) {stop : String}
    (hstatement : ∀ indent, statement .method indent (event (.int n)) = .ok (some ⟨1, directive kw ++ " " ++ toString n.1, stop⟩))
    (hstop : stop = "" ∨ stop = "\n") :
    Told .method (event (.int n)) := by
  have hwords : IsWording [directive kw, toString n.1] :=
    ⟨(isBare_directive kw).1, .inl (Number.isBare_toString n.1)⟩
  have hrow : IsRow (directive kw ++ " " ++ toString n.1 ++ stop).toList [directive kw, toString n.1] := by
    rcases hstop with rfl | rfl
    · exact isRow_of_eq hwords (by simp)
    · exact isRow_of_eq_break hwords (by simp)
  refine told_of_row (by rw [he]; exact hv) (by rw [he]; exact hopens) hheading hstatement hrow ?_
  intro raw label st d
  refine .directive kw hplain hdir hsimple (.inl rfl) ?_
  rw [hread]
  exact .numbered n.2 kw v event hv (.hear (by rw [he]; exact hv))

theorem line (n : Numeral) : Told .method (Step.line n).event :=
  numbered .line .lineNumber n (by decide) rfl (by decide) rfl rfl (fun _ => rfl) rfl (fun _ => rfl)
    (fun _ => rfl) (.inl rfl)

theorem locals (n : Numeral) : Told .method (Step.locals n).event :=
  numbered .locals .locals n (by decide) rfl (by decide) rfl rfl (fun _ => rfl) rfl (fun _ => rfl)
    (fun _ => rfl) (.inl rfl)

theorem registers (n : Numeral) : Told .method (Step.registers n).event :=
  numbered .registers .registers n (by decide) rfl (by decide) rfl rfl (fun _ => rfl) rfl (fun _ => rfl)
    (fun _ => rfl) (.inr rfl)

theorem colon_label (l : Label) :
    IsBare (":" ++ l.1) ∧ (":" ++ l.1).toList.head? = some ':' ∧ labelName (":" ++ l.1) = l.1 := by
  obtain ⟨l, hl⟩ := l
  have hparts := Bool.and_eq_true _ _ ▸ hl
  have htext : (":" ++ l).toList = ':' :: l.toList := by simp
  refine ⟨⟨fun hempty => ?_, fun c hc => ?_, ?_⟩, ?_, ?_⟩
  · simp [hempty] at htext
  · rw [htext] at hc
    rcases List.mem_cons.mp hc with rfl | hc
    · decide
    · have hchar := List.all_eq_true.mp hparts.1 c hc
      simp only [isPlainChar, Bool.and_eq_true, Bool.not_eq_true', bne_iff_ne] at hchar
      exact ⟨hchar.1.1.1, hchar.1.1.2⟩
  · simp [htext]
  · simp [htext]
  · have hhead : ∀ c, l.toList.head? = some c → (c == ':') = false := by
      intro c hc
      have := hparts.2
      rw [hc] at this
      simpa using this
    have hdrop := @Line.dropStart_append (· == ':') [':'] l.toList (by simp) hhead
    rw [labelName, trimStart, htext]
    rw [List.singleton_append] at hdrop
    rw [hdrop, String.ofList_toList]

theorem label (l : Label) : Told .method (Step.label l).event := by
  obtain ⟨hbare, hhead, hname⟩ := colon_label l
  have hwords : IsWording [":" ++ l.1] := .inl hbare
  refine told_of_row rfl rfl (fun _ => rfl) (fun _ => rfl) (isRow_of_eq hwords (by simp [Datum.plain])) ?_
  intro raw label st d
  have hread : Ends raw [":" ++ l.1] [":" ++ l.1] (taped .method label st) d reader.label
      (taped .method label st) (d.hear label (Step.label l).event) := by
    refine .bind (fun src => outcome_peekWord ..) (.unlessMuted ?_)
    rw [hname]
    exact .hear rfl
  intro src
  rw [outcome_statement_label _ [] src _ hhead]
  exact hread src

theorem prologue : Told .method Step.prologue.event := by
  have hwords : IsWording [directive .prologue] := .inl (isBare_directive _).1
  refine told_of_row rfl rfl (fun _ => rfl) (fun _ => rfl) (isRow_of_eq hwords (by simp)) ?_
  exact fun raw label st d =>
    .directive .prologue (by decide) rfl (by decide) (.inl rfl) (.unlessMuted (.hear rfl))

theorem restart (register : Bare) : Told .method (Step.restart register).event := by
  have hwords : IsWording [directive .restart, register.1] :=
    ⟨(isBare_directive _).1, .inl register.2⟩
  refine told_of_row rfl rfl (fun _ => rfl) (fun _ => rfl) (isRow_of_eq hwords (by simp [Datum.plain])) ?_
  exact fun raw label st d => .directive .restart (by decide) rfl (by decide) (.inl rfl)
    (.unlessMuted (.lastWord rfl (.hear rfl)))

theorem trimBoth_inQuotes (s : Quotable) : trimBoth (· == '"') (inQuotes s.1) = s.1 := by
  obtain ⟨s, hs⟩ := s
  have htext : (inQuotes s).toList = ['"'] ++ (s.toList ++ ['"']) := by simp [inQuotes]
  have hfree : ∀ c ∈ s.toList, (c == '"') = false := fun c hc => by simpa using (hs c hc).1
  rw [trimBoth, dropBoth, htext]
  by_cases hempty : s.toList = []
  · obtain rfl : s = "" := by simpa using hempty
    rfl
  · have hhead : ∀ c, (s.toList ++ ['"']).head? = some c → (c == '"') = false := by
      intro c hc
      rw [List.head?_append, List.head?_eq_some_head hempty, Option.some_or,
        ← List.head?_eq_some_head hempty] at hc
      exact hfree c (List.mem_of_head? hc)
    rw [Line.dropStart_append (by simp) hhead,
      Line.dropEnd_append (by simp) fun c hc => hfree c (List.mem_of_getLast? hc), String.ofList_toList]

theorem parameter (register : Bare) (name : Quotable) : Told .method (Step.parameter register name).event := by
  have hlast : IsLast (inQuotes name.1) := .inr ⟨name.1, "", name.2, .inl rfl, by simp⟩
  have hwords : IsWording [directive .param, register.1, inQuotes name.1] :=
    ⟨(isBare_directive _).1, register.2, hlast⟩
  refine told_of_row rfl rfl (fun _ => rfl) (fun _ => rfl) (isRow_of_eq hwords (by simp [Datum.plain, inQuotes])) ?_
  intro raw label st d
  have hquote : (" ".intercalate [directive .param, register.1, inQuotes name.1]).toList.contains '"'
      = true := by
    simp [inQuotes]
  refine .directive .param (by decide) rfl (by decide) (.inl rfl) (.unlessMuted ?_)
  refine .bind (fun src => outcome_nextWord ..) (.bind (fun src => outcome_nextWord ..) ?_)
  refine .bind (fun src => outcome_cleaned ..) ?_
  rw [if_pos hquote]
  refine .bind (fun src => outcome_peekWord ..) ?_
  rw [trimBoth_inQuotes]
  exact .hear rfl

end Told

end Desk

end Dalvik
