import Dalvik.Proofs.Probes
import Dalvik.Proofs.Remarks

/-!
# Blank lines

Blank lines mean nothing between statements: the reading passes over them. Two places take a line without a look at
whether it is blank. One is the header of a class, and the other is a statement that runs over several lines. Whether
a boundary between two lines is such a place depends on the lines in front of it alone, and is said with a probe
behind them (`Reader.SeeksHeader`, `Reader.SeeksMore`). At all other boundaries blank lines can be put in, any number
of them and at many boundaries at once (`Reader.Spaced`), and the reading ends alike. The main statement is
`Audience.visit_spaced`.
-/

namespace Dalvik

open Line

variable {ν σ α : Type}
variable {x : Read ν σ α} {t' t : Session ν σ}

/-- Two readings end alike: with the same result or the same fault, with the same constructs open, and in the same
world of whoever listens. -/
structure EndsAlike (o o' : Except Fault Unit × Session ν σ) : Prop where
  result_eq : o.1 = o'.1
  stack_eq : o.2.stack = o'.2.stack
  world_eq : o.2.world = o'.2.world

namespace EndsAlike

variable {o o' o'' : Except Fault Unit × Session ν σ}

theorem refl (o : Except Fault Unit × Session ν σ) : EndsAlike o o := ⟨rfl, rfl, rfl⟩

theorem symm (h : EndsAlike o o') : EndsAlike o' o := ⟨h.result_eq.symm, h.stack_eq.symm, h.world_eq.symm⟩

theorem trans (h : EndsAlike o o') (h' : EndsAlike o' o'') : EndsAlike o o'' :=
  ⟨h.result_eq.trans h'.result_eq, h.stack_eq.trans h'.stack_eq, h.world_eq.trans h'.world_eq⟩

end EndsAlike

namespace Reader

open Read

/-- What is read once the input is accepted: the header, unless the source is a piece of a class, and the body. -/
def opening (r : Reader ν σ) : Read ν σ Unit :=
  unless r.options.snippet do r.openClass

/-- Behind the lines in front, the reading asks for the line with the header; by then it has come to `u`. -/
def SeeksHeader (r : Reader ν σ) (s : Session ν σ) (front : List (Option String)) (u : Session ν σ) : Prop :=
  r.options.snippet = false ∧
    outcome r.nextLine (s.withLines (front ++ [none])) = (.error .undecodable, u) ∧ u.source.lines = []

/-- Behind the lines in front, the reading asks for one more line of a statement; by then it has come to `u`. -/
def SeeksMore (r : Reader ν σ) (s : Session ν σ) (front : List (Option String)) (u : Session ν σ) : Prop :=
  ∃ s₁ t v, outcome r.opening (s.withLines (front ++ [none])) = (.ok (), s₁) ∧ r.Reads s₁ t ∧
    outcome r.nextLine t = (.ok (), v) ∧ outcome r.readLine t = (.error .undecodable, u) ∧ u.source.lines = []

/-- Behind the lines in front, the reading is between statements, or it has ended. -/
def Between (r : Reader ν σ) (s : Session ν σ) (front : List (Option String)) : Prop :=
  ∀ u, ¬ r.SeeksHeader s front u ∧ ¬ r.SeeksMore s front u

/-- Behind the lines `front`, the second lines are the first ones with blank lines put in, at boundaries where the
reading is between statements. -/
inductive Spaced (r : Reader ν σ) (s : Session ν σ) :
    List (Option String) → List (Option String) → List (Option String) → Prop
  | nil (front : List (Option String)) : Spaced r s front [] []
  | line {front lines lines' : List (Option String)} (l : Option String) (h : Spaced r s (front ++ [l]) lines lines') :
      Spaced r s front (l :: lines) (l :: lines')
  | blank {front lines lines' : List (Option String)} {b : String} (hb : IsBlank b) (hfront : r.Between s front)
      (h : Spaced r s front lines lines') : Spaced r s front lines (some b :: lines')

section Running

variable {r : Reader ν σ} {rest back front : Lines} {s s' u : Session ν σ} {b : String}

theorem beside_probed (s : Session ν σ) (front rest : Lines) :
    (running rest).Rel (s.withLines (front ++ rest)) (s.withLines (front ++ [none])) :=
  ⟨⟨front, rfl, rfl⟩, rfl⟩

section

variable (hx : (running rest).Agree Eq x x) (hs : (running rest).Rel s s')

include hx hs

theorem outcome_running : (outcome x s').1 = .error .undecodable ∧ (outcome x s').2.source.lines = [] ∨
      (outcome x s').2.source.lines ≠ [] ∧ (outcome x s).1 = (outcome x s').1 ∧
        (running rest).Rel (outcome x s).2 (outcome x s').2 := by
  rcases hx.2 s s' hs with ⟨hm, ht⟩ | ⟨hexit, -, hpart⟩
  · exact .inr ⟨ht.source.ne_nil, hm.eq, ht⟩
  · exact .inl ⟨hexit, hpart⟩

theorem outcome_running_ok {a : α} (hok : outcome x s' = (.ok a, t')) :
    ∃ t, outcome x s = (.ok a, t) ∧ (running rest).Rel t t' := by
  have h := outcome_running hx hs
  rw [hok] at h
  rcases h with ⟨hexit, -⟩ | ⟨-, hres, ht⟩
  · cases hexit
  · exact ⟨(outcome x s).2, Prod.ext hres rfl, ht⟩

end

variable (h : r.host.Private)

include h

theorem outcome_readBody_of_reads {s : Session ν σ} (hst : r.Reads s t) :
    outcome r.readBody s = outcome r.readBody t := by
  induction hst with
  | refl s => rfl
  | line hl _ ih => rw [outcome_readBody_of_ok h hl, ih]

theorem outcome_readBody_congr (hline : outcome r.readLine s = outcome r.readLine s') :
    outcome r.readBody s = outcome r.readBody s' := by
  have g := governs_taking h
  rcases hl : outcome r.readLine s with ⟨res, t⟩
  have hl' := hline.symm.trans hl
  cases res with
  | ok a => rw [outcome_readBody_of_ok h hl, outcome_readBody_of_ok h hl']
  | error f => rw [g.outcome_readBody trivial ⟨s, .refl s, hl⟩, g.outcome_readBody trivial ⟨s', .refl s', hl'⟩]

variable (hcopy : r.host.copy? = none)

include hcopy

theorem agree_opening_running : (running rest).Agree Eq r.opening r.opening :=
  Pairing.agree_ite (Pairing.agree_ret rfl) (agree_openClass_running h hcopy)

theorem reads_running (hread : r.Reads s' t') (hs : (running rest).Rel s s') :
    ∃ t, r.Reads s t ∧ (running rest).Rel t t' := by
  induction hread generalizing s with
  | refl s' => exact ⟨s, .refl s, hs⟩
  | line hl _ ih =>
    obtain ⟨t, ht, hrel⟩ := outcome_running_ok (agree_readLine_running h hcopy) hs hl
    obtain ⟨u, hu, hrel'⟩ := ih hrel
    exact ⟨u, .line ht hu, hrel'⟩

theorem seeksHeader_of_opening (hprobe : outcome r.opening (s.withLines (front ++ [none])) = (.error .undecodable, u))
    (hu : u.source.lines = []) : r.SeeksHeader s front u := by
  cases hsnippet : r.options.snippet with
  | true =>
    rw [opening, hsnippet] at hprobe
    cases hprobe
  | false =>
    have hopen : outcome r.openClass (s.withLines (front ++ [none])) = (.error .undecodable, u) := by
      rw [opening, hsnippet] at hprobe
      exact hprobe
    have hnext := outcome_running (agree_nextLine_running h hcopy (r := r)) (beside_probed s front [none])
    refine ⟨hsnippet, ?_, hu⟩
    rw [openClass, outcome_bind, outcome_tryCatch, outcome_bind] at hopen
    rcases hv : outcome r.nextLine (s.withLines (front ++ [none])) with ⟨res, v⟩
    rw [hv] at hopen hnext
    cases res with
    | ok a =>
      -- the header itself takes no line
      rcases hnext with ⟨hexit, -⟩ | ⟨hne, -⟩
      · cases hexit
      · have hheader := (outcome_withLines (x := r.classHeader false >>= fun _ => pure ()) (s := v)
          (fun _ _ => ((attends_standing h hcopy).correspondence.classHeader (b := true) false).bind
            fun _ _ _ => Pairing.agree_ret rfl) rfl []).1
        have hrun : outcome (r.classHeader false >>= fun _ => pure ()) v = (.error .undecodable, u) := hopen
        rw [hrun] at hheader
        exact absurd (hheader.symm.trans hu) hne
    | error f =>
      by_cases hf : f = .endOfSource
      · subst hf
        cases hvalidate : r.options.validate <;> simp [hvalidate] at hopen
      · simpa [hf] using hopen

omit h in
theorem outcome_readLine_blank (hb : IsBlank b) {t : Session ν σ}
    (ht : outcome r.nextLine t = outcome r.nextLine (u.withLines (some b :: back))) :
    outcome r.readLine t = (.ok (), { u.withLines back with cursor := .blank }) := by
  rw [readLine, outcome_bind, ht, outcome_nextLine_blank_cons hb]
  exact outcome_copyLine_none hcopy _

theorem endsAlike_of_stops {u' : Session ν σ} {f : Fault} (ht : (running rest).Rel t t')
    (hstop : outcome r.readLine t' = (.error f, u')) (hu' : u'.source.lines ≠ []) :
    EndsAlike (outcome r.readBody t) (outcome r.readBody t') := by
  have g := governs_taking h
  rcases outcome_running (agree_readLine_running h hcopy) ht with ⟨-, hnil⟩ | ⟨-, hres, hrel⟩
  · rw [hstop] at hnil
    exact absurd hnil hu'
  · rcases hl : outcome r.readLine t with ⟨res, u⟩
    rw [hl, hstop] at hres hrel
    obtain rfl : res = .error f := hres
    have heq : u' = u.withLines u'.source.lines := hrel.eq
    rw [g.outcome_readBody trivial ⟨t, .refl t, hl⟩, g.outcome_readBody trivial ⟨t', .refl t', hstop⟩]
    split
    · have htell := (outcome_withLines (x := r.tell .close) (s := u)
        (fun _ _ => (attends_standing h hcopy).correspondence.tellEnd (b := true)) rfl
        u'.source.lines).2
      rw [heq, htell]
      exact ⟨rfl, rfl, rfl⟩
    · rw [heq]
      split <;> exact ⟨rfl, rfl, rfl⟩

theorem endsAlike_readBody (hb : IsBlank b) (hback : some "" ∉ back) {s₁ s₂ : Session ν σ}
    (hs₁ : (running back).Rel s₁ s') (hs₂ : (running (some b :: back)).Rel s₂ s')
    (hmore : ∀ t v u, r.Reads s' t → outcome r.nextLine t = (.ok (), v) →
      outcome r.readLine t = (.error .undecodable, u) → u.source.lines ≠ []) :
    EndsAlike (outcome r.readBody s₁) (outcome r.readBody s₂) := by
  have g := governs_taking h
  obtain ⟨f, u', t', hread', hstop'⟩ := g.exists_stops (s := s') trivial
  obtain ⟨t₁, hread₁, ht₁⟩ := reads_running h hcopy hread' hs₁
  obtain ⟨t₂, hread₂, ht₂⟩ := reads_running h hcopy hread' hs₂
  rw [outcome_readBody_of_reads h hread₁, outcome_readBody_of_reads h hread₂]
  by_cases hu' : u'.source.lines = []
  · -- the probe was asked for between statements
    have hf : f = .undecodable := by
      have hprobe := outcome_running (agree_readLine_running h hcopy) ht₁
      rw [hstop'] at hprobe
      rcases hprobe with ⟨hexit, -⟩ | ⟨hne, -⟩
      · exact Except.error.inj hexit
      · exact absurd hu' hne
    subst hf
    rcases hn : outcome r.nextLine t' with ⟨res, v⟩
    cases res with
    | ok a => exact absurd hu' (hmore t' v u' hread' hn hstop')
    | error f' =>
      rw [readLine, outcome_bind, hn] at hstop'
      cases hstop'
      have hline₁ : outcome r.readLine t₁ = outcome r.readLine (u'.withLines back) := by
        rw [readLine, outcome_bind, outcome_bind, ht₁.outcome_nextLine h hcopy hn hu']
      have hline₂ := outcome_readLine_blank hcopy hb (ht₂.outcome_nextLine h hcopy hn hu')
      rw [outcome_readBody_congr h hline₁, outcome_readBody_of_ok h hline₂]
      obtain ⟨hres, hnear⟩ := blind_readBody h (u'.withLines back) { u'.withLines back with cursor := .blank }
        (.inr ⟨⟨.blank, rfl⟩, hback⟩)
      exact ⟨hres, hnear.stack_eq.symm, hnear.world_eq.symm⟩
  · exact (endsAlike_of_stops h hcopy ht₁ hstop' hu').trans (endsAlike_of_stops h hcopy ht₂ hstop' hu').symm

theorem endsAlike_insert (hb : IsBlank b) (hback : some "" ∉ back) (hfront : r.Between s front) :
    EndsAlike (outcome (r.opening >>= fun _ => r.readBody) (s.withLines (front ++ back)))
      (outcome (r.opening >>= fun _ => r.readBody) (s.withLines (front ++ some b :: back))) := by
  rcases hopen : outcome r.opening (s.withLines (front ++ [none])) with ⟨res, s'⟩
  have hrel (rest : Lines) : ∃ t, outcome r.opening (s.withLines (front ++ rest)) = (res, t) ∧
      (running rest).Rel t s' := by
    have h' := outcome_running (agree_opening_running h hcopy) (beside_probed s front rest)
    rw [hopen] at h'
    rcases h' with ⟨hexit, hnil⟩ | ⟨-, hres, ht⟩
    · obtain rfl : res = .error .undecodable := hexit
      exact absurd (seeksHeader_of_opening h hcopy hopen hnil) (hfront s').1
    · exact ⟨(outcome r.opening (s.withLines (front ++ rest))).2, Prod.ext hres rfl, ht⟩
  obtain ⟨s₁, hs₁, hrel₁⟩ := hrel back
  obtain ⟨s₂, hs₂, hrel₂⟩ := hrel (some b :: back)
  rw [outcome_bind, outcome_bind, hs₁, hs₂]
  cases res with
  | ok a =>
    refine endsAlike_readBody h hcopy hb hback hrel₁ hrel₂ fun t v u hread hnext hline hnil => ?_
    exact (hfront u).2 ⟨s', t, v, hopen, hread, hnext, hline, hnil⟩
  | error f =>
    have hstack := (congrArg Session.stack hrel₁.eq).symm.trans (congrArg Session.stack hrel₂.eq)
    have hworld := (congrArg Session.world hrel₁.eq).symm.trans (congrArg Session.world hrel₂.eq)
    exact ⟨rfl, hstack, hworld⟩

theorem Spaced.endsAlike {lines lines' : Lines} (hspaced : r.Spaced s front lines lines') (hne : some "" ∉ lines') :
    EndsAlike (outcome (r.opening >>= fun _ => r.readBody) (s.withLines (front ++ lines)))
      (outcome (r.opening >>= fun _ => r.readBody) (s.withLines (front ++ lines'))) := by
  induction hspaced with
  | nil front => exact .refl _
  | line l _ ih =>
    have h' := ih fun hmem => hne (.tail _ hmem)
    rwa [List.append_assoc, List.append_assoc] at h'
  | blank hb hfront _ ih =>
    have hback := fun hmem => hne (.tail _ hmem)
    exact (ih hback).trans (endsAlike_insert h hcopy hb hback hfront)

theorem outcome_seeksMore (hb : IsBlank b) (hmore : r.SeeksMore s front u) (back : Lines) :
    EndsAlike (outcome (r.opening >>= fun _ => r.readBody) (s.withLines (front ++ some b :: back)))
      (.error .noElement, u) := by
  have g := governs_taking h
  obtain ⟨s', t', v', hopen, hread, hnext, hline, hnil⟩ := hmore
  obtain ⟨s₁, hs₁, hrel₁⟩ := outcome_running_ok (agree_opening_running h hcopy)
    (beside_probed s front (some b :: back)) hopen
  obtain ⟨t, ht, hrel⟩ := reads_running h hcopy hread hrel₁
  obtain ⟨v, hv, hrelv⟩ := outcome_running_ok (agree_nextLine_running h hcopy) hrel hnext
  rw [readLine, bind_ok _ hnext] at hline
  rcases (Correspondence.lineAtHand (loops_stalling h hcopy hb back)).2 v v' hrelv with
    ⟨-, hrel'⟩ | ⟨-, hhalt, hpart⟩
  · rw [hline] at hrel'
    exact absurd hnil hrel'.source.ne_nil
  · rw [hline] at hpart
    obtain ⟨-, hstack, hworld⟩ := hpart
    have hstop : outcome r.readLine t = (.error .noElement, _) :=
      (bind_ok _ hv).trans (Prod.ext (hhalt _ rfl) rfl)
    rw [bind_ok _ hs₁, outcome_readBody_of_reads h ht, g.outcome_readBody trivial ⟨t, .refl t, hstop⟩]
    exact ⟨rfl, hstack, hworld⟩

omit h hcopy in
theorem outcome_classHeader_blank (src : Source) (st : Slots ν) (w : σ) :
    outcome (r.classHeader false) ⟨src, .blank, st, w⟩ =
      (if r.options.validate then .error .noElement
        else if r.options.policy = "strict" then .error .unexpectedEndOfLine else .ok none,
        ⟨src, ⟨some .blank, []⟩, st, w⟩) := by
  have hword : outcome nextWord (⟨src, .blank, st, w⟩ : Session ν σ) = (.ok "", ⟨src, ⟨some .blank, []⟩, st, w⟩) := rfl
  have hflags : outcome accessFlags (⟨src, ⟨some .blank, []⟩, st, w⟩ : Session ν σ)
      = (.error .lineExhausted, ⟨src, ⟨some .blank, []⟩, st, w⟩) := rfl
  have hpass : outcome (r.passKeyword .classDef) ⟨src, .blank, st, w⟩
      = (if r.options.validate then .error .noElement else .ok (), ⟨src, ⟨some .blank, []⟩, st, w⟩) := by
    rw [passKeyword, bind_ok _ hword, checkKeyword]
    cases r.options.validate <;> rfl
  rw [classHeader, atLineEnd, outcome_tryCatch, outcome_bind, hpass]
  cases r.options.validate with
  | true => rfl
  | false =>
    simp only [Bool.false_eq_true, if_false]
    rw [bind_error _ hflags]
    by_cases hpolicy : r.options.policy = "strict"
    · simp [hpolicy]
    · simp only [hpolicy, beq_eq_false_iff_ne.mpr hpolicy, Bool.false_eq_true, if_true, if_false]
      rfl

/-- A blank line where the header is sought. With validation there is no directive on it. Without, the line ends too
early; if the policy is to ignore that, then no class is told and all lines that follow belong to the body. -/
theorem outcome_seeksHeader (hb : IsBlank b) (hheader : r.SeeksHeader s front u) (back : Lines)
    (hback : some "" ∉ back) :
    EndsAlike (outcome (r.opening >>= fun _ => r.readBody) (s.withLines (front ++ some b :: back)))
      (if r.options.validate then (.error .noElement, u)
        else if r.options.policy = "strict" then (.error .unexpectedEndOfLine, u)
        else outcome r.readBody (u.withLines back)) := by
  obtain ⟨hsnippet, hprobe, hnil⟩ := hheader
  have hnext := (beside_probed s front (some b :: back)).outcome_nextLine h hcopy hprobe hnil
  rw [outcome_nextLine_blank_cons hb] at hnext
  have hheader := outcome_classHeader_blank (r := r) ⟨back⟩ u.stack u.world
  have hopen : outcome r.opening (s.withLines (front ++ some b :: back)) =
      outcome (r.classHeader false >>= fun _ => pure ()) ⟨⟨back⟩, .blank, u.stack, u.world⟩ := by
    rw [opening, hsnippet]
    change outcome r.openClass _ = _
    rw [openClass, outcome_bind, outcome_tryCatch, outcome_bind, hnext]
    rfl
  rw [outcome_bind, hopen, outcome_bind, hheader]
  by_cases hvalidate : r.options.validate = true
  · simp only [hvalidate, if_true]
    exact ⟨rfl, rfl, rfl⟩
  · by_cases hpolicy : r.options.policy = "strict"
    · simp only [hvalidate, hpolicy, Bool.false_eq_true, if_true, if_false]
      exact ⟨rfl, rfl, rfl⟩
    · simp only [hvalidate, hpolicy, Bool.false_eq_true, if_false]
      obtain ⟨hres, hnear⟩ := blind_readBody h (u.withLines back) { u.withLines back with cursor := ⟨some .blank, []⟩ }
        (.inr ⟨⟨_, rfl⟩, hback⟩)
      exact ⟨hres.symm, hnear.stack_eq, hnear.world_eq⟩

omit h hcopy in
theorem between_of_opening (hopen : (outcome r.opening (s.withLines (front ++ [none]))).1 = .ok ())
    (hlines : (outcome r.opening (s.withLines (front ++ [none]))).2.source.lines = [none]) : r.Between s front := by
  refine fun u => ⟨?_, ?_⟩
  · rintro ⟨hsnippet, hnext, -⟩
    have hclass : (outcome r.openClass (s.withLines (front ++ [none]))).1 = .ok () := by
      rw [opening, hsnippet] at hopen
      exact hopen
    rw [openClass, outcome_bind, outcome_tryCatch, outcome_bind, hnext] at hclass
    cases hclass
  · rintro ⟨⟨src, k, st, w⟩, t, v, hopen', hread, hnext, -⟩
    rw [hopen'] at hlines
    obtain rfl : src = ⟨[none]⟩ := congrArg Source.mk hlines
    cases hread with
    | refl => cases hnext
    | line hl _ => cases hl

end Running

end Reader

namespace Audience

open Reader

variable (A : Audience ν σ)

/-- Blank lines are passed over between statements, and nowhere else. For every audience that keeps no lines, every
choice of options and all lines:
blank lines that are put in between statements, any number of them at any number of boundaries, change neither the
calls nor what the audience makes of them, nor the open constructs, nor how the reading ends;
a blank line inside a statement ends the reading for want of a character, with what had been told and opened by then;
and so does a blank line in front of the header, unless nothing is validated, when the header is not read as one. -/
theorem visit_spaced (hkeep : A.keep? = none) (o : Options) (root : ν) (q : Source) (k : Cursor) (st : List (Slot ν))
    (w : σ) :
    let r := A.reader o
    let start : Session ν (Attendance ν σ) := ⟨⟨[]⟩, k, .node root :: st, ⟨w, []⟩⟩
    let read (input : Input) := outcome (r.visit input (some root)) ⟨q, k, st, ⟨w, []⟩⟩
    (∀ {input spaced : Input} {lines lines' : List (Option String)}, input.isPresent = true → spaced.isPresent = true →
      input.source = .ok ⟨lines⟩ → spaced.source = .ok ⟨lines'⟩ → r.Spaced start [] lines lines' →
      EndsAlike (read input) (read spaced)) ∧
    ∀ {spaced : Input} {front back : List (Option String)} {b : String} {u : Session ν (Attendance ν σ)},
      o.knownPolicy = true → spaced.isPresent = true → spaced.source = .ok ⟨front ++ some b :: back⟩ → IsBlank b →
      (r.SeeksMore start front u → EndsAlike (read spaced) (.error .noElement, u)) ∧
      (r.SeeksHeader start front u → EndsAlike (read spaced) (if o.validate then (.error .noElement, u)
          else if o.policy = "strict" then (.error .unexpectedEndOfLine, u)
          else outcome r.readBody (u.withLines back))) := by
  intro r start read
  have hcopy : r.host.copy? = none := by
    change A.keep?.map _ = none
    rw [hkeep]
    rfl
  have hread {input : Input} {lines : List (Option String)} (hpolicy : o.knownPolicy = true)
      (hp : input.isPresent = true) (hs : input.source = .ok ⟨lines⟩) :
      read input = outcome (r.opening >>= fun _ => r.readBody) (start.withLines lines) :=
    r.outcome_visit hp hs hpolicy root q k st ⟨w, []⟩
  refine ⟨fun {input spaced lines lines'} hp hp' hs hs' hspaced => ?_,
    fun {spaced front back b u} hpolicy hp hs hb => ⟨fun hmore => ?_, fun hheader => ?_⟩⟩
  · cases hpolicy : o.knownPolicy with
    | true =>
      rw [hread hpolicy hp hs, hread hpolicy hp' hs']
      exact hspaced.endsAlike A.host_private hcopy (Input.empty_notMem_source hs')
    | false =>
      have hrefuse {input : Input} {lines : List (Option String)} (hp : input.isPresent = true)
          (hs : input.source = .ok ⟨lines⟩) :
          read input = (.error (.unknownPolicy o.policy), ⟨q, k, st, ⟨w, []⟩⟩) := by
        simp only [read, r, visit, hp, hs, hpolicy]
        rfl
      rw [hrefuse hp hs, hrefuse hp' hs']
      exact .refl _
  · rw [hread hpolicy hp hs]
    exact outcome_seeksMore A.host_private hcopy hb hmore back
  · rw [hread hpolicy hp hs]
    refine outcome_seeksHeader A.host_private hcopy hb hheader back fun hmem => ?_
    exact Input.empty_notMem_source hs (List.mem_append_right _ (.tail _ hmem))

/-- Two blank lines behind the header of a class. -/
theorem visit_spaced_behind_header : plain.keep? = none ∧
    EndsAlike (outcome ((plain.reader .standard).visit (.text ".class public LA;\n.super LB;\n") (some .classDef))
        ⟨⟨[]⟩, .start, [], ⟨(), []⟩⟩)
      (outcome ((plain.reader .standard).visit (.text ".class public LA;\n\n \t\n.super LB;\n") (some .classDef))
        ⟨⟨[]⟩, .start, [], ⟨(), []⟩⟩) := by
  have hsource : (Input.text ".class public LA;\n.super LB;\n").source
      = .ok ⟨[some ".class public LA;\n", some ".super LB;\n"]⟩ := by decide +kernel
  have hspaced : (Input.text ".class public LA;\n\n \t\n.super LB;\n").source
      = .ok ⟨[some ".class public LA;\n", some "\n", some " \t\n", some ".super LB;\n"]⟩ := by decide +kernel
  have hbetween : (plain.reader .standard).Between ⟨⟨[]⟩, .start, [.node .classDef], ⟨(), []⟩⟩
      [some ".class public LA;\n"] := by
    refine between_of_opening ?_ ?_
    · decide +kernel
    · decide +kernel
  have hblank : IsBlank "\n" ∧ IsBlank " \t\n" := ⟨⟨by decide, by decide⟩, by decide, by decide⟩
  refine ⟨rfl, (plain.visit_spaced rfl .standard .classDef ⟨[]⟩ .start [] ()).1 rfl rfl hsource hspaced ?_⟩
  exact .line _ (.blank hblank.1 hbetween (.blank hblank.2 hbetween (.line _ (.nil _))))

/-- A blank line in front of the header of a class, and one inside the data of an array: both readings fail, and
without the blank line neither does. -/
theorem visit_blank_line_fails :
    let read (text : String) := (outcome ((plain.reader .standard).visit (.text text) (some .classDef))
      ⟨⟨[]⟩, .start, [], ⟨(), []⟩⟩).1
    read ".class public LA;\n" = .ok () ∧ read "\n.class public LA;\n" = .error .noElement ∧
      read ".class public LA;\n.method a()V\n.array-data 4\n1\n.end array-data\n.end method\n" = .ok () ∧
      read ".class public LA;\n.method a()V\n.array-data 4\n\n1\n.end array-data\n.end method\n"
        = .error .noElement := by
  refine ⟨?_, ?_, ?_, ?_⟩
  · decide +kernel
  · decide +kernel
  · decide +kernel
  · decide +kernel

end Audience

end Dalvik
