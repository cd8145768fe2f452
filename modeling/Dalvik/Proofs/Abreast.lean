import Dalvik.Proofs.Audience
import Dalvik.Proofs.Comparison
import Mathlib.Data.List.DropRight

/-!
# Two readings of the same statements

Two sources that differ only in comments on lines of their own have the same statements (`Source.statements`). Two
readings of them are at the same statement all the time (`Audience.Abreast`), but they pass different lines in front
of it, and where the source ends they stand on different lines. So the readings are compared by a relation that
leaves the line at hand out where the reading is about to end (`Audience.Alike`). Comments are passed by moving to
the next line (`Audience.alike_nextLine`); everything else that a reader does is the same in both
(`Audience.remarkComparison`).

An audience hears the comments that are delivered. It is asked to go on as if it had not (`Audience.Overlooks`):
there is a relation between its states that no comment leaves and no answer can tell.
-/

namespace Dalvik

open Dalvik.Text Line Source List

/-- The lines of a source that are no comments, without the white space at their ends. -/
def Source.statements (src : Source) : List (Option String) :=
  (src.lines.filter fun l => !l.any isRemark).map (Option.map (trimEnd isBlank))

theorem Line.ofString_trimEnd (text : String) : ofString (trimEnd isBlank text) = ofString text := by
  have h : dropEnd isBlank (dropEnd isBlank text.toList) = dropEnd isBlank text.toList := by
    simp only [dropEnd, reverse_reverse, dropWhile_idempotent]
  simp only [ofString, trimEnd, String.toList_ofList, h]

theorem Line.raw_eq {text : String} {l : Line} (h : ofString text = .ok l) : l.raw = trimEnd isBlank text := by
  unfold ofString at h
  dsimp only at h
  generalize splitWords " " _ = ws at h
  cases ws with
  | ok ws =>
    cases h
    rfl
  | error f => cases h

namespace Audience

open Read Reader

variable {ν σ α β : Type}
variable {s s' : Session ν (Attendance ν σ)} {e : Event} {x x' : Read ν (Attendance ν σ) α}

/-- The calls that are not for comments on lines of their own. -/
def spoken (calls : List (ν × Event)) : List (ν × Event) :=
  calls.filter fun c => !c.2.isComment

/-- An audience cannot tell states apart that are related by `W`. -/
structure Respects (A : Audience ν σ) (W : σ → σ → Prop) : Prop where
  equivalence : Equivalence W
  answer : ∀ n e w w', e.isComment = false → W w w' → (outcome (A.answer n e) w).1 = (outcome (A.answer n e) w').1 ∧
      W (outcome (A.answer n e) w).2 (outcome (A.answer n e) w').2
  keep : ∀ keep, A.keep? = some keep → ∀ line slot w w', W w w' →
    (outcome (keep line slot) w).1 = (outcome (keep line slot) w').1 ∧
      W (outcome (keep line slot) w).2 (outcome (keep line slot) w').2

/-- An audience that hears comments and then goes on as if it had not. -/
structure Overlooks (A : Audience ν σ) (W : σ → σ → Prop) : Prop extends Respects A W where
  hears : ∀ n, A.hears n .comment = true
  comment : ∀ n d w, (∃ node?, (outcome (A.answer n (.comment d)) w).1 = .ok node?) ∧
    W w (outcome (A.answer n (.comment d)) w).2
  remark : ∀ keep, A.keep? = some keep → ∀ line w, isRemark line = true →
    (outcome (keep (trimEnd isBlank line) .absent) w).1 = .ok () ∧
      W w (outcome (keep (trimEnd isBlank line) .absent) w).2

theorem respects_eq (A : Audience ν σ) : A.Respects Eq where
  equivalence := eq_equivalence
  answer _ _ _ _ _ h := by subst h; exact ⟨rfl, rfl⟩
  keep _ _ _ _ _ _ h := by subst h; exact ⟨rfl, rfl⟩

/-- Two readings at the same statement. -/
structure Abreast (W : σ → σ → Prop) (comments : Bool) (s s' : Session ν (Attendance ν σ)) : Prop where
  statements : s.source.statements = s'.source.statements
  whole : some "" ∉ s.source.lines
  whole' : some "" ∉ s'.source.lines
  stack : s.stack = s'.stack
  own : W s.world.own s'.world.own
  calls : spoken s.world.calls = spoken s'.world.calls
  silent : comments = false → ∀ c ∈ s.world.calls, c.2.isComment = false

/-- Two ends of readings: the same result in sessions abreast. The line at hand is the same too, unless the
reading is over. -/
structure Alike (W : σ → σ → Prop) (comments : Bool) (x x' : Except Fault α × Session ν (Attendance ν σ)) : Prop where
  result : x.1 = x'.1
  abreast : Abreast W comments x.2 x'.2
  cursor : x.2.cursor = x'.2.cursor ∨ ∃ f, x.1 = .error f ∧ f.endsReading = true

/-- Two steps that do the same, comments apart. With `b` a construct is open before and after them. -/
def Concur (W : σ → σ → Prop) (comments b : Bool) (x x' : Read ν (Attendance ν σ) α) : Prop :=
  ∀ s s', Abreast W comments s s' → s.cursor = s'.cursor → (b = true → s.stack ≠ []) →
    Alike W comments (outcome x s) (outcome x' s') ∧ (b = true → (outcome x s).2.stack ≠ [])

section Concur

variable {W : σ → σ → Prop} {comments b : Bool}

/-- Two ends of readings are both an end with the same fault, or both go on from the same line. -/
theorem Alike.cases {y y' : Except Fault α × Session ν (Attendance ν σ)} (h : Alike W comments y y') :
    (∃ a t t', y = (.ok a, t) ∧ y' = (.ok a, t') ∧ Abreast W comments t t' ∧ t.cursor = t'.cursor) ∨
      ∃ f t t', y = (.error f, t) ∧ y' = (.error f, t') ∧ Abreast W comments t t' ∧
        (t.cursor = t'.cursor ∨ f.endsReading = true) := by
  obtain ⟨res, t⟩ := y
  obtain ⟨res', t'⟩ := y'
  obtain ⟨hres, habreast, hcursor⟩ := h
  obtain rfl : res = res' := hres
  cases res with
  | ok a => exact .inl ⟨a, t, t', rfl, rfl, habreast, hcursor.resolve_right fun ⟨f, hf, _⟩ => nomatch hf⟩
  | error f => exact .inr ⟨f, t, t', rfl, rfl, habreast, hcursor.imp_right fun ⟨g, hg, hends⟩ => Except.error.inj hg ▸ hends⟩

section

variable (h : Abreast W comments s s')

include h

theorem Abreast.move (k k' : Cursor) : Abreast W comments { s with cursor := k } { s' with cursor := k' } :=
  ⟨h.statements, h.whole, h.whole', h.stack, h.own, h.calls, h.silent⟩

theorem Abreast.restack (st : Slots ν) : Abreast W comments { s with stack := st } { s' with stack := st } :=
  ⟨h.statements, h.whole, h.whole', rfl, h.own, h.calls, h.silent⟩

theorem Abreast.act {w w' : σ} (hw : W w w') :
    Abreast W comments { s with world := { s.world with own := w } } { s' with world := { s'.world with own := w' } } :=
  ⟨h.statements, h.whole, h.whole', h.stack, hw, h.calls, h.silent⟩

end

theorem spoken_append (calls : List (ν × Event)) {n : ν} (he : e.isComment = false) :
    spoken (calls ++ [(n, e)]) = spoken calls ++ [(n, e)] := by
  simp [spoken, he]

theorem Abreast.call {s s' : Session ν (Attendance ν σ)} (h : Abreast W comments s s') (n : ν) {e : Event}
    (he : e.isComment = false) {w w' : σ} (hw : W w w') :
    Abreast W comments { s with world := ⟨w, s.world.calls ++ [(n, e)]⟩ }
      { s' with world := ⟨w', s'.world.calls ++ [(n, e)]⟩ } where
  statements := h.statements
  whole := h.whole
  whole' := h.whole'
  stack := h.stack
  own := hw
  calls := by
    have hcalls := h.calls
    simp only [spoken_append _ he]
    rw [hcalls]
  silent hoff c hc := by
    rcases mem_append.mp hc with hc | hc
    · exact h.silent hoff c hc
    · rw [mem_singleton.mp hc]
      exact he

theorem concur_onLine (h : OnLine x) : Concur W comments b x x := by
  obtain ⟨g, hg⟩ := h
  intro s s' hs hk hst
  rw [hg, hg, hk]
  exact ⟨⟨rfl, hs.move _ _, .inl rfl⟩, hst⟩

theorem Concur.bind {k k' : α → Read ν (Attendance ν σ) β} (hx : Concur W comments b x x')
    (hk : ∀ a, Concur W comments b (k a) (k' a)) :
    Concur W comments b (x >>= k) (x' >>= k') := by
  intro s s' hs hcur hst
  obtain ⟨h, hst'⟩ := hx s s' hs hcur hst
  rw [outcome_bind, outcome_bind]
  rcases h.cases with ⟨a, t, t', e, e', habreast, hcursor⟩ | ⟨f, t, t', e, e', habreast, hcursor⟩
  · rw [e] at hst' ⊢
    rw [e']
    exact hk a t t' habreast hcursor hst'
  · rw [e] at hst' ⊢
    rw [e']
    exact ⟨⟨rfl, habreast, hcursor.imp_right fun hends => ⟨f, rfl, hends⟩⟩, hst'⟩

theorem Concur.tryCatch {k k' : Fault → Read ν (Attendance ν σ) α} (hx : Concur W comments b x x')
    (hk : ∀ f, Concur W comments b (k f) (k' f)) (hends : ∀ f, f.endsReading = true → k f = throw f ∧ k' f = throw f) :
    Concur W comments b (MonadExcept.tryCatch x k) (MonadExcept.tryCatch x' k') := by
  intro s s' hs hcur hst
  obtain ⟨h, hst'⟩ := hx s s' hs hcur hst
  rw [outcome_tryCatch, outcome_tryCatch]
  rcases h.cases with ⟨a, t, t', e, e', habreast, hcursor⟩ | ⟨f, t, t', e, e', habreast, hcursor | hf⟩
  · rw [e] at hst' ⊢
    rw [e']
    exact ⟨⟨rfl, habreast, .inl hcursor⟩, hst'⟩
  · rw [e] at hst' ⊢
    rw [e']
    exact hk f t t' habreast hcursor hst'
  · rw [e] at hst' ⊢
    rw [e']
    dsimp only
    rw [(hends f hf).1, (hends f hf).2]
    exact ⟨⟨rfl, habreast, .inr ⟨f, rfl, hf⟩⟩, hst'⟩

theorem concur_top_bind {k k' : Slot ν → Read ν (Attendance ν σ) α}
    (hk : ∀ slot, Concur W comments true (k slot) (k' slot)) : Concur W comments b (top >>= k) (top >>= k') := by
  intro s s' hs hcur hst
  obtain ⟨src, cur, st, w⟩ := s
  obtain ⟨src', cur', st', w'⟩ := s'
  obtain rfl : st = st' := hs.stack
  cases st with
  | nil => exact ⟨⟨rfl, hs, .inl hcur⟩, fun hb => absurd rfl (hst hb)⟩
  | cons slot st =>
    obtain ⟨halike, hne⟩ := hk slot _ _ hs hcur fun _ => cons_ne_nil _ _
    exact ⟨halike, fun _ => hne rfl⟩

theorem concur_push (slot : Slot ν) : Concur W comments b (push slot) (push slot) := by
  intro s s' hs hcur _
  obtain ⟨src, cur, st, w⟩ := s
  obtain ⟨src', cur', st', w'⟩ := s'
  obtain rfl : st = st' := hs.stack
  exact ⟨⟨rfl, hs.restack _, .inl hcur⟩, fun _ => cons_ne_nil _ _⟩

theorem concur_pop : Concur W comments false (pop : Read ν (Attendance ν σ) (Slot ν)) pop := by
  intro s s' hs hcur _
  refine ⟨?_, nofun⟩
  obtain ⟨src, cur, st, w⟩ := s
  obtain ⟨src', cur', st', w'⟩ := s'
  obtain rfl : st = st' := hs.stack
  cases st with
  | nil => exact ⟨rfl, hs, .inl hcur⟩
  | cons slot st => exact ⟨rfl, hs.restack _, .inl hcur⟩

end Concur

variable (A : Audience ν σ) (o : Options) {W : σ → σ → Prop}

section Steps

variable (hW : A.Respects W) {comments b : Bool}

include hW

theorem alike_sendTo (slot : Slot ν) (he : e.isComment = false) (hs : Abreast W comments s s') :
    let x := outcome ((A.reader o).sendTo slot e) s
    let x' := outcome ((A.reader o).sendTo slot e) s'
    x.1 = x'.1 ∧ Abreast W comments x.2 x'.2 ∧ x.2.cursor = s.cursor ∧ x'.2.cursor = s'.cursor ∧ x.2.stack = s.stack := by
  cases hv : (A.reader o).hears slot e.verb with
  | false =>
    have hrefuse (u : Session ν (Attendance ν σ)) :
        outcome ((A.reader o).sendTo slot e) u = (.error .noOperation, u) := by
      simp [sendTo, require, hv]
    simp only [hrefuse]
    exact ⟨trivial, hs, trivial, trivial, trivial⟩
  | true =>
    cases slot with
    | absent => cases hv
    | blank shape =>
      have hblank (u : Session ν (Attendance ν σ)) :
          outcome ((A.reader o).sendTo (.blank shape) e) u = (.ok none, u) := by
        simp [sendTo, require, hv]
      simp only [hblank]
      exact ⟨trivial, hs, trivial, trivial, trivial⟩
    | node n =>
      have hnode : (A.reader o).sendTo (.node n) e = A.host.deliver n e := (A.reader o).sendTo_node hv
      obtain ⟨hres, hown⟩ := hW.answer n e _ _ he hs.own
      simp only [hnode, outcome_deliver]
      exact ⟨hres, hs.call n he hown, trivial, trivial, trivial⟩

theorem concur_sendTo (slot : Slot ν) (he : e.isComment = false) :
    Concur W comments b ((A.reader o).sendTo slot e) ((A.reader o).sendTo slot e) := by
  intro s s' hs hcur hst
  obtain ⟨hres, habreast, hk, hk', hstack⟩ := A.alike_sendTo o hW slot he hs
  refine ⟨⟨hres, habreast, .inl ?_⟩, fun hb => ?_⟩
  · rw [hk, hk', hcur]
  · rw [hstack]
    exact hst hb

theorem concur_copyLine : Concur W comments b (A.reader o).copyLine (A.reader o).copyLine := by
  unfold copyLine
  split
  · exact concur_onLine (onLine_pure _)
  · rename_i copy hcopy
    obtain ⟨keep, hkeep, rfl⟩ := Option.map_eq_some_iff.mp hcopy
    refine (concur_onLine onLine_currentLine).bind fun l => concur_top_bind fun slot => ?_
    intro s s' hs hcur hst
    obtain ⟨hres, hown⟩ := hW.keep keep hkeep l.raw slot _ _ hs.own
    exact ⟨⟨hres, hs.act hown, .inl hcur⟩, hst⟩

end Steps

/-! ### The next line -/

/-- Nothing but comments was heard. -/
structure Passed (W : σ → σ → Prop) (comments : Bool) (w w' : Attendance ν σ) : Prop where
  own : W w.own w'.own
  calls : spoken w'.calls = spoken w.calls
  silent : comments = false → w'.calls = w.calls

section NextLine

variable (hW : A.Respects W) (hc : o.comments = true → A.Overlooks W)

include hW in
theorem passed_refl {comments : Bool} (w : Attendance ν σ) : Passed W comments w w :=
  ⟨hW.equivalence.refl _, rfl, fun _ => rfl⟩

include hW in
theorem passed_trans {comments : Bool} {u v w : Attendance ν σ} (h : Passed W comments u v)
    (h' : Passed W comments v w) : Passed W comments u w :=
  ⟨hW.equivalence.trans h.own h'.own, h'.calls.trans h.calls, fun hoff => (h'.silent hoff).trans (h.silent hoff)⟩

include hW hc

theorem outcome_remark {text : String} (hremark : Line.isRemark text = true) {l : Line}
    (hl : Line.ofString text = .ok l) (src : Source) (slot : Slot ν) (st : Slots ν) (w : Attendance ν σ) :
    ∃ w', outcome (A.reader o).remark ⟨src, ⟨some l, l.words⟩, slot :: st, w⟩
        = (.ok (), ⟨src, ⟨some l, l.words⟩, slot :: st, w'⟩) ∧ Passed W o.comments w w' := by
  cases hcomments : o.comments with
  | false => exact ⟨w, by simp [remark, outcome_map, Except.map, hcomments], A.passed_refl hW w⟩
  | true =>
    have hO := hc hcomments
    cases slot with
    | absent =>
      cases hkeep : A.keep? with
      | none =>
        exact ⟨w, by simp [remark, outcome_bind, hcomments, Slot.isAbsent, copyLine, host, hkeep], A.passed_refl hW w⟩
      | some keep =>
        obtain ⟨hres, hown⟩ := hO.remark keep hkeep text w.own hremark
        refine ⟨{ w with own := (outcome (keep (trimEnd isBlank text) .absent) w.own).2 }, ?_, hown, rfl, nofun⟩
        simp [remark, outcome_bind, hcomments, Slot.isAbsent, copyLine, host, hkeep, outcome_act, Line.raw_eq hl, hres]
    | blank shape =>
      have hheard : (A.reader o).hears (.blank shape) .comment = true := by cases shape <;> rfl
      refine ⟨w, ?_, A.passed_refl hW w⟩
      simp [remark, outcome_bind, outcome_map, Except.map, hcomments, Slot.isAbsent, sendTo, require, Event.verb, hheard]
    | node n =>
      have hsend (e : Datum) : (A.reader o).sendTo (.node n) (.comment e) = A.host.deliver n (.comment e) :=
        (A.reader o).sendTo_node (hO.hears n)
      obtain ⟨comment, hcomment⟩ : ∃ comment, outcome (A.reader o).remark ⟨src, ⟨some l, l.words⟩, .node n :: st, w⟩
          = outcome (A.host.deliver n (.comment comment) >>= fun _ => pure ())
            ⟨src, ⟨some l, l.words⟩, .node n :: st, w⟩ := by
        cases htext : l.comment? with
        | none => exact ⟨.absent, by simp [remark, outcome_bind, hcomments, Slot.isAbsent, hsend, htext]⟩
        | some c => exact ⟨.text c, by simp [remark, outcome_bind, hcomments, Slot.isAbsent, hsend, htext]⟩
      obtain ⟨⟨node?, hnode⟩, hown⟩ := hO.comment n comment w.own
      refine ⟨⟨(outcome (A.answer n (.comment comment)) w.own).2, w.calls ++ [(n, .comment comment)]⟩, ?_,
        hown, by simp [spoken, Event.isComment], nofun⟩
      rw [hcomment, outcome_bind, outcome_deliver, hnode]
      rfl

theorem outcome_nextLineWithin (n : Nat) (hn : s.source.lines.length < n) (hst : s.stack ≠ [])
    (hwhole : some "" ∉ s.source.lines) :
    ∃ t, t.stack = s.stack ∧ Passed W o.comments s.world t.world ∧ some "" ∉ t.source.lines ∧
      match s.source.statements with
      | [] => outcome ((A.reader o).nextLineWithin n) s = (.error .endOfSource, t) ∧ t.source.statements = []
      | none :: rest => outcome ((A.reader o).nextLineWithin n) s = (.error .undecodable, t) ∧
          t.source.statements = rest
      | some text :: rest => ∃ l, Line.ofString text = .ok l ∧
          outcome ((A.reader o).nextLineWithin n) s = (.ok (), t) ∧ t.source.statements = rest ∧
            t.cursor = ⟨some l, l.words⟩ := by
  induction n generalizing s with
  | zero => omega
  | succ n ih =>
    obtain ⟨⟨lines⟩, k, st, w⟩ := s
    obtain ⟨slot, st, rfl⟩ : ∃ slot st', st = slot :: st' := exists_cons_of_ne_nil hst
    match lines with
    | [] => exact ⟨_, rfl, A.passed_refl hW w, hwhole, rfl, rfl⟩
    | none :: lines =>
      exact ⟨⟨⟨lines⟩, k, slot :: st, w⟩, rfl, A.passed_refl hW w, fun hmem => hwhole (.tail _ hmem), rfl, rfl⟩
    | some text :: lines =>
      have hne : text ≠ "" := by
        rintro rfl
        exact hwhole mem_cons_self
      have hwhole' : some "" ∉ lines := fun hmem => hwhole (.tail _ hmem)
      obtain ⟨l, hl⟩ := ofString_ok text
      have hreset : k.reset text = .ok ⟨some l, l.words⟩ := by
        simp [Cursor.reset, hne, hl, Except.map]
      have hadvance := outcome_advance_some text lines k (slot :: st) w
      rw [hreset] at hadvance
      unfold nextLineWithin
      rw [bind_ok _ hadvance]
      cases hremark : isRemark text with
      | true =>
        have hstatements : statements ⟨some text :: lines⟩ = statements ⟨lines⟩ := by
          simp [statements, hremark]
        obtain ⟨w', hw', hpassed⟩ := A.outcome_remark o hW hc hremark hl ⟨lines⟩ slot st w
        obtain ⟨t, hstack, ht, hwholet, hrest⟩ := ih (s := ⟨⟨lines⟩, ⟨some l, l.words⟩, slot :: st, w'⟩)
          (by simpa using hn) (cons_ne_nil _ _) hwhole'
        refine ⟨t, hstack, A.passed_trans hW hpassed ht, hwholet, ?_⟩
        rw [hstatements]
        simp only [if_true, bind_ok _ hw']
        exact hrest
      | false =>
        have hstatements : statements ⟨some text :: lines⟩ = some (trimEnd isBlank text) :: statements ⟨lines⟩ := by
          simp [statements, hremark]
        refine ⟨⟨⟨lines⟩, ⟨some l, l.words⟩, slot :: st, w⟩, rfl, A.passed_refl hW w, hwhole', ?_⟩
        rw [hstatements]
        exact ⟨l, by rw [ofString_trimEnd, hl], rfl, rfl, rfl⟩

theorem alike_nextLine (hs : Abreast W o.comments s s') (hst : s.stack ≠ []) :
    Alike W o.comments (outcome (A.reader o).nextLine s) (outcome (A.reader o).nextLine s') ∧
      (outcome (A.reader o).nextLine s).2.stack = s.stack := by
  obtain ⟨t, hstack, hpassed, hwhole, h⟩ := A.outcome_nextLineWithin o hW hc _ (Nat.lt_succ_self _) hst hs.whole
  obtain ⟨t', hstack', hpassed', hwhole', h'⟩ :=
    A.outcome_nextLineWithin o hW hc _ (Nat.lt_succ_self _) (by rw [← hs.stack]; exact hst) hs.whole'
  have hnext (u : Session ν (Attendance ν σ)) : outcome (A.reader o).nextLine u
      = outcome ((A.reader o).nextLineWithin (u.source.lines.length + 1)) u := rfl
  have abreast (hstatements : t.source.statements = t'.source.statements) : Abreast W o.comments t t' := by
    refine ⟨hstatements, hwhole, hwhole', ?_, ?_, ?_, fun hoff => ?_⟩
    · rw [hstack, hstack', hs.stack]
    · exact hW.equivalence.trans (hW.equivalence.symm hpassed.own) (hW.equivalence.trans hs.own hpassed'.own)
    · rw [hpassed.calls, hpassed'.calls, hs.calls]
    · rw [hpassed.silent hoff]
      exact hs.silent hoff
  rw [← hs.statements] at h'
  rw [hnext, hnext]
  generalize s.source.statements = statements at h h'
  match statements with
  | [] =>
    obtain ⟨hout, hrest⟩ := h
    obtain ⟨hout', hrest'⟩ := h'
    rw [hout, hout']
    exact ⟨⟨rfl, abreast (by rw [hrest, hrest']), .inr ⟨_, rfl, rfl⟩⟩, hstack⟩
  | none :: rest =>
    obtain ⟨hout, hrest⟩ := h
    obtain ⟨hout', hrest'⟩ := h'
    rw [hout, hout']
    exact ⟨⟨rfl, abreast (by rw [hrest, hrest']), .inr ⟨_, rfl, rfl⟩⟩, hstack⟩
  | some text :: rest =>
    obtain ⟨l, hl, hout, hrest, hcur⟩ := h
    obtain ⟨l', hl', hout', hrest', hcur'⟩ := h'
    obtain rfl : l = l' := Except.ok.inj (hl.symm.trans hl')
    rw [hout, hout']
    exact ⟨⟨rfl, abreast (by rw [hrest, hrest']), .inl (by rw [hcur, hcur'])⟩, hstack⟩

/-- One reader on two sources. -/
def remarkComparison : Comparison (A.reader o) (A.reader o) where
  Agree b _ x x' := Concur W o.comments b x x'
  onLine h := concur_onLine h
  bind hx hk := hx.bind hk
  atLineEnd hx := by
    refine hx.tryCatch (fun f => ?_) fun f hf => ?_
    · split
      · split
        · exact concur_onLine (onLine_throw _)
        · exact concur_onLine (onLine_pure _)
      · exact concur_onLine (onLine_throw _)
    · have hne : f ≠ .lineExhausted := by
        rintro rfl
        cases hf
      exact ⟨if_neg hne, if_neg hne⟩
  top_bind hk := concur_top_bind hk
  push slot := concur_push slot
  pop := concur_pop
  hasShape_eq _ _ := rfl
  require slot v := by
    unfold require
    split
    · exact concur_onLine (onLine_pure _)
    · exact concur_onLine (onLine_throw _)
  sendTo slot _ he := A.concur_sendTo o hW slot he
  copyLine := A.concur_copyLine o hW
  checkKeyword w k := concur_onLine (parallel_checkKeyword rfl w k).onLine
  checkDescriptor w := concur_onLine (parallel_checkDescriptor rfl w).onLine
  checkCount n := concur_onLine (parallel_checkCount rfl n).onLine
  nextLine := by
    intro s s' hs _ hst
    obtain ⟨halike, hstack⟩ := A.alike_nextLine o hW hc hs (hst rfl)
    exact ⟨halike, fun _ => by rw [hstack]; exact hst rfl⟩
  bounded {b α k k'} hk hsettled hsettled' := by
    intro s s' hs hcur hst
    -- both loops may as well be bounded by the larger one of the two bounds
    have hbound (u : Session ν (Attendance ν σ)) (k : Nat → Read ν (Attendance ν σ) α) :
        outcome (payloadBound >>= k) u = outcome (k (u.source.lines.length + 1)) u := rfl
    rw [hbound, hbound,
      hsettled s _ (max s.source.lines.length s'.source.lines.length + 1) (Nat.lt_succ_self _) (by omega),
      hsettled' s' _ (max s.source.lines.length s'.source.lines.length + 1) (Nat.lt_succ_self _) (by omega)]
    exact hk _ s s' hs hcur hst

/-! ### The body of a source -/

theorem alike_readLine (hs : Abreast W o.comments s s') (hst : s.stack ≠ []) :
    Alike W o.comments (outcome (A.reader o).readLine s) (outcome (A.reader o).readLine s') := by
  have h := (A.alike_nextLine o hW hc hs hst).1
  rw [readLine, outcome_bind, outcome_bind]
  rcases h.cases with ⟨a, t, t', e, e', habreast, hcursor⟩ | ⟨f, t, t', e, e', habreast, hcursor⟩
  · have hline : Concur W o.comments false _ _ :=
      (A.remarkComparison o hW hc).lineAtHand A.host_private A.host_private
    rw [e, e']
    exact (hline t t' habreast hcursor fun h => absurd h Bool.false_ne_true).1
  · rw [e, e']
    exact ⟨rfl, habreast, hcursor.imp_right fun hends => ⟨f, rfl, hends⟩⟩

end NextLine

end Audience

end Dalvik
