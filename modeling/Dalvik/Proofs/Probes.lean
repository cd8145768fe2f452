import Dalvik.Proofs.Isolation
import Dalvik.Proofs.Pairing
import Dalvik.Proofs.Words

/-!
# Lines put behind a front

What a reader has done by the time it asks for a line does not depend on that line. To say where it asks, a probe is
put behind the lines in front: a line that is no text, at which every reading stops. A reading with other lines
there is related to the reading with the probe until the probe is taken (`Reader.running`). Steps on the current
line take no line at all (`Reader.standing`). And if a blank line stands in the place of the probe, a statement that
takes it from its own middle ends in a fault with nothing done since (`Reader.stalling`): there is no word on a blank
line, and all statements that run over several lines look for the first character of one.
-/

namespace Dalvik

open Dalvik.Text List Nat

variable {ν σ α β : Type}
variable {text : String} {lines : Lines}

/-- A session with other lines. -/
def Session.withLines (s : Session ν σ) (lines : List (Option String)) : Session ν σ :=
  { s with source := ⟨lines⟩ }

/-! ### Blank lines -/

/-- A text with nothing but white space. The line break alone is one; a text without any character is no line. -/
structure Line.IsBlank (text : String) : Prop where
  ne_empty : text ≠ ""
  all_blank : ∀ c ∈ text.toList, isBlank c = true

/-- The line of a blank text has one word, which is empty. -/
def Line.blank : Line := ⟨"", "", none, [""]⟩

theorem Line.IsBlank.isRemark_eq (h : IsBlank text) : isRemark text = false := by
  have hstart : dropStart isBlank (text.toList ++ []) = [] := Line.dropStart_append h.all_blank nofun
  rw [isRemark, ← append_nil text.toList, hstart]
  rfl

theorem Line.IsBlank.ofString_eq (h : IsBlank text) : ofString text = .ok blank := by
  have hend : dropEnd isBlank ([] ++ text.toList) = [] := Line.dropEnd_append h.all_blank nofun
  rw [nil_append] at hend
  rw [ofString, hend]
  rfl

/-- The cursor at the start of a blank line. -/
def Cursor.blank : Cursor := ⟨some .blank, [""]⟩

namespace Reader

open Read

variable {r : Reader ν σ}

theorem outcome_nextLine_blank_cons {b : String} (hb : Line.IsBlank b) (back : Lines) (s : Session ν σ) :
    outcome r.nextLine (s.withLines (some b :: back)) = (.ok (), { s.withLines back with cursor := .blank }) :=
  r.outcome_nextLine hb.isRemark_eq hb.ne_empty hb.ofString_eq back s.cursor s.stack s.world

/-! ### Sessions that differ in their lines -/

/-- Two sessions differ in their lines alone, and their lines are related. -/
structure Beside (Q : Source → Source → Prop) (s s' : Session ν σ) : Prop where
  source : Q s.source s'.source
  eq : s' = { s with source := s'.source }

/-- Two readings of different lines, and how they part. -/
def beside (Q : Source → Source → Prop) (halt? : Option Fault) (Part : Session ν σ → Session ν σ → Prop)
    (hpart : halt? = none → ∀ {t u t'}, Part t t' → Part u t') : Pairing ν σ ν σ where
  Peer := Eq
  Rel := Beside Q
  cursor_eq h := by rw [h.eq]
  move h k := ⟨h.source, by rw [h.eq]⟩
  stack h := by
    rw [h.eq]
    exact forall₂_same.mpr fun slot _ => .of_eq slot
  restack h _ _ hst := by
    have heq : Forall₂ Eq _ _ := hst.imp fun _ _ htwin => Slot.Twin.eq htwin
    rw [forall₂_eq_eq_eq] at heq
    exact ⟨h.source, by rw [h.eq, heq]⟩
  Grows _ _ := True
  grows_refl _ := trivial
  grows_trans _ _ := trivial
  exit := .undecodable
  halt? := halt?
  Part := Part
  part_grows h _ _ _ ht _ := hpart h ht

section Beside

variable {Q : Source → Source → Prop} {halt? : Option Fault} {Part : Session ν σ → Session ν σ → Prop}
  {hpart : halt? = none → ∀ {t u t'}, Part t t' → Part u t'} {R : α → α → Prop}

theorem sound_beside (hR : ∀ a, R a a) (x : Read ν σ α) : (beside Q halt? Part hpart).Sound R x :=
  fun _ _ => ⟨fun slot _ => ⟨slot, .of_eq slot⟩, trivial, fun a _ => ⟨a, hR a⟩⟩

theorem agree_inWorld {x : Read ν σ α} (h : InWorld x) (hR : ∀ a, R a a) : (beside Q halt? Part hpart).Agree R x x := by
  obtain ⟨act, hact⟩ := h
  refine ⟨sound_beside hR x, fun s s' hs => .inl ?_⟩
  rw [hs.eq, hact, hact]
  refine ⟨?_, hs.source, rfl⟩
  change Matching R (act s.world).1 (act s.world).1
  cases (act s.world).1 with
  | ok a => exact .ok (hR a)
  | error f => exact .error f

theorem attends_beside (h : r.host.Private) (hcopy : r.host.copy? = none) (hhalt : halt? ≠ some .lineExhausted) :
    (beside Q halt? Part hpart).Attends r r where
  options_eq := rfl
  hears_eq h v := by rw [show _ = _ from h]
  hasShape_eq h shape := by rw [show _ = _ from h]
  deliver hn e _ _ := by
    rw [← show _ = _ from hn]
    exact agree_inWorld (h.deliver _ e) Slot.Twin.rel_of_eq
  copyLine := by
    unfold Reader.copyLine
    rw [hcopy]
    exact Pairing.agree_ret rfl
  exit_ne := nofun
  halt_ne := hhalt

end Beside

/-- The two readings have these lines and take none, so they never part. -/
def standing (q q' : Source) : Pairing ν σ ν σ :=
  beside (fun p p' => p = q ∧ p' = q') none (fun _ _ => False) fun _ _ _ _ h => h

/-- The second reading has a probe where the first one has the lines `rest`. -/
def Probed (rest : List (Option String)) (q q' : Source) : Prop :=
  ∃ lines, q.lines = lines ++ rest ∧ q'.lines = lines ++ [none]

/-- The two readings part where the probe is taken. -/
def running (rest : List (Option String)) : Pairing ν σ ν σ :=
  beside (Probed rest) none (fun _ t' => t'.source.lines = []) fun _ _ _ _ h => h

/-- The two readings part where the probe is taken, and the first one ends there as well. -/
def stalling (rest : List (Option String)) : Pairing ν σ ν σ :=
  beside (Probed rest) (some .noElement)
    (fun t t' => t'.source.lines = [] ∧ t.stack = t'.stack ∧ t.world = t'.world) nofun

section Lines

variable {q q' : Source} {rest back : Lines} {s s' u : Session ν σ}

theorem Probed.ne_nil (h : Probed rest q q') : q'.lines ≠ [] := by
  obtain ⟨lines, -, hq'⟩ := h
  rw [hq']
  exact append_ne_nil_of_right_ne_nil lines (cons_ne_nil _ _)

theorem agree_advance_running : (running rest).Agree Eq (advance : Read ν σ String) advance := by
  refine ⟨sound_beside (fun _ => rfl) _, fun s s' hs => ?_⟩
  obtain ⟨⟨lines, hq, hq'⟩, heq⟩ := hs
  obtain ⟨⟨ls⟩, k, st, w⟩ := s
  obtain ⟨⟨ls'⟩, k', st', w'⟩ := s'
  obtain rfl : ls = lines ++ rest := hq
  obtain rfl : ls' = lines ++ [none] := hq'
  obtain ⟨rfl, rfl, rfl⟩ : k' = k ∧ st' = st ∧ w' = w := by simpa using heq
  rcases lines with _ | ⟨_ | l, lines⟩
  · exact .inr ⟨rfl, nofun, rfl⟩
  · exact .inl ⟨.error _, ⟨lines, rfl, rfl⟩, rfl⟩
  · left
    obtain ⟨c, hc⟩ := k'.reset_ok l
    simp only [cons_append, outcome_advance_some, hc]
    exact ⟨.ok rfl, ⟨lines, rfl, rfl⟩, rfl⟩

theorem outcome_withLines {x : Read ν σ α} (hx : ∀ q q', (standing q q').Agree Eq x x) (hs : s.source.lines = lines)
    (rest : Lines) :
    (outcome x s).2.source.lines = lines ∧
      outcome x (s.withLines rest) = ((outcome x s).1, (outcome x s).2.withLines rest) := by
  have hs' : s.source = ⟨lines⟩ := by rw [← hs]
  rcases (hx ⟨lines⟩ ⟨rest⟩).2 s (s.withLines rest) ⟨⟨hs', rfl⟩, rfl⟩ with ⟨hres, ⟨hq, hq'⟩, heq⟩ | ⟨-, -, hpart⟩
  · refine ⟨by rw [hq], Prod.ext hres.eq.symm ?_⟩
    rw [heq, hq']
    rfl
  · exact hpart.elim

variable (h : r.host.Private)

include h

theorem settled_nextLineWithin : Settled r.nextLineWithin := by
  have g := governs_taking h
  intro s n m hn hm
  induction n generalizing s m with
  | zero => omega
  | succ n ih =>
    cases m with
    | zero => omega
    | succ m =>
      refine outcome_bind_congr fun l t ht => ?_
      have hlen := congrArg List.length (advance_ok ht).1
      rw [List.length_cons] at hlen
      split
      · exact settled_step g.remark (by omega) (by omega) fun _ u hun hum => ih u m hun hum
      · rfl

theorem outcome_nextLine_cons {l : String} {c : Cursor} (hc : s.cursor.reset l = .ok c) (back : Lines) :
    outcome r.nextLine (s.withLines (some l :: back)) =
      if Line.isRemark l then outcome (r.remark >>= fun _ => r.nextLine) { s.withLines back with cursor := c }
      else (.ok (), { s.withLines back with cursor := c }) := by
  have hadvance : outcome advance (s.withLines (some l :: back)) = (.ok l, { s.withLines back with cursor := c }) := by
    rw [Session.withLines, outcome_advance_some, hc]
    rfl
  have hnext : outcome r.nextLine (s.withLines (some l :: back))
      = outcome (r.nextLineWithin (back.length + 2)) (s.withLines (some l :: back)) := rfl
  rw [hnext, nextLineWithin, bind_ok _ hadvance]
  split
  · refine outcome_bind_congr fun _ t ht => ?_
    have hlen : t.source.lines.length ≤ back.length := ((governs_taking h).remark _ trivial).leads_of ht
    exact settled_nextLineWithin h t _ _ (by omega) (lt_succ_self _)
  · rfl

variable (hcopy : r.host.copy? = none)

include hcopy

theorem attends_standing : (standing q q').Attends r r := attends_beside h hcopy nofun

/-- If nothing but comments is passed before the probe is asked for, then with other lines in its place the reading
asks for the first of these. -/
theorem outcome_nextLine_asked (hprobe : outcome r.nextLine (s.withLines (lines ++ [none])) = (.error .undecodable, u))
    (hu : u.source.lines = []) :
    outcome r.nextLine (s.withLines (lines ++ rest)) = outcome r.nextLine (u.withLines rest) := by
  induction lines generalizing s with
  | nil =>
    cases hprobe
    rfl
  | cons l? lines ih =>
    cases l? with
    | none =>
      -- an undecodable line in front of the probe leaves the probe untouched
      cases hprobe
      cases lines <;> cases hu
    | some l =>
      obtain ⟨c, hc⟩ := s.cursor.reset_ok l
      rw [cons_append, outcome_nextLine_cons h hc] at hprobe ⊢
      cases hremark : Line.isRemark l with
      | false =>
        rw [hremark] at hprobe
        cases hprobe
      | true =>
        simp only [hremark, if_true] at hprobe ⊢
        generalize hs₁ : ({ s.withLines (lines ++ [none]) with cursor := c } : Session ν σ) = s₁ at hprobe
        have hback : ({ s.withLines (lines ++ rest) with cursor := c } : Session ν σ)
            = s₁.withLines (lines ++ rest) := by rw [← hs₁]; rfl
        obtain ⟨hlines, hsame⟩ := outcome_withLines (fun _ _ => (attends_standing h hcopy).remark)
          (show s₁.source.lines = lines ++ [none] by rw [← hs₁]; rfl) (lines ++ rest)
        rw [hback, outcome_bind, hsame]
        rw [outcome_bind] at hprobe
        rcases ht : outcome r.remark s₁ with ⟨res, t⟩
        rw [ht] at hprobe hlines
        cases res with
        | error f =>
          cases hprobe
          exact absurd (hlines.symm.trans hu) (by simp)
        | ok a =>
          have heta : t = t.withLines (lines ++ [none]) := by rw [← show t.source.lines = _ from hlines]; rfl
          rw [heta] at hprobe
          exact ih hprobe

theorem Beside.outcome_nextLine (hs : Beside (Probed rest) s s')
    (hprobe : outcome r.nextLine s' = (.error .undecodable, u)) (hu : u.source.lines = []) :
    outcome r.nextLine s = outcome r.nextLine (u.withLines rest) := by
  obtain ⟨⟨lines, hq, hq'⟩, heq⟩ := hs
  have hs : s = s.withLines (lines ++ rest) := by rw [← hq]; rfl
  have hs' : s' = s.withLines (lines ++ [none]) := by rw [← hq']; exact heq
  rw [hs'] at hprobe
  rw [hs]
  exact outcome_nextLine_asked h hcopy hprobe hu

/-! ### Up to the probe -/

theorem attends_running (rest : Lines) : (running rest).Attends r r := attends_beside h hcopy nofun

omit h hcopy in
theorem agree_settled {P : Pairing ν σ ν σ} {R : α → β → Prop} {k : Nat → Read ν σ α} {k' : Nat → Read ν σ β}
    (hk : ∀ n, P.Agree R (k n) (k' n)) (hset : Settled k) (hset' : Settled k') :
    P.Agree R (payloadBound >>= k) (payloadBound >>= k') := by
  refine ⟨fun s hs => (hk _).1 s hs, fun s s' hs => ?_⟩
  have hbound := (hk (s.source.lines.length + s'.source.lines.length + 1)).2 s s' hs
  rw [hset s _ (s.source.lines.length + 1) (by omega) (by omega),
    hset' s' _ (s'.source.lines.length + 1) (by omega) (by omega)] at hbound
  exact hbound

theorem agree_nextLine_running : (running rest).Agree Eq r.nextLine r.nextLine :=
  agree_settled (fun n => (attends_running h hcopy rest).nextLineWithin agree_advance_running n)
    (settled_nextLineWithin h) (settled_nextLineWithin h)

/-- Readings of other lines behind the same front agree until a line behind the front is taken. -/
def lines_running : LineCorrespondence r r where
  toCorrespondence := (attends_running h hcopy rest).correspondence
  ends := Pairing.agree_throw _
  nextLine := agree_nextLine_running h hcopy
  bounded := agree_settled

theorem agree_readLine_running : (running rest).Agree Eq r.readLine r.readLine :=
  (agree_nextLine_running h hcopy).bind fun _ _ _ =>
    Correspondence.lineAtHand ((lines_running h hcopy).loops h h)

theorem agree_openClass_running : (running rest).Agree Eq r.openClass r.openClass :=
  (attends_running h hcopy rest).openClass (agree_nextLine_running h hcopy) nofun nofun

end Lines

/-! ### A blank line in the middle of a statement -/

/-- A step that fails at the start of a blank line, for want of a character. -/
def FailsAtBlank (x : Read ν σ α) : Prop :=
  ∀ s : Session ν σ, s.cursor = .blank → ∃ k, outcome x s = (.error .noElement, { s with cursor := k })

theorem FailsAtBlank.bind {x : Read ν σ α} (hx : FailsAtBlank x) (k : α → Read ν σ β) : FailsAtBlank (x >>= k) := by
  intro s hs
  obtain ⟨c, hc⟩ := hx s hs
  exact ⟨c, bind_error s hc⟩

theorem failsAtBlank_bounded {k : Nat → Read ν σ α} (hk : ∀ n, FailsAtBlank (k n)) :
    FailsAtBlank (payloadBound >>= k) :=
  fun s hs => hk _ s hs

/-- Agreement of two steps from sessions with fewer lines than a number. -/
def AgreeBelow (rest : List (Option String)) (n : Nat) (x x' : Read ν σ α) : Prop :=
  ∀ s s', (stalling rest).Rel s s' → s.source.lines.length < n →
    Matching Eq (outcome x s).1 (outcome x' s').1 ∧ (stalling rest).Rel (outcome x s).2 (outcome x' s').2 ∨
      (stalling rest).Parted (outcome x s) (outcome x' s')

section Blank

variable (hcopy : r.host.copy? = none)

include hcopy

theorem outcome_copyLine_none (s : Session ν σ) : outcome r.copyLine s = (.ok (), s) := by
  unfold copyLine
  rw [hcopy]
  rfl

theorem outcome_payloadLine_blank (muted : Bool) {s : Session ν σ} (hs : s.cursor.line? = some .blank) :
    outcome (r.payloadLine muted) s = (.ok (), s) := by
  obtain ⟨src, ⟨line?, ws⟩, st, w⟩ := s
  obtain rfl : line? = some .blank := hs
  cases muted with
  | false => rfl
  | true => exact outcome_copyLine_none hcopy _

theorem failsAtBlank_packedLabels (muted : Bool) (n : Nat) : FailsAtBlank (r.packedLabels muted (n + 1)) := by
  rintro ⟨src, k, st, w⟩ rfl
  refine ⟨⟨some .blank, []⟩, ?_⟩
  have hword : outcome nextWord (⟨src, .blank, st, w⟩ : Session ν σ) = (.ok "", ⟨src, ⟨some .blank, []⟩, st, w⟩) := rfl
  rw [packedLabels, bind_ok _ hword, bind_ok _ (outcome_payloadLine_blank hcopy muted rfl)]
  rfl

theorem failsAtBlank_payloadWord (muted : Bool) (k : String → Bool → Read ν σ α) :
    FailsAtBlank (do let word ← peekWord; r.payloadLine muted; k word (← isPayloadEnd word)) := by
  rintro ⟨src, c, st, w⟩ rfl
  refine ⟨.blank, ?_⟩
  have hword : outcome peekWord (⟨src, .blank, st, w⟩ : Session ν σ) = (.ok "", ⟨src, .blank, st, w⟩) := rfl
  rw [bind_ok _ hword, bind_ok _ (outcome_payloadLine_blank hcopy muted rfl)]
  rfl

omit hcopy in
theorem failsAtBlank_listedValues (muted : Bool) (n : Nat) : FailsAtBlank (r.listedValues muted (n + 1)) := by
  rintro ⟨src, c, st, w⟩ rfl
  exact ⟨.blank, rfl⟩

end Blank

section Stalling

variable {rest back : Lines} {b : String} {n : Nat}
variable {x x' y y' : Read ν σ α} {k k' : α → Read ν σ β}

theorem agree_iff_below : (stalling rest).Agree Eq x x' ↔ ∀ n, AgreeBelow rest n x x' :=
  ⟨fun hx _ s s' hs _ => hx.2 s s' hs,
    fun hx => ⟨sound_beside (fun _ => rfl) x, fun s s' hs => hx _ s s' hs (lt_succ_self _)⟩⟩

theorem AgreeBelow.bind (hx : AgreeBelow rest n x x') (hkept : ∀ s, s.source.lines.length < n → taking.KeptAt x s)
    (hk : ∀ a, AgreeBelow rest n (k a) (k' a)) : AgreeBelow rest n (x >>= k) (x' >>= k') := by
  intro s s' hs hn
  have hstep := hx s s' hs hn
  have hlen := (hkept s hn).leads
  rw [outcome_bind, outcome_bind]
  generalize outcome x s = o, outcome x' s' = o' at hstep hlen ⊢
  obtain ⟨res, t⟩ := o
  obtain ⟨res', t'⟩ := o'
  rcases hstep with ⟨hm, ht⟩ | ⟨hexit, hhalt, hpart⟩
  · cases hm with
    | ok ha =>
      rw [← ha]
      exact hk _ t t' ht (Nat.lt_of_le_of_lt hlen hn)
    | error f => exact .inl ⟨.error f, ht⟩
  · obtain rfl : res' = .error .undecodable := hexit
    obtain rfl : res = .error .noElement := hhalt _ rfl
    exact .inr ⟨rfl, fun _ hf => by rw [← Option.some.inj hf], hpart⟩

theorem below_step (hx : (stalling rest).Agree Eq x x') (hkept : taking.Kept x)
    (hk : ∀ a, AgreeBelow rest n (k a) (k' a)) : AgreeBelow rest n (x >>= k) (x' >>= k') :=
  (agree_iff_below.mp hx n).bind (fun s _ => hkept s trivial) hk

theorem below_onLine (hx : Parallel x x) (hk : ∀ a, AgreeBelow rest n (k a) (k' a)) :
    AgreeBelow rest n (x >>= k) (x >>= k') :=
  below_step (Pairing.agree_onLine hx) (passes_taking.onLine hx) hk

theorem below_ite {p : Prop} [Decidable p] (hx : AgreeBelow rest n x x') (hy : AgreeBelow rest n y y') :
    AgreeBelow rest n (if p then x else y) (if p then x' else y') := by
  split
  · exact hx
  · exact hy

theorem below_pure (a : α) : AgreeBelow rest n (pure a : Read ν σ α) (pure a) :=
  agree_iff_below.mp (Pairing.agree_ret rfl) n

theorem agree_loop {loop : Nat → Read ν σ α} (hset : Settled loop) (hloop : ∀ n, AgreeBelow rest n (loop n) (loop n))
    (hkept : ∀ n s, s.source.lines.length < n → taking.KeptAt (loop n) s)
    (hk : ∀ a, (stalling rest).Agree Eq (k a) (k' a)) :
    (stalling rest).Agree Eq (do k (← loop (← payloadBound))) (do k' (← loop (← payloadBound))) := by
  refine ⟨sound_beside (fun _ => rfl) _, fun s s' hs => ?_⟩
  have hbound := (hloop (s.source.lines.length + s'.source.lines.length + 1)).bind (hkept _)
    (fun a => agree_iff_below.mp (hk a) _) s s' hs (by omega)
  rw [(hset.bind k) s _ (s.source.lines.length + 1) (by omega) (by omega),
    (hset.bind k') s' _ (s'.source.lines.length + 1) (by omega) (by omega)] at hbound
  exact hbound

variable (h : r.host.Private) (hcopy : r.host.copy? = none) {k k' : PUnit → Read ν σ α}

include h hcopy

theorem attends_stalling (rest : Lines) : (stalling rest).Attends r r := attends_beside h hcopy nofun

theorem below_payloadLine (muted : Bool) (hk : ∀ a, AgreeBelow rest n (k a) (k' a)) :
    AgreeBelow rest n (r.payloadLine muted >>= k) (r.payloadLine muted >>= k') :=
  below_step ((attends_stalling h hcopy _).correspondence.payloadLine (b := true) muted)
    ((governs_taking h).accord.payloadLine (b := true) muted).kept hk

variable (hb : Line.IsBlank b)

include hb

theorem below_nextLine (hstall : 0 < n → FailsAtBlank (k ⟨⟩)) (hk : AgreeBelow (some b :: back) n (k ⟨⟩) (k' ⟨⟩)) :
    AgreeBelow (some b :: back) (n + 1) (r.nextLine >>= k) (r.nextLine >>= k') := by
  intro s s' hs hn
  have hstep : _ ∨ (running (some b :: back)).Parted _ _ := (agree_nextLine_running h hcopy).2 s s' hs
  rw [outcome_bind, outcome_bind]
  rcases hnext : outcome r.nextLine s with ⟨res, t⟩
  rcases hnext' : outcome r.nextLine s' with ⟨res', t'⟩
  rw [hnext, hnext'] at hstep
  rcases hstep with ⟨hm, ht⟩ | ⟨hexit, -, hpart⟩
  · cases hm with
    | ok ha =>
      have hlen := (governs_taking h).nextLine_shorter trivial hnext
      exact hk t t' ht (by omega)
    | error f => exact .inl ⟨.error f, ht⟩
  · -- the first reading goes on with the blank line
    obtain rfl : res' = .error .undecodable := hexit
    have ht' : t'.source.lines = [] := hpart
    rw [hs.outcome_nextLine h hcopy hnext' ht', outcome_nextLine_blank_cons hb] at hnext
    cases hnext
    have hpos : 0 < n := by
      obtain ⟨⟨lines, hq, -⟩, -⟩ := hs
      rw [hq, length_append, length_cons] at hn
      omega
    obtain ⟨c, hc⟩ := hstall hpos { t'.withLines back with cursor := .blank } rfl
    refine .inr ⟨rfl, fun f hf => ?_, ?_⟩
    · obtain rfl := Option.some.inj hf
      exact congrArg Prod.fst hc
    · dsimp only
      rw [hc]
      exact ⟨ht', rfl, rfl⟩

theorem agree_nextLine_bind (hstall : FailsAtBlank (k ⟨⟩)) (hk : (stalling (some b :: back)).Agree Eq (k ⟨⟩) (k' ⟨⟩)) :
    (stalling (some b :: back)).Agree Eq (r.nextLine >>= k) (r.nextLine >>= k') :=
  agree_iff_below.mpr fun
    | 0 => fun _ _ _ hn => absurd hn (not_lt_zero _)
    | n + 1 => below_nextLine h hcopy hb (fun _ => hstall) (agree_iff_below.mp hk n)

theorem below_packedLabels (muted : Bool) (n : Nat) :
    AgreeBelow (some b :: back) n (r.packedLabels muted n) (r.packedLabels muted n) := by
  induction n with
  | zero => exact fun _ _ _ hn => absurd hn (not_lt_zero _)
  | succ n ih =>
    have hstall (hn : 0 < n) : FailsAtBlank (r.packedLabels muted n) := by
      obtain ⟨m, rfl⟩ := Nat.exists_eq_add_of_lt hn
      exact failsAtBlank_packedLabels hcopy muted _
    refine below_onLine parallel_nextWord fun word => below_payloadLine h hcopy muted fun _ =>
      below_onLine (parallel_firstChar word) fun ch => ?_
    refine below_ite ?_ (below_ite (below_pure _) (below_nextLine h hcopy hb hstall ih))
    refine below_nextLine h hcopy hb (fun hn => (hstall hn).bind _) (ih.bind ?_ fun _ => below_pure _)
    exact fun s hs => ((governs_taking h).rounds.packedLabels muted n n s trivial hs hs).1

theorem below_arrayValues (muted : Bool) (n : Nat) :
    AgreeBelow (some b :: back) n (r.arrayValues muted n) (r.arrayValues muted n) := by
  induction n with
  | zero => exact fun _ _ _ hn => absurd hn (not_lt_zero _)
  | succ n ih =>
    refine below_nextLine h hcopy hb (fun _ => failsAtBlank_payloadWord hcopy muted _) ?_
    refine below_onLine parallel_peekWord fun word => below_payloadLine h hcopy muted fun _ =>
      below_onLine (parallel_isPayloadEnd word) fun stop => below_ite (below_pure _) ?_
    refine below_onLine (parallel_attempt (Literal.parse_fault _)) fun value => ih.bind ?_ fun _ => below_pure _
    exact fun s hs => ((governs_taking h).rounds.arrayValues muted n n s trivial hs hs).1

theorem below_sparseBranches (muted : Bool) (n : Nat) (branches : List (String × String)) :
    AgreeBelow (some b :: back) n (r.sparseBranches muted n branches) (r.sparseBranches muted n branches) := by
  induction n generalizing branches with
  | zero => exact fun _ _ _ hn => absurd hn (not_lt_zero _)
  | succ n ih =>
    refine below_nextLine h hcopy hb (fun _ => failsAtBlank_payloadWord hcopy muted _) ?_
    refine below_onLine parallel_peekWord fun key => below_payloadLine h hcopy muted fun _ =>
      below_onLine (parallel_isPayloadEnd key) fun stop => below_ite (below_pure _) ?_
    exact below_onLine parallel_lastWord fun _ => ih _

theorem below_listedValues (muted : Bool) (n : Nat) :
    AgreeBelow (some b :: back) n (r.listedValues muted n) (r.listedValues muted n) := by
  induction n with
  | zero => exact fun _ _ _ hn => absurd hn (not_lt_zero _)
  | succ n ih =>
    have hstall (hn : 0 < n) : FailsAtBlank (r.listedValues muted n) := by
      obtain ⟨m, rfl⟩ := Nat.exists_eq_add_of_lt hn
      exact failsAtBlank_listedValues muted _
    have rest (value : String) :
        AgreeBelow (some b :: back) (n + 1) (do r.nextLine; pure (value :: (← r.listedValues muted n)))
          (do r.nextLine; pure (value :: (← r.listedValues muted n))) := by
      refine below_nextLine h hcopy hb (fun hn => (hstall hn).bind _) (ih.bind ?_ fun _ => below_pure _)
      exact fun s hs => ((governs_taking h).rounds.listedValues muted n n s trivial hs hs).1
    refine below_onLine parallel_cleaned fun text => below_onLine parallel_cleaned fun text' => ?_
    split
    · refine below_ite (below_pure _) (below_onLine parallel_peekWord fun word => ?_)
      refine below_step ((attends_stalling h hcopy _).correspondence.publishComment (b := true))
        ((governs_taking h).accord.publishComment (b := true)).kept fun _ => ?_
      split
      · exact below_step (attends_stalling h hcopy _).copyLine (governs_taking h).copies fun _ => rest _
      · exact rest _
    · exact agree_iff_below.mp (Pairing.agree_throw _) _

theorem loops_stalling (back : Lines) : (attends_stalling h hcopy (some b :: back)).correspondence.Loops where
  packedLabels muted _ _ ht :=
    agree_nextLine_bind h hcopy hb (failsAtBlank_bounded fun n => (failsAtBlank_packedLabels hcopy muted n).bind _)
      (agree_loop (settled_packedLabels h muted).succ
        (fun n s s' hs hn => below_packedLabels h hcopy hb muted (n + 1) s s' hs (lt_succ_of_lt hn))
        (fun n s hn => by
          have hn' := lt_succ_of_lt hn
          exact ((governs_taking h).rounds.packedLabels muted _ _ s trivial hn' hn').1) ht)
  arrayValues muted _ _ ht :=
    agree_loop (settled_arrayValues h muted) (below_arrayValues h hcopy hb muted)
      (fun n s hn => ((governs_taking h).rounds.arrayValues muted n n s trivial hn hn).1) ht
  sparseBranches muted _ _ ht :=
    agree_loop (settled_sparseBranches h muted []) (fun n => below_sparseBranches h hcopy hb muted n [])
      (fun n s hn => ((governs_taking h).rounds.sparseBranches muted n n [] s trivial hn hn).1) ht
  listedValues muted _ _ ht :=
    agree_nextLine_bind h hcopy hb (failsAtBlank_bounded fun n => (failsAtBlank_listedValues muted n).bind _)
      (agree_loop (settled_listedValues h muted).succ
        (fun n s s' hs hn => below_listedValues h hcopy hb muted (n + 1) s s' hs (lt_succ_of_lt hn))
        (fun n s hn => by
          have hn' := lt_succ_of_lt hn
          exact ((governs_taking h).rounds.listedValues muted _ _ s trivial hn' hn').1) ht)

end Stalling

end Reader

end Dalvik
