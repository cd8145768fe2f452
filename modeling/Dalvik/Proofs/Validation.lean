import Dalvik.Proofs.Audience
import Dalvik.Proofs.Comparison
import Dalvik.Proofs.Unread

/-!
# Validation only rejects

A reader that validates does what one that does not validate does, up to the first check that fails; there it
stops. Its calls are then a prefix of the calls of the other reader, since calls are never taken back, and no
handler of faults goes on behind a failed check (`Audience.visit_validated`).
-/

namespace Dalvik

/-- The faults of failed checks. -/
def Fault.rejects : Fault → Bool
  | expectedDot _ | expectedKeyword _ _ | expectedDescriptor _ | localValues _ | noElement | expectedClass => true
  | _ => false

theorem Fault.not_endsReading_of_rejects {f : Fault} (h : f.rejects = true) : f.endsReading = false := by
  cases f <;> first | rfl | cases h

theorem Reader.visit_of_isPresent {ν σ : Type} (r : Reader ν σ) {input : Input} (hp : input.isPresent = true)
    (root : ν) :
    r.visit input (some root) = Read.attempt input.source >>= fun source =>
      if r.options.knownPolicy then
        (modify fun s => { s with source := source }) >>= fun _ => Read.push (.node root) >>= fun _ =>
          if r.options.snippet then r.readBody else r.openClass >>= fun _ => r.readBody
      else throw (.unknownPolicy r.options.policy) := by
  cases hk : r.options.knownPolicy <;> cases hs : r.options.snippet <;> simp [visit, hp, hk, hs]

namespace Audience

open Read Reader

variable {ν σ α β : Type}
variable {x x' : Read ν (Attendance ν σ) α} {k : Fault → Read ν (Attendance ν σ) α}

/-- A step that takes no call back. -/
def Calling (x : Read ν (Attendance ν σ) α) : Prop :=
  ∀ s, s.world.calls <+: (outcome x s).2.world.calls

/-- A failed check: the first of two runs stops, and the second has all of its calls. -/
def Rejected (o o' : Except Fault α × Session ν (Attendance ν σ)) : Prop :=
  ∃ f, f.rejects = true ∧ o.1 = .error f ∧ o.2.world.calls <+: o'.2.world.calls

/-- The first step does what the second one does, unless a check fails. -/
def Follows (x x' : Read ν (Attendance ν σ) α) : Prop :=
  Calling x' ∧ ∀ s, outcome x s = outcome x' s ∨ Rejected (outcome x s) (outcome x' s)

theorem Calling.bind {k : α → Read ν (Attendance ν σ) β} (hx : Calling x) (hk : ∀ a, Calling (k a)) : Calling (x >>= k) := by
  intro s
  rw [outcome_bind]
  have h := hx s
  rcases hs : outcome x s with ⟨res, t⟩
  rw [hs] at h
  cases res with
  | ok a => exact h.trans (hk a t)
  | error f => exact h

theorem Calling.tryCatch (hx : Calling x) (hk : ∀ f, Calling (k f)) : Calling (MonadExcept.tryCatch x k) := by
  intro s
  rw [outcome_tryCatch]
  have h := hx s
  rcases hs : outcome x s with ⟨res, t⟩
  rw [hs] at h
  cases res with
  | ok a => exact h
  | error f => exact h.trans (hk f t)

theorem calling_of_eq (h : ∀ s, (outcome x s).2.world = s.world) : Calling x := by
  intro s
  simp only [h, List.prefix_rfl]

theorem Follows.of_calling (h : Calling x) : Follows x x :=
  ⟨h, fun _ => .inl rfl⟩

theorem Follows.bind {k k' : α → Read ν (Attendance ν σ) β} (hx : Follows x x') (hk : ∀ a, Follows (k a) (k' a)) :
    Follows (x >>= k) (x' >>= k') := by
  refine ⟨hx.1.bind fun a => (hk a).1, fun s => ?_⟩
  rcases hx.2 s with heq | ⟨f, hf, herr, hpre⟩
  · rw [outcome_bind, outcome_bind, heq]
    rcases outcome x' s with ⟨res, t⟩
    cases res with
    | ok a => exact (hk a).2 t
    | error f => exact .inl rfl
  · -- the second run goes on, and keeps the calls that it has
    right
    have hstop : outcome (x >>= k) s = (.error f, (outcome x s).2) :=
      bind_error s (Prod.ext herr rfl)
    have hmore : (outcome x' s).2.world.calls <+: (outcome (x' >>= k') s).2.world.calls := by
      rw [outcome_bind]
      rcases outcome x' s with ⟨res, t⟩
      cases res with
      | ok a => exact (hk a).1 t
      | error f => exact List.prefix_rfl
    rw [hstop]
    exact ⟨f, hf, rfl, hpre.trans hmore⟩

theorem Follows.tryCatch {k' : Fault → Read ν (Attendance ν σ) α} (hx : Follows x x') (hk : ∀ f, Follows (k f) (k' f))
    (hthrow : ∀ f, f.rejects = true → k f = throw f) :
    Follows (MonadExcept.tryCatch x k) (MonadExcept.tryCatch x' k') := by
  refine ⟨hx.1.tryCatch fun f => (hk f).1, fun s => ?_⟩
  rcases hx.2 s with heq | ⟨f, hf, herr, hpre⟩
  · rw [outcome_tryCatch, outcome_tryCatch, heq]
    rcases outcome x' s with ⟨res, t⟩
    cases res with
    | ok a => exact .inl rfl
    | error f => exact (hk f).2 t
  · right
    have hstop : outcome (MonadExcept.tryCatch x k) s = (.error f, (outcome x s).2) := by
      rw [outcome_tryCatch, show outcome x s = (.error f, (outcome x s).2) from Prod.ext herr rfl]
      simp only [hthrow f hf]
      rfl
    have hmore : (outcome x' s).2.world.calls <+: (outcome (MonadExcept.tryCatch x' k') s).2.world.calls := by
      rw [outcome_tryCatch]
      rcases outcome x' s with ⟨res, t⟩
      cases res with
      | ok a => exact List.prefix_rfl
      | error f => exact (hk f).1 t
    rw [hstop]
    exact ⟨f, hf, rfl, hpre.trans hmore⟩

theorem Follows.ite {p : Prop} [Decidable p] {y y' : Read ν (Attendance ν σ) α} (hx : Follows x x') (hy : Follows y y') :
    Follows (if p then x else y) (if p then x' else y') := by
  split
  · exact hx
  · exact hy

theorem follows_pure {x : Read ν (Attendance ν σ) Unit}
    (h : ∀ s, outcome x s = (.ok (), s) ∨ ∃ f, f.rejects = true ∧ outcome x s = (.error f, s)) :
    Follows x (pure ()) := by
  refine ⟨calling_of_eq fun s => rfl, fun s => ?_⟩
  rcases h s with hs | ⟨f, hf, hs⟩
  · left
    rw [hs]
    rfl
  · right
    rw [hs]
    exact ⟨f, hf, rfl, List.prefix_rfl⟩

theorem calling_onLine (h : OnLine x) : Calling x := by
  obtain ⟨g, hg⟩ := h
  exact calling_of_eq fun s => by rw [hg]

theorem calling_top : Calling (top : Read ν (Attendance ν σ) (Slot ν)) :=
  calling_of_eq fun s => by
    obtain ⟨src, k, st, w⟩ := s
    cases st <;> rfl

theorem calling_pop : Calling (pop : Read ν (Attendance ν σ) (Slot ν)) :=
  calling_of_eq fun s => by
    obtain ⟨src, k, st, w⟩ := s
    cases st <;> rfl

theorem calling_advance : Calling (advance : Read ν (Attendance ν σ) String) :=
  calling_of_eq fun s => by
    obtain ⟨⟨lines⟩, k, st, w⟩ := s
    cases lines with
    | nil => rfl
    | cons line? rest =>
      cases line? with
      | none => rfl
      | some l =>
        rw [outcome_advance_some]
        split <;> rfl

theorem calling_act (x : ExceptT Fault (StateM σ) α) : Calling (act x : Read ν (Attendance ν σ) α) := by
  intro s
  simp only [outcome_act, List.prefix_rfl]

variable (A : Audience ν σ) (o : Options)

theorem calling_deliver (n : ν) (e : Event) : Calling (A.host.deliver n e) := by
  intro s
  exact List.prefix_append _ _

theorem calling_require (slot : Slot ν) (v : Verb) : Calling ((A.reader o).require slot v) := by
  unfold require
  split
  · exact calling_onLine (onLine_pure _)
  · exact calling_onLine (onLine_throw _)

theorem calling_sendTo (slot : Slot ν) (e : Event) : Calling ((A.reader o).sendTo slot e) := by
  refine (A.calling_require o slot e.verb).bind fun _ => ?_
  split
  · exact A.calling_deliver _ _
  · exact calling_onLine (onLine_pure _)

theorem calling_copyLine : Calling (A.reader o).copyLine := by
  unfold copyLine
  split
  · exact calling_onLine (onLine_pure _)
  · rename_i copy hcopy
    obtain ⟨keep, -, rfl⟩ := Option.map_eq_some_iff.mp hcopy
    exact (calling_onLine onLine_currentLine).bind fun _ => calling_top.bind fun _ => calling_act _

theorem calling_remark : Calling (A.reader o).remark := by
  refine calling_top.bind fun slot => ?_
  split
  · split
    · exact A.calling_copyLine o
    · exact (calling_onLine onLine_currentLine).bind fun _ =>
        (A.calling_sendTo o _ _).bind fun _ => calling_onLine (onLine_pure _)
  · exact calling_onLine (onLine_pure _)

theorem calling_nextLine : Calling (A.reader o).nextLine := by
  have within (n : Nat) : Calling ((A.reader o).nextLineWithin n) := by
    induction n with
    | zero => exact calling_onLine (onLine_throw _)
    | succ n ih =>
      refine calling_advance.bind fun l => ?_
      split
      · exact (A.calling_remark o).bind fun _ => ih
      · exact calling_onLine (onLine_pure _)
  exact (calling_of_eq fun s => rfl).bind fun s => within _

/-- The same options, with or without validation. -/
abbrev validating (v : Bool) : Reader ν (Attendance ν σ) := A.reader { o with validate := v }

theorem nextLine_validating (v v' : Bool) : (A.validating o v).nextLine = (A.validating o v').nextLine := by
  have within (n : Nat) : (A.validating o v).nextLineWithin n = (A.validating o v').nextLineWithin n := by
    induction n with
    | zero => rfl
    | succ n ih =>
      unfold nextLineWithin
      rw [ih]
      rfl
  unfold nextLine
  simp only [within]

theorem follows_checkKeyword (w : String) (k : Keyword) :
    Follows ((A.validating o true).checkKeyword w k) ((A.validating o false).checkKeyword w k) := by
  refine follows_pure fun s => ?_
  cases hw : w.toList.head? with
  | none =>
    refine .inr ⟨.noElement, rfl, ?_⟩
    simp only [checkKeyword, firstChar, hw]
    rfl
  | some c =>
    have hcheck : outcome ((A.validating o true).checkKeyword w k) s
        = outcome (if c != '.' then throw (.expectedDot (String.singleton c))
          else if String.ofList (w.toList.drop 1) != k.text then
            throw (.expectedKeyword k.text (String.ofList (w.toList.drop 1)))
          else pure ()) s := by
      simp only [checkKeyword, firstChar, hw]
      rfl
    rw [hcheck]
    split
    · exact .inr ⟨_, rfl, rfl⟩
    · split
      · exact .inr ⟨_, rfl, rfl⟩
      · exact .inl rfl

theorem follows_checkDescriptor (w : String) :
    Follows ((A.validating o true).checkDescriptor w) ((A.validating o false).checkDescriptor w) := by
  refine follows_pure fun s => ?_
  unfold checkDescriptor
  cases Descriptor.isDescriptor w with
  | true => exact .inl rfl
  | false => exact .inr ⟨_, rfl, rfl⟩

/-- Validation as a comparison: the reader that validates follows the one that does not. -/
def comparison : Comparison (A.validating o true) (A.validating o false) where
  Agree _ _ x x' := Follows x x'
  onLine h := .of_calling (calling_onLine h)
  bind hx hk := hx.bind hk
  atLineEnd hx := by
    refine hx.tryCatch (fun f => ?_) fun f hf => if_neg (by rintro rfl; cases hf)
    refine Follows.ite (Follows.ite ?_ ?_) ?_
    · exact .of_calling (calling_onLine (onLine_throw _))
    · exact .of_calling (calling_onLine (onLine_pure _))
    · exact .of_calling (calling_onLine (onLine_throw _))
  top_bind hk := (Follows.of_calling calling_top).bind hk
  push slot := .of_calling (calling_of_eq fun _ => rfl)
  pop := .of_calling calling_pop
  hasShape_eq _ _ := rfl
  require slot v := .of_calling (A.calling_require _ slot v)
  sendTo slot e _ := .of_calling (A.calling_sendTo _ slot e)
  copyLine := .of_calling (A.calling_copyLine _)
  checkKeyword w k := A.follows_checkKeyword o w k
  checkDescriptor w := A.follows_checkDescriptor o w
  checkCount n := by
    cases (n != 3) with
    | true => exact follows_pure fun s => .inr ⟨_, rfl, rfl⟩
    | false => exact .of_calling (calling_onLine (onLine_pure _))
  nextLine := by
    rw [A.nextLine_validating o true false]
    exact .of_calling (A.calling_nextLine _)
  bounded hk _ _ := (Follows.of_calling (calling_of_eq fun _ => rfl)).bind hk

theorem follows_readLines (n : Nat) :
    Follows ((A.validating o true).readLines n) ((A.validating o false).readLines n) := by
  induction n with
  | zero => exact .of_calling (calling_onLine (onLine_throw _))
  | succ n ih =>
    have hline : Follows (A.validating o true).readLine (A.validating o false).readLine :=
      (A.comparison o).nextLine.bind fun _ => (A.comparison o).lineAtHand A.host_private A.host_private
    exact hline.bind fun _ => ih

theorem follows_readBody : Follows (A.validating o true).readBody (A.validating o false).readBody := by
  refine Follows.tryCatch ((Follows.of_calling (calling_of_eq fun _ => rfl)).bind fun s => A.follows_readLines o _)
    (fun f => ?_) fun f hf => ?_
  · exact Follows.ite ((A.comparison o).tell (b := true) (e := .close) rfl)
      (Follows.ite (.of_calling (calling_onLine (onLine_throw _))) (.of_calling (calling_onLine (onLine_throw _))))
  · rw [if_neg (by rw [Fault.not_endsReading_of_rejects hf]; exact Bool.false_ne_true),
      if_neg (by rintro rfl; cases hf)]

theorem follows_openClass : Follows (A.validating o true).openClass (A.validating o false).openClass := by
  have hnext : Follows (do (A.validating o true).nextLine; pure true) (do (A.validating o false).nextLine; pure true) :=
    (A.comparison o).nextLine.bind fun _ => .of_calling (calling_onLine (onLine_pure _))
  refine Follows.bind (hnext.tryCatch (fun f => ?_) fun f hf => if_neg (by rintro rfl; cases hf)) fun reached => ?_
  · refine Follows.ite ⟨calling_onLine (onLine_pure _), fun s => .inr ⟨.expectedClass, rfl, rfl, List.prefix_rfl⟩⟩ ?_
    exact .of_calling (calling_onLine (onLine_throw _))
  · refine Follows.ite ?_ (.of_calling (calling_onLine (onLine_pure _)))
    exact ((A.comparison o).classHeader (b := true) false).bind fun _ => .of_calling (calling_onLine (onLine_pure _))

theorem follows_visit (input : Input) (root : Option ν) :
    Follows ((A.validating o true).visit input root) ((A.validating o false).visit input root) := by
  cases root with
  | none => exact .of_calling (calling_onLine (onLine_throw _))
  | some root =>
    cases hp : input.isPresent with
    | false =>
      have hvisit (v : Bool) : (A.validating o v).visit input (some root) = throw .missingSource := by
        simp [visit, hp]
      rw [hvisit, hvisit]
      exact .of_calling (calling_onLine (onLine_throw _))
    | true =>
      rw [visit_of_isPresent _ hp, visit_of_isPresent _ hp]
      refine Follows.bind (.of_calling (calling_onLine (onLine_attempt _))) fun source =>
        Follows.ite (p := o.knownPolicy = true) ?_ (.of_calling (calling_onLine (onLine_throw _)))
      refine Follows.bind (.of_calling (calling_of_eq fun _ => rfl)) fun _ =>
        Follows.bind (.of_calling (calling_of_eq fun _ => rfl)) fun _ =>
          Follows.ite (p := o.snippet = true) (A.follows_readBody o) ?_
      exact (A.follows_openClass o).bind fun _ => A.follows_readBody o

/-- Validation only rejects. For every input, root, audience and choice of the other options, the calls that are
made with validation are a prefix of those that are made without it. Where the reading with validation returns, the
one without it does exactly the same. -/
theorem visit_validated (input : Input) (root : Option ν) (s : Session ν (Attendance ν σ)) :
    (outcome ((A.validating o true).visit input root) s).2.world.calls
        <+: (outcome ((A.validating o false).visit input root) s).2.world.calls ∧
      ((outcome ((A.validating o true).visit input root) s).1 = .ok () →
        outcome ((A.validating o false).visit input root) s = outcome ((A.validating o true).visit input root) s) := by
  rcases (A.follows_visit o input root).2 s with heq | ⟨f, hf, herr, hpre⟩
  · exact ⟨by simp only [heq, List.prefix_rfl], fun _ => heq.symm⟩
  · refine ⟨hpre, fun hok => ?_⟩
    rw [herr] at hok
    cases hok

end Audience

end Dalvik
