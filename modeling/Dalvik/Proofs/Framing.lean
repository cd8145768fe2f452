import Dalvik.Proofs.Comparison

/-!
# What is below the own constructs

The stack of open constructs outlives a reading: what one reading leaves is found below the root of the
next. A reading turns to the innermost construct only, so it does the same whatever is below its own
constructs, as long as it does not close all of them and ask for one more (`Read.Sinks`). `Read.Frames` says
this of a step as an equation between two outcomes. Combining steps keeps it, and whoever listens keeps to a
world of their own (`Host.Private`), so it is a comparison of a reader with itself (`Reader.framing`).
-/

namespace Dalvik

variable {ν σ α β : Type}
variable {x : Read ν σ α}

/-- A session with more constructs below its own. -/
def Session.above (base : List (Slot ν)) (s : Session ν σ) : Session ν σ :=
  { s with stack := s.stack ++ base }

namespace Read

/-- A construct was asked for where none was left. -/
def Sinks (o : Except Fault α × Session ν σ) : Prop :=
  o.1 = .error .noElement ∧ o.2.stack = []

/-- A step does the same with more constructs below, unless it asks for one where none is left. -/
def Frames (x : Read ν σ α) : Prop :=
  ∀ base s, Sinks (outcome x s) ∨ outcome x (s.above base) = ((outcome x s).1, (outcome x s).2.above base)

theorem frames_pure (a : α) : Frames (pure a : Read ν σ α) := fun _ _ => .inr rfl

theorem frames_throw (f : Fault) : Frames (throw f : Read ν σ α) := fun _ _ => .inr rfl

theorem frames_attempt (x : Except Fault α) : Frames (Read.attempt x : Read ν σ α) :=
  fun _ _ => .inr rfl

theorem Frames.bind {k : α → Read ν σ β} (hx : Frames x) (hk : ∀ a, Frames (k a)) : Frames (x >>= k) := by
  intro base s
  rcases hx base s with ⟨hres, hst⟩ | hframe
  · left
    have e : outcome x s = (.error .noElement, (outcome x s).2) := Prod.ext hres rfl
    rw [bind_error s e]
    exact ⟨rfl, hst⟩
  · rcases hx' : outcome x s with ⟨res, t⟩
    rw [hx'] at hframe
    cases res with
    | ok a =>
      rw [bind_ok s hx', bind_ok _ hframe]
      exact hk a base t
    | error f =>
      rw [bind_error s hx', bind_error _ hframe]
      exact .inr rfl

theorem Frames.tryCatch {k : Fault → Read ν σ α} (hx : Frames x) (hk : ∀ f, Frames (k f))
    (hnone : k .noElement = throw .noElement) : Frames (tryCatch x k) := by
  intro base s
  rcases hx base s with ⟨hres, hst⟩ | hframe
  · left
    have e : outcome x s = (.error .noElement, (outcome x s).2) := Prod.ext hres rfl
    rw [outcome_tryCatch, e]
    dsimp only
    rw [hnone]
    exact ⟨rfl, hst⟩
  · rw [outcome_tryCatch, outcome_tryCatch, hframe]
    rcases outcome x s with ⟨res, t⟩
    cases res with
    | ok a => exact .inr rfl
    | error f => exact hk f base t

theorem frames_ite {p : Prop} [Decidable p] {y : Read ν σ α} (hx : Frames x) (hy : Frames y) :
    Frames (if p then x else y) := by
  split
  · exact hx
  · exact hy

theorem frames_get_bind {k : Session ν σ → Read ν σ α} (h : ∀ base s, k (s.above base) = k s)
    (hk : ∀ s, Frames (k s)) : Frames (get >>= k) := by
  intro base s
  rw [outcome_bind, outcome_bind, outcome_get, outcome_get]
  dsimp only
  rw [h]
  exact hk s base s

theorem frames_modify {g : Session ν σ → Session ν σ} (h : ∀ base s, g (s.above base) = (g s).above base) :
    Frames (modify g : Read ν σ PUnit) := by
  intro base s
  right
  rw [outcome_modify, outcome_modify, h]

theorem frames_top : Frames (top : Read ν σ (Slot ν)) := by
  rintro base ⟨src, k, st, w⟩
  cases st with
  | nil => exact .inl ⟨rfl, rfl⟩
  | cons slot st => exact .inr rfl

theorem frames_pop : Frames (pop : Read ν σ (Slot ν)) := by
  rintro base ⟨src, k, st, w⟩
  cases st with
  | nil => exact .inl ⟨rfl, rfl⟩
  | cons slot st => exact .inr rfl

theorem frames_push (slot : Slot ν) : Frames (push slot : Read ν σ Unit) := frames_modify fun _ _ => rfl

theorem OnLine.frames (h : OnLine x) : Frames x := by
  obtain ⟨g, hg⟩ := h
  intro base s
  right
  rw [hg, hg]
  rfl

theorem frames_advance : Frames (advance : Read ν σ String) := by
  refine frames_get_bind (fun _ _ => rfl) fun s => ?_
  split
  · exact frames_throw _
  · refine Frames.bind (frames_modify fun _ _ => rfl) fun _ => ?_
    split
    · exact frames_throw _
    · exact frames_get_bind (fun _ _ => rfl) fun _ => (frames_attempt _).bind fun _ =>
        Frames.bind (frames_modify fun _ _ => rfl) fun _ => frames_pure _

theorem InWorld.frames (h : InWorld x) : Frames x := by
  obtain ⟨act, hact⟩ := h
  intro base s
  right
  rw [hact, hact]
  rfl

end Read

namespace Reader

open Read

variable {r : Reader ν σ}

theorem frames_require (slot : Slot ν) (v : Verb) : Frames (r.require slot v) :=
  frames_ite (frames_pure _) (frames_throw _)

theorem frames_atLineEnd [Inhabited α] {body : Read ν σ α} (h : Frames body) : Frames (r.atLineEnd body) := by
  refine h.tryCatch (fun f => ?_) rfl
  exact frames_ite (frames_ite (frames_throw _) (frames_pure _)) (frames_throw f)

theorem frames_payloadBound : Frames (payloadBound : Read ν σ Nat) :=
  frames_get_bind (fun _ _ => rfl) fun _ => frames_pure _

variable (h : r.host.Private)

include h

theorem frames_sendTo (slot : Slot ν) (e : Event) : Frames (r.sendTo slot e) := by
  refine (frames_require slot _).bind fun _ => ?_
  split
  · exact (h.deliver _ e).frames
  · exact frames_pure none

theorem frames_copyLine : Frames r.copyLine := by
  unfold copyLine
  split
  · exact frames_pure _
  · rename_i copy hcopy
    exact onLine_currentLine.frames.bind fun l => frames_top.bind fun slot => (h.copy copy hcopy _ slot).frames

theorem frames_remark : Frames r.remark := by
  refine frames_top.bind fun slot => frames_ite (frames_ite (frames_copyLine h) ?_) (frames_pure _)
  exact onLine_currentLine.frames.bind fun l => (frames_sendTo h slot _).bind fun _ => frames_pure _

theorem frames_nextLineWithin (n : Nat) : Frames (r.nextLineWithin n) := by
  induction n with
  | zero => exact frames_throw _
  | succ n ih =>
    refine frames_advance.bind fun l => frames_ite ?_ (frames_pure _)
    exact (frames_remark h).bind fun _ => ih

theorem frames_nextLine : Frames r.nextLine :=
  frames_get_bind (fun _ _ => rfl) fun _ => frames_nextLineWithin h _

/-- A reader compared with itself, with more constructs below. -/
def framing : Comparison r r where
  Agree _ _ x x' := x = x' ∧ Frames x
  onLine hx := ⟨rfl, hx.frames⟩
  bind hx hk := ⟨by rw [hx.1, funext fun a => (hk a).1], hx.2.bind fun a => (hk a).2⟩
  atLineEnd hx := ⟨by rw [hx.1], frames_atLineEnd hx.2⟩
  top_bind hk := ⟨by rw [funext fun slot => (hk slot).1], frames_top.bind fun slot => (hk slot).2⟩
  push slot := ⟨rfl, frames_push slot⟩
  pop := ⟨rfl, frames_pop⟩
  hasShape_eq _ _ := rfl
  require slot v := ⟨rfl, frames_require slot v⟩
  sendTo slot e _ := ⟨rfl, frames_sendTo h slot e⟩
  copyLine := ⟨rfl, frames_copyLine h⟩
  checkKeyword w k := ⟨rfl, (parallel_checkKeyword rfl w k).onLine.frames⟩
  checkDescriptor w := ⟨rfl, (parallel_checkDescriptor rfl w).onLine.frames⟩
  checkCount n := ⟨rfl, (parallel_checkCount rfl n).onLine.frames⟩
  nextLine := ⟨rfl, frames_nextLine h⟩
  bounded hk _ _ := ⟨by rw [funext fun n => (hk n).1], frames_payloadBound.bind fun n => (hk n).2⟩

theorem frames_openClass : Frames r.openClass := by
  refine Frames.bind (.tryCatch ((frames_nextLine h).bind fun _ => frames_pure true) (fun f => ?_) rfl)
    fun reached => ?_
  · exact frames_ite (frames_ite (frames_throw _) (frames_pure _)) (frames_throw f)
  · have hheader : Frames (r.classHeader false) := ((framing h).classHeader (b := false) false).2
    exact frames_ite (hheader.bind fun _ => frames_pure _) (frames_pure _)

theorem frames_readLines (n : Nat) : Frames (r.readLines n) := by
  induction n with
  | zero => exact frames_throw _
  | succ n ih => exact ((frames_nextLine h).bind fun _ => ((framing h).lineAtHand h h).2).bind fun _ => ih

theorem frames_readBody : Frames r.readBody := by
  refine Frames.tryCatch (frames_get_bind (fun _ _ => rfl) fun s => frames_readLines h _) (fun f => ?_) rfl
  have htell : Frames (r.tell .close) := ((framing h).tell (b := false) rfl).2
  exact frames_ite htell (frames_ite (frames_throw _) (frames_throw f))

end Reader

end Dalvik
