import Dalvik.Proofs.Bounds
import Mathlib.Data.List.Forall2

/-!
# Pairs of sessions

The correspondences of this development all have one form. Two sessions are related; two steps agree if they lead
from related sessions to related sessions with matching results, or part in a stated way. A `Reader.Pairing` is the
relation between sessions together with the way of parting: the second run stops with a certain fault, while the
first one stops too or goes on and only adds to what it has. Here agreement is shown to be a correspondence
(`Reader.Pairing.correspondence`), as soon as whoever listens agrees (`Reader.Pairing.Attends`). Where both sessions
have the same source, agreement goes up to whole readings (`Reader.Pairing.Shares.visit`).
-/

namespace Dalvik

open Slot List

variable {ν ν' σ σ' α α' β β' : Type}
variable {s : Session ν σ} {x : Read ν σ α} {k : Fault → Read ν σ α} {x' : Read ν' σ' α'} {slot : Slot ν}
  {slot' : Slot ν'}

namespace Reader

open Read

/-- A relation between sessions, and how two runs may part. -/
structure Pairing (ν σ ν' σ' : Type) where
  Peer : ν → ν' → Prop
  Rel : Session ν σ → Session ν' σ' → Prop
  cursor_eq : ∀ {s s'}, Rel s s' → s'.cursor = s.cursor
  move : ∀ {s s'}, Rel s s' → ∀ k, Rel { s with cursor := k } { s' with cursor := k }
  stack : ∀ {s s'}, Rel s s' → Forall₂ (Twin Peer) s.stack s'.stack
  restack : ∀ {s s'}, Rel s s' → ∀ {st st'}, Forall₂ (Twin Peer) st st' →
    Rel { s with stack := st } { s' with stack := st' }
  Grows : σ → σ → Prop
  grows_refl : ∀ w, Grows w w
  grows_trans : ∀ {u v w}, Grows u v → Grows v w → Grows u w
  exit : Fault
  halt? : Option Fault
  Part : Session ν σ → Session ν' σ' → Prop
  part_grows : halt? = none → ∀ {t u t'}, Part t t' → Grows t.world u.world → Part u t'

namespace Pairing

variable (P : Pairing ν σ ν' σ')

/-- Every open construct stands for one of the other side. -/
def Fit (s : Session ν σ) : Prop :=
  ∀ slot ∈ s.stack, ∃ slot', Twin P.Peer slot slot'

/-- A step of the first run keeps to constructs and results that stand for others, and only adds. -/
def Sound (R : α → α' → Prop) (x : Read ν σ α) : Prop :=
  ∀ s, P.Fit s → P.Fit (outcome x s).2 ∧ P.Grows s.world (outcome x s).2.world ∧
    ∀ a, (outcome x s).1 = .ok a → ∃ a', R a a'

/-- The runs have parted. -/
def Parted (o : Except Fault α × Session ν σ) (o' : Except Fault α' × Session ν' σ') : Prop :=
  o'.1 = .error P.exit ∧ (∀ f, P.halt? = some f → o.1 = .error f) ∧ P.Part o.2 o'.2

/-- From related sessions, two steps lead to related ones and matching results, unless they part. -/
def Agree (R : α → α' → Prop) (x : Read ν σ α) (x' : Read ν' σ' α') : Prop :=
  P.Sound R x ∧ ∀ s s', P.Rel s s' →
    Matching R (outcome x s).1 (outcome x' s').1 ∧ P.Rel (outcome x s).2 (outcome x' s').2 ∨
      P.Parted (outcome x s) (outcome x' s')

variable {P} {R : α → α' → Prop} {Q : β → β' → Prop}

theorem fit_of_rel {s' : Session ν' σ'} (h : P.Rel s s') : P.Fit s := by
  have of_forall₂ {st : Slots ν} {st' : List (Slot ν')} (hst : Forall₂ (Twin P.Peer) st st') :
      ∀ slot ∈ st, ∃ slot', Twin P.Peer slot slot' := by
    induction hst with
    | nil => exact nofun
    | cons htwin _ ih => exact forall_mem_cons.mpr ⟨⟨_, htwin⟩, ih⟩
  exact of_forall₂ (P.stack h)

theorem sound_of_eq (h : ∀ s, (outcome x s).2.stack = s.stack ∧ (outcome x s).2.world = s.world)
    (ha : ∀ a : α, ∃ a', R a a') : P.Sound R x := by
  intro s hs
  obtain ⟨hstack, hworld⟩ := h s
  refine ⟨fun slot hslot => hs slot (hstack ▸ hslot), ?_, fun a _ => ha a⟩
  rw [hworld]
  exact P.grows_refl _

theorem Sound.bind {k : α → Read ν σ β} (hx : P.Sound R x) (hk : ∀ a a', R a a' → P.Sound Q (k a)) : P.Sound Q (x >>= k) := by
  intro s hs
  obtain ⟨hfit, hgrow, hres⟩ := hx s hs
  rw [outcome_bind]
  rcases hxs : outcome x s with ⟨res, t⟩
  rw [hxs] at hfit hgrow hres
  cases res with
  | ok a =>
    obtain ⟨a', ha⟩ := hres a rfl
    obtain ⟨hfit', hgrow', hres'⟩ := hk a a' ha t hfit
    exact ⟨hfit', P.grows_trans hgrow hgrow', hres'⟩
  | error f => exact ⟨hfit, hgrow, nofun⟩

theorem Sound.tryCatch (hx : P.Sound R x) (hk : ∀ f, P.Sound R (k f)) : P.Sound R (tryCatch x k) := by
  intro s hs
  obtain ⟨hfit, hgrow, hres⟩ := hx s hs
  rw [outcome_tryCatch]
  rcases hxs : outcome x s with ⟨res, t⟩
  rw [hxs] at hfit hgrow hres
  cases res with
  | ok a => exact ⟨hfit, hgrow, hres⟩
  | error f =>
    obtain ⟨hfit', hgrow', hres'⟩ := hk f t hfit
    exact ⟨hfit', P.grows_trans hgrow hgrow', hres'⟩

theorem Parted.mono {o : Except Fault α × Session ν σ} {p : Except Fault β × Session ν σ}
    {o' : Except Fault α' × Session ν' σ'} {p' : Except Fault β' × Session ν' σ'} (h : P.Parted o o')
    (hstop : p'.1 = .error P.exit ∧ p'.2 = o'.2)
    (hhalt : ∀ f, P.halt? = some f → o.1 = .error f → p.1 = .error f ∧ p.2 = o.2)
    (hgo : P.halt? = none → P.Grows o.2.world p.2.world) : P.Parted p p' := by
  obtain ⟨-, hfirst, hpart⟩ := h
  refine ⟨hstop.1, fun f hf => (hhalt f hf (hfirst f hf)).1, ?_⟩
  rw [hstop.2]
  cases hh : P.halt? with
  | none => exact P.part_grows hh hpart (hgo hh)
  | some f =>
    rw [(hhalt f hh (hfirst f hh)).2]
    exact hpart

theorem Agree.bind {k : α → Read ν σ β} {k' : α' → Read ν' σ' β'} (hx : P.Agree R x x')
    (hk : ∀ a a', R a a' → P.Agree Q (k a) (k' a')) : P.Agree Q (x >>= k) (x' >>= k') := by
  refine ⟨hx.1.bind fun a a' ha => (hk a a' ha).1, fun s s' hs => ?_⟩
  obtain ⟨hfit, -, hres⟩ := hx.1 s (fit_of_rel hs)
  have hstep := hx.2 s s' hs
  rw [outcome_bind, outcome_bind]
  generalize outcome x s = o, outcome x' s' = o' at hfit hres hstep ⊢
  obtain ⟨res, t⟩ := o
  obtain ⟨res', t'⟩ := o'
  rcases hstep with ⟨hm, ht⟩ | hparted
  · cases hm with
    | ok ha => exact (hk _ _ ha).2 t t' ht
    | error f => exact .inl ⟨.error f, ht⟩
  · right
    have hres' : res' = .error P.exit := hparted.1
    subst hres'
    refine hparted.mono ⟨rfl, rfl⟩ (fun f _ hf => ?_) fun _ => ?_
    · subst hf
      exact ⟨rfl, rfl⟩
    · cases res with
      | ok a =>
        obtain ⟨a', ha⟩ := hres a rfl
        exact ((hk a a' ha).1 t hfit).2.1
      | error f => exact P.grows_refl _

theorem Agree.tryCatch {k' : Fault → Read ν' σ' α'} (hx : P.Agree R x x') (hk : ∀ f, P.Agree R (k f) (k' f))
    (hexit : k' P.exit = throw P.exit) (hhalt : ∀ f, P.halt? = some f → k f = throw f) :
    P.Agree R (tryCatch x k) (tryCatch x' k') := by
  refine ⟨hx.1.tryCatch fun f => (hk f).1, fun s s' hs => ?_⟩
  obtain ⟨hfit, -⟩ := hx.1 s (fit_of_rel hs)
  have hstep := hx.2 s s' hs
  rw [outcome_tryCatch, outcome_tryCatch]
  generalize outcome x s = o, outcome x' s' = o' at hfit hstep ⊢
  obtain ⟨res, t⟩ := o
  obtain ⟨res', t'⟩ := o'
  rcases hstep with ⟨hm, ht⟩ | hparted
  · cases hm with
    | ok ha => exact .inl ⟨.ok ha, ht⟩
    | error f => exact (hk f).2 t t' ht
  · right
    have hres' : res' = .error P.exit := hparted.1
    subst hres'
    dsimp only
    rw [hexit]
    refine hparted.mono ⟨rfl, rfl⟩ (fun f hf' hf => ?_) fun _ => ?_
    · subst hf
      dsimp only
      rw [hhalt f hf']
      exact ⟨rfl, rfl⟩
    · cases res with
      | ok a => exact P.grows_refl _
      | error f => exact ((hk f).1 t hfit).2.1

theorem agree_ret {a : α} {a' : α'} (h : R a a') : P.Agree R (pure a) (pure a') := by
  refine ⟨fun s hs => ⟨hs, P.grows_refl _, fun b hb => ?_⟩, fun _ _ hs => .inl ⟨.ok h, hs⟩⟩
  cases hb
  exact ⟨a', h⟩

theorem agree_throw (f : Fault) : P.Agree R (throw f) (throw f) :=
  ⟨fun _ hs => ⟨hs, P.grows_refl _, nofun⟩, fun _ _ hs => .inl ⟨.error f, hs⟩⟩

theorem agree_onLine {x' : Read ν' σ' α} (h : Parallel x x') : P.Agree Eq x x' := by
  obtain ⟨g, hg, hg', -⟩ := h
  refine ⟨sound_of_eq (fun s => by rw [hg]; exact ⟨rfl, rfl⟩) fun a => ⟨a, rfl⟩, fun s s' hs => .inl ?_⟩
  rw [hg, hg', P.cursor_eq hs]
  exact ⟨.of_eq rfl, P.move hs _⟩

theorem agree_ite {p : Prop} [Decidable p] {y : Read ν σ α} {y' : Read ν' σ' α'} (hx : P.Agree R x x')
    (hy : P.Agree R y y') : P.Agree R (if p then x else y) (if p then x' else y') := by
  split
  · exact hx
  · exact hy

theorem agree_top : P.Agree (Twin P.Peer) top top := by
  refine ⟨?_, ?_⟩
  · rintro ⟨src, k, st, w⟩ hs
    cases st with
    | nil => exact ⟨hs, P.grows_refl _, nofun⟩
    | cons slot st =>
      refine ⟨hs, P.grows_refl _, fun a ha => ?_⟩
      cases ha
      exact hs slot mem_cons_self
  · rintro ⟨src, k, st, w⟩ ⟨src', k', st', w'⟩ hs
    left
    cases P.stack hs with
    | nil => exact ⟨.error _, hs⟩
    | cons h _ => exact ⟨.ok h, hs⟩

theorem agree_push (h : Twin P.Peer slot slot') : P.Agree Eq (push slot) (push slot') := by
  refine ⟨fun s hs => ⟨?_, P.grows_refl _, fun a _ => ⟨a, rfl⟩⟩, fun s s' hs => .inl ⟨.ok rfl, ?_⟩⟩
  · intro other hother
    rcases mem_cons.mp hother with rfl | hmem
    · exact ⟨slot', h⟩
    · exact hs other hmem
  · exact P.restack hs (.cons h (P.stack hs))

theorem agree_pop : P.Agree (Twin P.Peer) pop pop := by
  refine ⟨?_, ?_⟩
  · rintro ⟨src, k, st, w⟩ hs
    cases st with
    | nil => exact ⟨hs, P.grows_refl _, nofun⟩
    | cons slot st =>
      refine ⟨fun other hother => hs other (.tail _ hother), P.grows_refl _, fun a ha => ?_⟩
      cases ha
      exact hs slot mem_cons_self
  · rintro ⟨src, k, st, w⟩ ⟨src', k', st', w'⟩ hs
    left
    have hstack := P.stack hs
    cases hstack with
    | nil => exact ⟨.error _, hs⟩
    | cons h hrest => exact ⟨.ok h, P.restack hs hrest⟩

variable (P) in
/-- Whoever listens on the two sides agrees: on what is heard, and on what is told by statements and comments. -/
structure Attends (r : Reader ν σ) (r' : Reader ν' σ') : Prop where
  options_eq : r'.options = r.options
  hears_eq : ∀ {n n'}, P.Peer n n' → ∀ v, r'.host.hears n' v = r.host.hears n v
  hasShape_eq : ∀ {n n'}, P.Peer n n' → ∀ shape, r'.host.hasShape n' shape = r.host.hasShape n shape
  deliver : ∀ {n n'}, P.Peer n n' → ∀ {e : Event}, (e.Told ∨ ∃ text, e = .comment text) →
    r.host.hears n e.verb = true → P.Agree (Option.Rel P.Peer) (r.host.deliver n e) (r'.host.deliver n' e)
  copyLine : P.Agree Eq r.copyLine r'.copyLine
  exit_ne : P.exit ≠ .lineExhausted
  halt_ne : P.halt? ≠ some .lineExhausted

namespace Attends

variable {r : Reader ν σ} {r' : Reader ν' σ'} (h : P.Attends r r')

include h

theorem require (ht : Twin P.Peer slot slot') (v : Verb) : P.Agree Eq (r.require slot v) (r'.require slot' v) := by
  have hears_eq : r'.hears slot' v = r.hears slot v := by
    cases ht with
    | absent => rfl
    | blank shape => rfl
    | node hn => exact h.hears_eq hn v
  unfold Reader.require
  rw [hears_eq]
  exact agree_ite (agree_ret rfl) (agree_throw _)

theorem sendTo (ht : Twin P.Peer slot slot') {e : Event} (he : e.Told ∨ ∃ text, e = .comment text) :
    P.Agree (Option.Rel P.Peer) (r.sendTo slot e) (r'.sendTo slot' e) := by
  cases ht with
  | absent => exact agree_throw _
  | blank shape => exact (h.require (.blank shape) e.verb).bind fun _ _ _ => agree_ret .none
  | @node n n' hn =>
    -- nothing is delivered to a node that does not hear the event
    cases hv : r.host.hears n e.verb with
    | false =>
      have hv' : r'.host.hears n' e.verb = false := (h.hears_eq hn _).trans hv
      simp only [Reader.sendTo, Reader.require, Reader.hears, hv, hv', Bool.false_eq_true, if_false]
      exact agree_throw _
    | true =>
      rw [r.sendTo_node hv, r'.sendTo_node ((h.hears_eq hn _).trans hv)]
      exact h.deliver hn he hv

theorem atLineEnd [Inhabited α] [Inhabited α'] (hR : R default default) (hx : P.Agree R x x') :
    P.Agree R (r.atLineEnd x) (r'.atLineEnd x') := by
  unfold Reader.atLineEnd
  rw [h.options_eq]
  refine hx.tryCatch (fun f => agree_ite (agree_ite (agree_throw _) (agree_ret hR)) (agree_throw _))
    (if_neg h.exit_ne) fun f hf => if_neg ?_
  rintro rfl
  exact h.halt_ne hf

/-- Agreement is a correspondence. -/
def correspondence : Correspondence r r' where
  Peer := P.Peer
  Agree _ _ _ R x x' := P.Agree R x x'
  ret := agree_ret
  throw _ := agree_throw _
  onLine := agree_onLine
  bind := Agree.bind
  atLineEnd := h.atLineEnd rfl
  atLineEndNode := h.atLineEnd .none
  top_bind hk := agree_top.bind hk
  top := agree_top
  push := agree_push
  pop := agree_pop
  hasShape_eq := h.hasShape_eq
  require := h.require
  sendTo ht _ he := h.sendTo ht (.inl he)
  copyLine := h.copyLine
  checkKeyword w k := agree_onLine (parallel_checkKeyword h.options_eq w k)
  checkDescriptor w := agree_onLine (parallel_checkDescriptor h.options_eq w)
  checkCount n := agree_onLine (parallel_checkCount h.options_eq n)

theorem remark : P.Agree Eq r.remark r'.remark := by
  refine agree_top.bind fun slot slot' ht => ?_
  rw [h.options_eq, ht.isAbsent_eq]
  refine agree_ite (agree_ite h.copyLine ?_) (agree_ret rfl)
  refine (agree_onLine parallel_currentLine).bind fun l _ hl => ?_
  rw [← hl]
  exact (h.sendTo ht (.inr ⟨_, rfl⟩)).bind fun _ _ _ => agree_ret rfl

theorem nextLineWithin (hadvance : P.Agree Eq (advance : Read ν σ String) (advance : Read ν' σ' String)) (n : Nat) :
    P.Agree Eq (r.nextLineWithin n) (r'.nextLineWithin n) := by
  induction n with
  | zero => exact agree_throw _
  | succ n ih =>
    refine hadvance.bind fun l _ hl => ?_
    rw [← hl]
    exact agree_ite (h.remark.bind fun _ _ _ => ih) (agree_ret rfl)

theorem openClass (hnext : P.Agree Eq r.nextLine r'.nextLine) (hexit : P.exit ≠ .endOfSource)
    (hhalt : P.halt? ≠ some .endOfSource) : P.Agree Eq r.openClass r'.openClass := by
  unfold Reader.openClass
  rw [h.options_eq]
  have hreach : P.Agree Eq (do r.nextLine; pure true) (do r'.nextLine; pure true) :=
    hnext.bind fun _ _ _ => agree_ret rfl
  refine (hreach.tryCatch (fun f => ?_) (if_neg hexit) fun f hf => if_neg ?_).bind fun reached _ hreached => ?_
  · exact agree_ite (agree_ite (agree_throw _) (agree_ret rfl)) (agree_throw f)
  · rintro rfl
    exact hhalt hf
  · rw [← hreached]
    exact agree_ite ((h.correspondence.classHeader (b := false) false).bind fun _ _ _ => agree_ret rfl) (agree_ret rfl)

end Attends

/-! ### One source -/

variable (P) in
/-- Related sessions have the same lines left. -/
structure Shares : Prop where
  source_eq : ∀ {s s'}, P.Rel s s' → s'.source = s.source
  resource : ∀ {s s'}, P.Rel s s' → ∀ src, P.Rel { s with source := src } { s' with source := src }
  exit_loud : P.exit.endsReading = false
  halt_loud : ∀ f, P.halt? = some f → f.endsReading = false

namespace Shares

variable {r : Reader ν σ} {r' : Reader ν' σ'} (hshare : P.Shares)

include hshare

theorem advance : P.Agree Eq (advance : Read ν σ String) (Read.advance : Read ν' σ' String) := by
  refine ⟨sound_of_eq (fun s => ?_) fun l => ⟨l, rfl⟩, fun s s' hs => .inl ?_⟩
  · obtain ⟨⟨lines⟩, k, st, w⟩ := s
    rcases lines with _ | ⟨_ | l, rest⟩
    · exact ⟨rfl, rfl⟩
    · exact ⟨rfl, rfl⟩
    · rw [outcome_advance_some]
      split <;> exact ⟨rfl, rfl⟩
  · have hsrc := hshare.source_eq hs
    have hcur := P.cursor_eq hs
    obtain ⟨⟨lines⟩, k, st, w⟩ := s
    obtain ⟨src', k', st', w'⟩ := s'
    obtain rfl : src' = ⟨lines⟩ := hsrc
    obtain rfl : k' = k := hcur
    rcases lines with _ | ⟨_ | l, rest⟩
    · exact ⟨.error _, hs⟩
    · exact ⟨.error _, hshare.resource hs ⟨rest⟩⟩
    · rw [outcome_advance_some, outcome_advance_some]
      obtain ⟨c, hc⟩ := k'.reset_ok l
      rw [hc]
      exact ⟨.ok rfl, P.move (hshare.resource hs ⟨rest⟩) c⟩

theorem get_bind {k : Nat → Read ν σ α} {k' : Nat → Read ν' σ' α'} (hk : ∀ n, P.Agree R (k n) (k' n)) :
    P.Agree R (do k (← get).source.lines.length) (do k' (← get).source.lines.length) := by
  refine ⟨fun s hs => (hk _).1 s hs, fun s s' hs => ?_⟩
  have h := (hk s.source.lines.length).2 s s' hs
  rw [outcome_bind, outcome_bind, outcome_get, outcome_get]
  dsimp only
  rw [hshare.source_eq hs]
  exact h

variable (h : P.Attends r r')

include h

theorem nextLine : P.Agree Eq r.nextLine r'.nextLine :=
  hshare.get_bind fun n => h.nextLineWithin hshare.advance (n + 1)

/-- Agreement is kept by moving to the next line. -/
def lines : LineCorrespondence r r' where
  toCorrespondence := h.correspondence
  ends := agree_throw _
  nextLine := hshare.nextLine h
  bounded hk _ _ := hshare.get_bind fun n => hk (n + 1)

theorem openClass : P.Agree Eq r.openClass r'.openClass := by
  refine h.openClass (hshare.nextLine h) (fun he => ?_) fun he => ?_
  · exact absurd hshare.exit_loud (by rw [he]; decide)
  · exact absurd (hshare.halt_loud _ he) (by decide)

variable (hhost : r.host.Private) (hhost' : r'.host.Private)

include hhost hhost'

theorem readLine : P.Agree Eq r.readLine r'.readLine :=
  (hshare.nextLine h).bind fun _ _ _ => Correspondence.lineAtHand ((hshare.lines h).loops hhost hhost')

theorem readLines (n : Nat) : P.Agree Eq (r.readLines n) (r'.readLines n) := by
  induction n with
  | zero => exact agree_throw _
  | succ n ih => exact (hshare.readLine h hhost hhost').bind fun _ _ _ => ih

theorem readBody : P.Agree Eq r.readBody r'.readBody := by
  refine (hshare.get_bind fun n => hshare.readLines h hhost hhost' (n + 1)).tryCatch (fun f => ?_) ?_ fun f hf => ?_
  · exact agree_ite (h.correspondence.tellEnd (b := false)) (agree_ite (agree_throw _) (agree_throw f))
  · rw [if_neg (by rw [hshare.exit_loud]; exact Bool.false_ne_true), if_neg h.exit_ne]
  · rw [if_neg (by rw [hshare.halt_loud f hf]; exact Bool.false_ne_true), if_neg (by rintro rfl; exact h.halt_ne hf)]

theorem visit (input : Input) {root : ν} {root' : ν'} (hroot : P.Peer root root') :
    P.Agree Eq (r.visit input (some root)) (r'.visit input (some root')) := by
  have hload (source : Source) : P.Agree Eq (modify fun s => { s with source := source } : Read ν σ PUnit)
      (modify fun s => { s with source := source } : Read ν' σ' PUnit) :=
    ⟨sound_of_eq (fun _ => ⟨rfl, rfl⟩) fun a => ⟨a, rfl⟩, fun s s' hs => .inl ⟨.ok rfl, hshare.resource hs source⟩⟩
  unfold Reader.visit
  rw [h.options_eq]
  cases hp : input.isPresent with
  | false => exact agree_throw _
  | true =>
    have hsource : P.Agree Eq (attempt input.source) (attempt input.source) := by
      cases input.source with
      | ok source => exact agree_ret rfl
      | error f => exact agree_throw f
    refine hsource.bind fun source _ hsource => ?_
    rw [← hsource]
    cases hk : r.options.knownPolicy with
    | false => exact agree_throw _
    | true =>
      refine (hload source).bind fun _ _ _ => (agree_push (.node hroot)).bind fun _ _ _ => ?_
      cases hs : r.options.snippet with
      | true => exact hshare.readBody h hhost hhost'
      | false => exact (hshare.openClass h).bind fun _ _ _ => hshare.readBody h hhost hhost'

end Shares

end Pairing

/-! ### One reading and itself -/

section Keeping

variable {Inv : σ → Prop} {r : Reader ν σ}
variable (ν) in
/-- A reading is paired with itself as long as its world has a property; it never parts. -/
def keeping (Inv : σ → Prop) : Pairing ν σ ν σ where
  Peer := Eq
  Rel s s' := s' = s ∧ Inv s.world
  cursor_eq h := by rw [h.1]
  move h k := ⟨by rw [h.1], h.2⟩
  stack h := by
    rw [h.1]
    exact forall₂_same.mpr fun slot _ => .of_eq slot
  restack h _ _ hst := by
    have heq : Forall₂ Eq _ _ := hst.imp fun _ _ htwin => Twin.eq htwin
    rw [forall₂_eq_eq_eq] at heq
    exact ⟨by rw [h.1, heq], h.2⟩
  Grows _ _ := True
  grows_refl _ := trivial
  grows_trans _ _ := trivial
  exit := .noOperation
  halt? := none
  Part _ _ := False
  part_grows _ _ _ _ h _ := h

theorem agree_keeping {R : α → α → Prop} (hR : ∀ a, R a a) (hx : ∀ s, Inv s.world → Inv (outcome x s).2.world) :
    (keeping ν Inv).Agree R x x := by
  refine ⟨fun s _ => ⟨fun slot _ => ⟨slot, .of_eq slot⟩, trivial, fun a _ => ⟨a, hR a⟩⟩, fun s s' hs => .inl ?_⟩
  obtain ⟨rfl, hs⟩ := hs
  refine ⟨?_, rfl, hx _ hs⟩
  cases (outcome x s').1 with
  | ok a => exact .ok (hR a)
  | error f => exact .error f

theorem visit_keeps (r : Reader ν σ) (Inv : σ → Prop) (h : r.host.Private)
    (hcopy : ∀ s, Inv s.world → Inv (outcome r.copyLine s).2.world)
    (hdeliver : ∀ n e, (e.Told ∨ ∃ text, e = .comment text) → ∀ s, Inv s.world → Inv (outcome (r.host.deliver n e) s).2.world)
    (input : Input) (root : ν) (hs : Inv s.world) :
    Inv (outcome (r.visit input (some root)) s).2.world := by
  have hattends : (keeping ν Inv).Attends r r :=
    { options_eq := rfl
      hears_eq := fun h v => by rw [show _ = _ from h]
      hasShape_eq := fun h shape => by rw [show _ = _ from h]
      deliver := fun hn e he _ => by
        rw [← show _ = _ from hn]
        exact agree_keeping Twin.rel_of_eq (hdeliver _ e he)
      copyLine := agree_keeping (fun _ => rfl) hcopy
      exit_ne := nofun
      halt_ne := nofun }
  have hshares : (keeping ν Inv).Shares :=
    { source_eq := fun h => by rw [h.1]
      resource := fun h src => ⟨by rw [h.1], h.2⟩
      exit_loud := rfl
      halt_loud := nofun }
  rcases (hshares.visit hattends h h input (show (keeping ν Inv).Peer root root from rfl)).2 s s ⟨rfl, hs⟩ with ⟨-, -, hinv⟩ | ⟨-, -, hpart⟩
  · exact hinv
  · exact hpart.elim

end Keeping

end Reader

end Dalvik
