import Dalvik.Proofs.Correspondence

/-!
# What every line keeps

A contract that a reader keeps is a relation of the reader to itself: two steps keep it alike if they do the same
and the first one keeps it (`Contract.Alike`). Where the actions that open and close nothing keep the contract, this
is an accord (`Reader.Conducts.accord`), and the loops over lines keep it within any bound that is larger than the
number of lines that are left, whichever it is (`Reader.Conducts.rounds`). A contract that opening and closing
constructs keep too is kept by every line of a source. `Reader.Governs` adds these actions to `Reader.Conducts`; since
an event may hand over a new node, it says which nodes are fit to be put on the stack.
-/

namespace Dalvik

open Contract

variable {ν σ τ α α' β β' : Type}

/-- Two steps do the same, up to results that stand for each other, and keep a contract. -/
def Contract.Alike (c : Contract τ) (R : α → α' → Prop) (x : ExceptT Fault (StateM τ) α)
    (x' : ExceptT Fault (StateM τ) α') : Prop :=
  ∀ s, c.holds s → c.KeptAt x s ∧ Matching R (outcome x s).1 (outcome x' s).1 ∧ (outcome x' s).2 = (outcome x s).2

namespace Contract

variable {c : Contract τ} {R : α → α' → Prop} {x : ExceptT Fault (StateM τ) α} {x' : ExceptT Fault (StateM τ) α'}

theorem Alike.kept (h : c.Alike R x x') : c.Kept x := fun s hs => (h s hs).1

theorem Alike.outcome_eq {x x' : ExceptT Fault (StateM τ) α} (h : c.Alike Eq x x') {s : τ} (hs : c.holds s) :
    outcome x s = outcome x' s :=
  Prod.ext (h s hs).2.1.eq (h s hs).2.2.symm

theorem Kept.alike {R : α → α → Prop} (h : c.Kept x) (hR : ∀ a, R a a) : c.Alike R x x := by
  intro s hs
  refine ⟨h s hs, ?_, rfl⟩
  cases (outcome x s).1 with
  | ok a => exact .ok (hR a)
  | error f => exact .error f

theorem alike_pure {a : α} {a' : α'} (h : R a a') : c.Alike R (pure a) (pure a') :=
  fun _ hs => ⟨keptAt_pure hs a, .ok h, rfl⟩

theorem Alike.bind {Q : β → β' → Prop} {k : α → ExceptT Fault (StateM τ) β} {k' : α' → ExceptT Fault (StateM τ) β'}
    (hx : c.Alike R x x') (hk : ∀ a a', R a a' → c.Alike Q (k a) (k' a')) : c.Alike Q (x >>= k) (x' >>= k') := by
  intro s hs
  obtain ⟨hkept, hres, hstate⟩ := hx s hs
  rcases hxs : outcome x s with ⟨res, t⟩
  rcases hxs' : outcome x' s with ⟨res', t'⟩
  rw [hxs, hxs'] at hres
  rw [hxs, hxs'] at hstate
  cases hstate
  cases hres with
  | ok h =>
    rw [bind_ok s hxs, bind_ok s hxs']
    have hka := hk _ _ h t (hkept.holds_of hxs)
    exact ⟨keptAt_bind_of_ok hxs (hkept.leads_of hxs) hka.1, hka.2⟩
  | error f =>
    rw [bind_error s hxs, bind_error s hxs']
    exact ⟨.of_error (bind_error s hxs) (hkept.holds_of hxs) (hkept.leads_of hxs) (hkept.admits_of hxs), .error f, rfl⟩

end Contract

namespace Reader

open Read Dalvik.Text

/-- Fit nodes stand for themselves. -/
def Fit (fit : ν → Prop) (n n' : ν) : Prop := n = n' ∧ fit n

variable {r : Reader ν σ} {c : Contract (Session ν σ)} {fit : ν → Prop}

theorem twin_fit {slot : Slot ν} (h : ∀ n, slot = .node n → fit n) : Slot.Twin (Fit fit) slot slot := by
  cases slot with
  | absent => exact .absent
  | blank shape => exact .blank shape
  | node n => exact .node ⟨rfl, h n rfl⟩

theorem eq_of_twin {slot slot' : Slot ν} (h : Slot.Twin (Fit fit) slot slot') :
    slot' = slot ∧ ∀ n, slot = .node n → fit n := by
  cases h with
  | absent => exact ⟨rfl, nofun⟩
  | blank shape => exact ⟨rfl, nofun⟩
  | node h => exact ⟨by rw [h.1], fun m hm => Slot.node.inj hm ▸ h.2⟩

theorem Passes.alike_atLineEnd [Inhabited α] {R : α → α → Prop} (h : Passes c) {x x' : Read ν σ α}
    (hx : c.Alike R x x') (hR : R default default) : c.Alike R (r.atLineEnd x) (r.atLineEnd x') := by
  intro s hs
  refine ⟨h.atLineEnd hx.kept s hs, ?_⟩
  obtain ⟨-, hres, hstate⟩ := hx s hs
  rw [Reader.atLineEnd, Reader.atLineEnd, outcome_tryCatch, outcome_tryCatch]
  generalize outcome x s = o at hres hstate
  generalize outcome x' s = o' at hres hstate
  obtain ⟨res, t⟩ := o
  obtain ⟨res', t'⟩ := o'
  cases hstate
  cases hres with
  | ok h => exact ⟨.ok h, rfl⟩
  | error f =>
    dsimp only
    split
    · split
      · exact ⟨.error _, rfl⟩
      · exact ⟨.ok hR, rfl⟩
    · exact ⟨.error f, rfl⟩

namespace Conducts

variable (h : r.Conducts c fit)

include h in
theorem alike_top : c.Alike (Slot.Twin (Fit fit)) (top : Read ν σ (Slot ν)) top := by
  intro s hs
  refine ⟨h.top s hs, ?_, rfl⟩
  obtain ⟨src, cur, st, w⟩ := s
  cases st with
  | nil => exact .error _
  | cons slot rest => exact .ok (twin_fit (h.fits_top hs rfl))

/-- The steps that keep a contract alike. -/
def accord : Accord r r where
  Peer := Fit fit
  Agree _ _ _ R x x' := c.Alike R x x'
  ret := alike_pure
  throw hf _ hs := ⟨keptAt_throw hs (h.faults _ _ hs hf), .error _, rfl⟩
  onLine hx := hx.eq ▸ (h.onLine (hx.eq ▸ hx)).alike fun _ => rfl
  bind := .bind
  atLineEnd hx := h.alike_atLineEnd hx rfl
  top_bind hk := h.alike_top.bind hk
  top := h.alike_top
  require ht v := by
    rw [(eq_of_twin ht).1]
    exact (h.require _ v).alike fun _ => rfl
  tellTo ht _ _ hn := by
    obtain ⟨rfl, hfit⟩ := eq_of_twin ht
    exact ((h.tellTo hfit hn).bind fun _ => kept_pure _).alike fun _ => rfl
  copyLine := h.copies.alike fun _ => rfl
  checkKeyword w k := (h.onLine (parallel_checkKeyword rfl w k)).alike fun _ => rfl
  checkDescriptor w := (h.onLine (parallel_checkDescriptor rfl w)).alike fun _ => rfl
  checkCount n := (h.onLine (parallel_checkCount rfl n)).alike fun _ => rfl

/-- Below two bounds that are larger than the number of lines that are left, the contract is kept, and which of them
it is does not matter. -/
def rounds : h.accord.Rounds where
  Below n m _ x x' := ∀ s, c.holds s → s.source.lines.length < n → s.source.lines.length < m →
    c.KeptAt x s ∧ outcome x s = outcome x' s
  zero _ _ hn := nomatch hn
  left _ _ hn := nomatch hn
  right _ _ _ hm := nomatch hm
  of_agree hx s hs _ _ := ⟨(hx s hs).1, hx.outcome_eq hs⟩
  bind {n m _ _ x x' k k'} hx hk s hs hn hm := by
    obtain ⟨hkept, heq⟩ := hx s hs hn hm
    have hrest (a : _) (t : Session ν σ) (ht : outcome x s = (.ok a, t)) := by
      have := h.shrinks s t (hkept.leads_of ht)
      exact hk a t (hkept.holds_of ht) (by omega) (by omega)
    refine ⟨keptAt_bind hkept fun a t ht _ _ => (hrest a t ht).1, ?_⟩
    rw [outcome_bind, outcome_bind, ← heq]
    rcases hx : outcome x s with ⟨res, t⟩
    cases res with
    | ok a => exact (hrest a t hx).2
    | error f => rfl
  nextLine {n m _ k k'} hk s hs hn hm := by
    have hrest (a : PUnit) (t : Session ν σ) (ht : outcome r.nextLine s = (.ok a, t)) := by
      have := h.nextLine_shorter hs ht
      exact hk t ((h.nextLine s hs).holds_of ht) (by omega) (by omega)
    refine ⟨keptAt_bind (h.nextLine s hs) fun a t ht _ _ => (hrest a t ht).1, ?_⟩
    rw [outcome_bind, outcome_bind]
    rcases hx : outcome r.nextLine s with ⟨res, t⟩
    cases res with
    | ok a => exact (hrest a t hx).2
    | error f => rfl

theorem loops : h.accord.Loops := by
  have within {k : Nat → Read ν σ Unit} {k' : Nat → Read ν σ Unit} (hk : ∀ n, h.rounds.Below n n (k n) (k' n)) :
      c.Alike Eq (payloadBound >>= k) (payloadBound >>= k') := by
    intro s hs
    obtain ⟨hkept, heq⟩ := hk (s.source.lines.length + 1) s hs (Nat.lt_succ_self _) (Nat.lt_succ_self _)
    exact ⟨keptAt_bind_of_ok (a := s.source.lines.length + 1) rfl (c.refl s) hkept,
      .of_eq (congrArg Prod.fst heq), (congrArg Prod.snd heq).symm⟩
  have next : c.Alike Eq r.nextLine r.nextLine := h.nextLine.alike fun _ => rfl
  have more {α : Type} {n : Nat} {x x' : Read ν σ α} (hx : h.rounds.Below (n + 1) (n + 1) x x') :
      h.rounds.Below n n x x' := fun s hs hn _ => hx s hs (Nat.lt_succ_of_lt hn) (Nat.lt_succ_of_lt hn)
  exact
    { packedLabels := fun muted _ _ ht => next.bind fun _ _ _ => within fun n =>
        h.rounds.bind (more (h.rounds.packedLabels muted _ _)) fun labels => h.rounds.of_agree (ht labels)
      arrayValues := fun muted _ _ ht => within fun n =>
        h.rounds.bind (h.rounds.arrayValues muted n n) fun values => h.rounds.of_agree (ht values)
      sparseBranches := fun muted _ _ ht => within fun n =>
        h.rounds.bind (h.rounds.sparseBranches muted n n []) fun branches => h.rounds.of_agree (ht branches)
      listedValues := fun muted _ _ ht => next.bind fun _ _ _ => within fun n =>
        h.rounds.bind (more (h.rounds.listedValues muted _ _)) fun values => h.rounds.of_agree (ht values) }

include h

theorem simpleDirective {d : Directive} (hd : d.nests = false) : c.Kept (r.simpleDirective d) :=
  (Accord.simpleDirective (b := false) h.loops hd).kept

theorem openClass : c.Kept r.openClass := by
  refine Kept.bind (fun s hs => ?_) fun reached => ?_
  · refine keptAt_tryCatch ((h.nextLine.bind fun _ => kept_pure true) s hs) fun f t _ ht _ hf => ?_
    split
    · split
      · exact keptAt_throw ht (h.faults _ t ht rfl)
      · exact keptAt_pure ht _
    · exact keptAt_throw ht hf
  · refine kept_ite (fun _ => Kept.bind (h.atLineEnd ?_) fun _ => kept_pure _)
      fun _ => kept_pure _
    refine (h.onLine (parallel_passKeyword rfl _)).bind fun _ => (h.onLine parallel_accessFlags).bind fun flags =>
      (h.onLine parallel_peekWord).bind fun name => (h.onLine (parallel_checkDescriptor rfl name)).bind fun _ => ?_
    exact (h.top_bind fun slot rest s hs hst => h.tellTo (h.fits_top hs hst) rfl s hs).bind fun _ =>
      (h.accord.publishComment (b := false)).kept.bind fun _ => kept_pure _

end Conducts

/-- All that a reader does keeps a contract, as long as only fit nodes are on the stack. -/
structure Governs (r : Reader ν σ) (c : Contract (Session ν σ)) (fit : ν → Prop) : Prop extends r.Conducts c fit where
  opens : ∀ slot s, c.holds s → (∀ n, slot = .node n → fit n) →
    c.holds { s with stack := slot :: s.stack } ∧ c.leads s { s with stack := slot :: s.stack }
  closes : ∀ slot rest s, c.holds s → s.stack = slot :: rest →
    c.holds { s with stack := rest } ∧ c.leads s { s with stack := rest }
  delivers : ∀ n e s, c.holds s → fit n → c.KeptAt (r.sendTo (.node n) e) s
  breeds : ∀ n e s t m, c.holds s → fit n → outcome (r.sendTo (.node n) e) s = (.ok (some m), t) → fit m
  tells n e s hs hn _ := delivers n e s hs hn

namespace Governs

variable (h : r.Governs c fit)

include h in
theorem alike_sendTo {slot : Slot ν} (hslot : ∀ n, slot = .node n → fit n) (e : Event) :
    c.Alike (Option.Rel (Fit fit)) (r.sendTo slot e) (r.sendTo slot e) := by
  have require : c.Kept (do r.require slot e.verb) := h.require slot e.verb
  cases slot with
  | node n =>
    intro s hs
    refine ⟨h.delivers n e s hs (hslot n rfl), ?_, rfl⟩
    rcases hres : outcome (r.sendTo (.node n) e) s with ⟨_ | _ | m, t⟩
    · exact .error _
    · exact .ok .none
    · exact .ok (.some ⟨rfl, h.breeds n e s t m hs (hslot n rfl) hres⟩)
  | absent => exact (h.accord.throw (b := false) rfl).bind fun _ _ h => h
  | blank shape => exact (require.alike fun _ => rfl).bind fun _ _ _ => alike_pure .none

/-- All that a reader does on a line keeps the contract alike. -/
def correspondence : Correspondence r r where
  toAccord := h.accord
  atLineEndNode hx := h.alike_atLineEnd hx .none
  push ht s hs := by
    obtain ⟨rfl, hfit⟩ := eq_of_twin ht
    obtain ⟨hopen, hst⟩ := h.opens _ s hs hfit
    exact ⟨.of_ok (outcome_modify s _) hopen hst, .ok rfl, rfl⟩
  pop := by
    rintro ⟨src, cur, st, d⟩ hs
    cases st with
    | nil => exact ⟨.of_error (t := ⟨src, cur, [], d⟩) rfl hs (c.refl _) (h.faults _ _ hs rfl), .error _, rfl⟩
    | cons slot rest =>
      obtain ⟨ht, hst⟩ := h.closes slot rest _ hs rfl
      exact ⟨.of_ok (outcome_pop src cur slot rest d) ht hst, .ok (twin_fit (h.fits_top hs rfl)), rfl⟩
  hasShape_eq hn shape := by rw [hn.1]
  sendTo ht e _ := by
    obtain ⟨rfl, hfit⟩ := eq_of_twin ht
    exact h.alike_sendTo hfit e

include h

theorem lineAtHand : c.Kept (do if (← currentLine).cleaned.isEmpty then r.copyLine else r.statement) :=
  (Correspondence.lineAtHand (c := h.correspondence) h.loops).kept

theorem readLine : c.Kept r.readLine :=
  h.nextLine.bind fun _ => h.lineAtHand

end Governs

end Reader

end Dalvik
