import Dalvik.Proofs.Runs

/-!
# The bounds of loops

Payloads, lists of values and the body of a source are read by loops that are bounded by the number of lines
that are left. Every round takes a line away, so a bound that is larger than that number is never met, and which
one it is does not matter (`Reader.Settled`). All that is asked of whoever listens is to leave the source alone. Two
readers that correspond on a line therefore correspond on the loops as well if moving to the next line does
(`Reader.LineCorrespondence`).
-/

namespace Dalvik

variable {ν ν' σ σ' α β : Type}
variable {x : Read ν σ α} {s : Session ν σ} {loop : Nat → Read ν σ α}

theorem outcome_bind_congr {τ : Type} {x : ExceptT Fault (StateM τ) α} {k k' : α → ExceptT Fault (StateM τ) β} {s : τ}
    (h : ∀ a t, outcome x s = (.ok a, t) → outcome (k a) t = outcome (k' a) t) :
    outcome (x >>= k) s = outcome (x >>= k') s := by
  rw [outcome_bind, outcome_bind]
  rcases hx : outcome x s with ⟨res, t⟩
  cases res with
  | ok a => exact h a t hx
  | error f => rfl

/-- A step changes the world of whoever listens, by what it finds there, and nothing else. -/
def Read.InWorld (x : Read ν σ α) : Prop :=
  ∃ act : ExceptT Fault (StateM σ) α, ∀ s,
    outcome x s = ((outcome act s.world).1, { s with world := (outcome act s.world).2 })

theorem Read.InWorld.source_eq (h : InWorld x) (s : Session ν σ) : (outcome x s).2.source = s.source := by
  obtain ⟨act, hact⟩ := h
  rw [hact]

/-- Whoever listens to a reader changes its own world alone. -/
structure Host.Private (h : Host ν σ) : Prop where
  deliver : ∀ n e, Read.InWorld (h.deliver n e)
  copy : ∀ copy, h.copy? = some copy → ∀ line slot, Read.InWorld (copy line slot)

namespace Reader

open Read

variable {r : Reader ν σ}

/-- The contract by which lines are only taken from the source. -/
def taking : Contract (Session ν σ) where
  holds _ := True
  leads s t := t.source.lines.length ≤ s.source.lines.length
  admits _ _ := True
  refl _ := Nat.le_refl _
  trans h h' := Nat.le_trans h' h

theorem keptAt_taking (h : (outcome x s).2.source = s.source) : taking.KeptAt x s :=
  ⟨trivial, Nat.le_of_eq (by rw [h]), fun _ _ => trivial⟩

theorem source_sendTo (h : r.host.Private) (slot : Slot ν) (e : Event) (s : Session ν σ) :
    (outcome (r.sendTo slot e) s).2.source = s.source := by
  cases hv : r.hears slot e.verb with
  | false => simp [sendTo, require, hv]
  | true =>
    cases slot with
    | absent => cases hv
    | blank shape => simp [sendTo, require, hv]
    | node n =>
      rw [r.sendTo_node (show r.host.hears n e.verb = true from hv)]
      exact (h.deliver n e).source_eq s

theorem source_copyLine (h : r.host.Private) (s : Session ν σ) : (outcome r.copyLine s).2.source = s.source := by
  unfold copyLine
  split
  · rfl
  · rename_i copy hcopy
    obtain ⟨src, ⟨line?, ws⟩, st, w⟩ := s
    cases line? with
    | none => rfl
    | some l =>
      cases st with
      | nil => rfl
      | cons slot st => exact (h.copy copy hcopy l.raw slot).source_eq _

theorem passes_taking : Passes (taking : Contract (Session ν σ)) where
  moves _ _ _ := ⟨trivial, Nat.le_refl _⟩
  faults _ _ _ _ := trivial

theorem governs_taking (h : r.host.Private) : r.Governs taking fun _ => True where
  toPasses := passes_taking
  takes s l ls _ hl := ⟨trivial, by simp [taking, hl]⟩
  shrinks _ _ hst := hst
  ends _ _ _ := trivial
  fits _ _ _ _ _ := trivial
  copies s _ := keptAt_taking (source_copyLine h s)
  opens _ _ _ _ := ⟨trivial, Nat.le_refl _⟩
  closes _ _ _ _ _ := ⟨trivial, Nat.le_refl _⟩
  delivers n e s _ _ := keptAt_taking (source_sendTo h (.node n) e s)
  breeds _ _ _ _ _ _ _ _ := trivial

/-- Bounds that are larger than the number of lines that are left all do the same. -/
def Settled (loop : Nat → Read ν σ α) : Prop :=
  ∀ s n m, s.source.lines.length < n → s.source.lines.length < m → outcome (loop n) s = outcome (loop m) s

theorem Settled.bind (h : Settled loop) (k : α → Read ν σ β) : Settled fun n => loop n >>= k := by
  intro s n m hn hm
  rw [outcome_bind, outcome_bind, h s n m hn hm]

theorem Settled.succ (h : Settled loop) : Settled fun n => loop (n + 1) :=
  fun s n m hn hm => h s (n + 1) (m + 1) (Nat.lt_succ_of_lt hn) (Nat.lt_succ_of_lt hm)

theorem settled_step {n m : Nat} (hx : taking.Kept x) (hn : s.source.lines.length < n) (hm : s.source.lines.length < m)
    {k k' : α → Read ν σ β}
    (hk : ∀ a t, t.source.lines.length < n → t.source.lines.length < m → outcome (k a) t = outcome (k' a) t) :
    outcome (x >>= k) s = outcome (x >>= k') s := by
  refine outcome_bind_congr fun a t ht => ?_
  have hst : t.source.lines.length ≤ s.source.lines.length := (hx s trivial).leads_of ht
  exact hk a t (by omega) (by omega)

variable (h : r.host.Private) (muted : Bool)

include h

theorem settled_packedLabels : Settled (r.packedLabels muted) :=
  fun s n m hn hm => ((governs_taking h).rounds.packedLabels muted n m s trivial hn hm).2

theorem settled_arrayValues : Settled (r.arrayValues muted) :=
  fun s n m hn hm => ((governs_taking h).rounds.arrayValues muted n m s trivial hn hm).2

theorem settled_sparseBranches (branches : List (String × String)) :
    Settled fun n => r.sparseBranches muted n branches :=
  fun s n m hn hm => ((governs_taking h).rounds.sparseBranches muted n m branches s trivial hn hm).2

theorem settled_listedValues : Settled (r.listedValues muted) :=
  fun s n m hn hm => ((governs_taking h).rounds.listedValues muted n m s trivial hn hm).2

theorem outcome_readBody_of_ok {t : Session ν σ} (hl : outcome r.readLine s = (.ok (), t)) :
    outcome r.readBody s = outcome r.readBody t := by
  have g := governs_taking h
  obtain ⟨f, u, hstop⟩ := g.exists_stops (s := t) trivial
  rw [g.outcome_readBody trivial ((Reads.single hl).stops hstop), g.outcome_readBody trivial hstop]

omit h

/-- A correspondence that moving to the next line keeps as well. -/
structure LineCorrespondence (r : Reader ν σ) (r' : Reader ν' σ') extends Correspondence r r' where
  ends : ∀ {α : Type}, Agree true Eq (MonadExcept.throw .endOfSource : Read ν σ α) (MonadExcept.throw .endOfSource)
  nextLine : Agree true Eq r.nextLine r'.nextLine
  bounded : ∀ {k : Nat → Read ν σ Unit} {k' : Nat → Read ν' σ' Unit}, (∀ n, Agree true Eq (k n) (k' n)) →
    Settled k → Settled k' → Agree true Eq (payloadBound >>= k) (payloadBound >>= k')

namespace LineCorrespondence

variable {r' : Reader ν' σ'} (c : LineCorrespondence r r')

/-- Loops with the same bound correspond. -/
def rounds : c.Rounds where
  Below n m _ x x' := n = m → c.Agree true Eq x x'
  zero _ := c.ends
  left h := nomatch h
  right h := nomatch h
  of_agree hx _ := hx
  bind hx hk h := c.step (hx h) fun a => hk a h
  nextLine hk h := c.step c.nextLine fun _ => hk (Nat.succ.inj h)

theorem loops (h : r.host.Private) (h' : r'.host.Private) : c.Loops where
  packedLabels muted _ _ ht := c.step c.nextLine fun _ =>
    c.bounded (fun _ => c.step (c.rounds.packedLabels muted _ _ rfl) ht) ((settled_packedLabels h muted).succ.bind _)
      ((settled_packedLabels h' muted).succ.bind _)
  arrayValues muted _ _ ht :=
    c.bounded (fun _ => c.step (c.rounds.arrayValues muted _ _ rfl) ht) ((settled_arrayValues h muted).bind _)
      ((settled_arrayValues h' muted).bind _)
  sparseBranches muted _ _ ht :=
    c.bounded (fun _ => c.step (c.rounds.sparseBranches muted _ _ _ rfl) ht) ((settled_sparseBranches h muted _).bind _)
      ((settled_sparseBranches h' muted _).bind _)
  listedValues muted _ _ ht := c.step c.nextLine fun _ =>
    c.bounded (fun _ => c.step (c.rounds.listedValues muted _ _ rfl) ht) ((settled_listedValues h muted).succ.bind _)
      ((settled_listedValues h' muted).succ.bind _)

end LineCorrespondence

end Reader

end Dalvik
