import Dalvik.Proofs.Bounds

/-!
# Two readings side by side

Two readers that differ in their options, or one reader on two sources, do much the same. What "much the same"
means is a relation between steps, and a `Reader.Comparison` is such a relation with the few facts that make it
hold of everything a reader does: it holds of steps on the current line, of deliveries, of checks, of moving to
the next line, and it is kept by combining steps. The nodes are the same on both sides, so this is a
correspondence in which only equal results stand for each other (`Reader.Comparison.lines`).

Moving to the next line may depend on there being a construct that is open, so the relation comes in two
versions. The stronger one may assume that a construct is open, and has to leave one open.
-/

namespace Dalvik

/-- Whether an event is a comment on a line of its own. -/
def Event.isComment : Event → Bool
  | comment _ => true
  | _ => false

theorem Event.Told.isComment_eq {e : Event} (h : e.Told) : e.isComment = false := by
  cases e with
  | comment text => exact h.elim
  | _ => rfl

variable {ν σ α β : Type}
variable {x x' : Read ν σ α}

namespace Read

/-- A step that looks at the current line and moves on it, and does nothing else. -/
def OnLine (x : Read ν σ α) : Prop :=
  ∃ g : Cursor → Except Fault α × Cursor, ∀ s, outcome x s = ((g s.cursor).1, { s with cursor := (g s.cursor).2 })

theorem Parallel.onLine (h : Parallel x x') : OnLine x := by
  obtain ⟨g, hg, -⟩ := h
  exact ⟨g, hg⟩

theorem onLine_attempt (x : Except Fault α) : OnLine (attempt x : Read ν σ α) :=
  ⟨fun k => (x, k), fun _ => rfl⟩

theorem onLine_pure (a : α) : OnLine (pure a : Read ν σ α) := onLine_attempt (.ok a)

theorem onLine_throw (f : Fault) : OnLine (throw f : Read ν σ α) := onLine_attempt (.error f)

theorem onLine_currentLine : OnLine (currentLine : Read ν σ Line) := parallel_currentLine.onLine

end Read

namespace Reader

open Read Dalvik.Text

/-- A relation between the steps of two readers that all they do keeps. The truth value says whether a construct
is known to be open. -/
structure Comparison (r r' : Reader ν σ) where
  Agree : Bool → ∀ {α : Type}, Read ν σ α → Read ν σ α → Prop
  onLine : ∀ {b : Bool} {α : Type} {x : Read ν σ α}, OnLine x → Agree b x x
  bind : ∀ {b : Bool} {α β : Type} {x x' : Read ν σ α} {k k' : α → Read ν σ β},
    Agree b x x' → (∀ a, Agree b (k a) (k' a)) → Agree b (x >>= k) (x' >>= k')
  atLineEnd : ∀ {b : Bool} {α : Type} [Inhabited α] {x x' : Read ν σ α}, Agree b x x' →
    Agree b (r.atLineEnd x) (r'.atLineEnd x')
  top_bind : ∀ {b : Bool} {α : Type} {k k' : Slot ν → Read ν σ α}, (∀ slot, Agree true (k slot) (k' slot)) →
    Agree b (top >>= k) (top >>= k')
  push : ∀ {b : Bool} (slot : Slot ν), Agree b (push slot) (push slot)
  pop : Agree false (pop : Read ν σ (Slot ν)) pop
  hasShape_eq : ∀ slot shape, r'.hasShape slot shape = r.hasShape slot shape
  require : ∀ {b : Bool} (slot : Slot ν) (v : Verb), Agree b (r.require slot v) (r'.require slot v)
  sendTo : ∀ {b : Bool} (slot : Slot ν) {e : Event}, e.isComment = false → Agree b (r.sendTo slot e) (r'.sendTo slot e)
  copyLine : ∀ {b : Bool}, Agree b r.copyLine r'.copyLine
  checkKeyword : ∀ {b : Bool} (w : String) (k : Keyword), Agree b (r.checkKeyword w k) (r'.checkKeyword w k)
  checkDescriptor : ∀ {b : Bool} (w : String), Agree b (r.checkDescriptor w) (r'.checkDescriptor w)
  checkCount : ∀ {b : Bool} (n : Nat), Agree b (if n != 3 && r.options.validate then throw (.localValues n) else pure ())
    (if n != 3 && r'.options.validate then throw (.localValues n) else pure ())
  nextLine : Agree true r.nextLine r'.nextLine
  bounded : ∀ {b : Bool} {α : Type} {k k' : Nat → Read ν σ α}, (∀ n, Agree b (k n) (k' n)) → Settled k → Settled k' →
    Agree b (payloadBound >>= k) (payloadBound >>= k')

namespace Comparison

variable {r r' : Reader ν σ} (c : Comparison r r') {b : Bool}

theorem pure (a : α) : c.Agree b (pure a : Read ν σ α) (pure a) := c.onLine (onLine_pure a)

theorem top : c.Agree b (top : Read ν σ (Slot ν)) top := by
  have h : c.Agree b ((Read.top : Read ν σ (Slot ν)) >>= Pure.pure) (Read.top >>= Pure.pure) :=
    c.top_bind fun slot => c.pure slot
  simpa using h

theorem tell {e : Event} (he : e.isComment = false) : c.Agree b (r.tell e) (r'.tell e) :=
  c.bind (c.bind c.top fun slot => c.sendTo slot he) fun _ => c.pure _

/-- Two steps are related up to a relation between their results: whatever follows them, if it is related for
related results, is related behind them. -/
def Leads (b : Bool) {α α' : Type} (R : α → α' → Prop) (x : Read ν σ α) (x' : Read ν σ α') : Prop :=
  ∀ {β : Type} {k : α → Read ν σ β} {k' : α' → Read ν σ β}, (∀ a a', R a a' → c.Agree b (k a) (k' a')) →
    c.Agree b (x >>= k) (x' >>= k')

variable {c} {R : α → α → Prop}

theorem Leads.agree (h : c.Leads b R x x') (hR : ∀ a a', R a a' → a = a') : c.Agree b x x' := by
  have hpure : c.Agree b (x >>= Pure.pure) (x' >>= Pure.pure) := h fun a a' ha => by
    rw [hR a a' ha]
    exact c.pure a'
  simpa using hpure

theorem leads_of_agree (h : c.Agree b x x') (hR : ∀ a, R a a) : c.Leads b R x x' :=
  fun hk => c.bind h fun a => hk a a (hR a)

variable (c)

/-- A comparison is a correspondence of nodes with themselves. -/
def lines : LineCorrespondence r r' where
  Peer := Eq
  Agree b _ _ R x x' := c.Leads b R x x'
  ret h := fun hk => by simpa using hk _ _ h
  throw _ := fun _ => c.onLine (onLine_throw _)
  onLine h := h.eq ▸ leads_of_agree (c.onLine h.onLine) fun _ => rfl
  bind hx hk := fun hj => by
    rw [bind_assoc, bind_assoc]
    exact hx fun a a' ha => hk a a' ha hj
  atLineEnd h := leads_of_agree (c.atLineEnd (h.agree fun _ _ ha => ha)) fun _ => rfl
  atLineEndNode h := leads_of_agree (c.atLineEnd (h.agree fun _ _ ha => Slot.Twin.eq_of_rel ha)) Slot.Twin.rel_of_eq
  top_bind hk := leads_of_agree
    (c.top_bind fun slot => Leads.agree (hk slot slot (.of_eq slot)) fun _ _ ha => ha) fun _ => rfl
  top := leads_of_agree c.top .of_eq
  push h := h.eq ▸ leads_of_agree (c.push _) fun _ => rfl
  pop := leads_of_agree c.pop .of_eq
  hasShape_eq h shape := h ▸ c.hasShape_eq (.node _) shape
  require h v := h.eq ▸ leads_of_agree (c.require _ v) fun _ => rfl
  sendTo h _ he := h.eq ▸ leads_of_agree (c.sendTo _ he.isComment_eq) Slot.Twin.rel_of_eq
  copyLine := leads_of_agree c.copyLine fun _ => rfl
  checkKeyword w k := leads_of_agree (c.checkKeyword w k) fun _ => rfl
  checkDescriptor w := leads_of_agree (c.checkDescriptor w) fun _ => rfl
  checkCount n := leads_of_agree (c.checkCount n) fun _ => rfl
  ends := fun _ => c.onLine (onLine_throw _)
  nextLine := leads_of_agree c.nextLine fun _ => rfl
  bounded hk h h' := fun hj => by
    rw [bind_assoc, bind_assoc]
    exact c.bounded (fun n => hk n hj) (h.bind _) (h'.bind _)

theorem classHeader (inner : Bool) : c.Agree b (r.classHeader inner) (r'.classHeader inner) :=
  Leads.agree (c.lines.classHeader inner) fun _ _ => Slot.Twin.eq_of_rel

theorem lineAtHand (h : r.host.Private) (h' : r'.host.Private) :
    c.Agree false (do if (← currentLine).cleaned.isEmpty then r.copyLine else r.statement)
      (do if (← currentLine).cleaned.isEmpty then r'.copyLine else r'.statement) :=
  Leads.agree (Correspondence.lineAtHand (c.lines.loops h h')) fun _ _ ha => ha

end Comparison

end Reader

end Dalvik
