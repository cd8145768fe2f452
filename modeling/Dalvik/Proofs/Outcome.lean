import Dalvik.Fault

/-!
# Outcomes of steps

A step of reading, listing or running has a state and may end in a fault; what it changed before the
fault stays changed. Its outcome in a state is therefore a pair: the result or the fault, and the state
that is left. The equations below say what each way of combining steps does to outcomes, and are the
only place where steps are taken apart.

A contract says what a step may do: which states it may be started in, how the state that is left is
related to the first one, and which faults it may end in. Contracts are kept by combining steps that
keep them, so a fact about every step of a reader is proved once for each of its parts.
-/

namespace Dalvik

/-- The outcome of a step in a state: its result or its fault, and the state that is left. -/
def outcome {σ α : Type} (x : ExceptT Fault (StateM σ) α) (s : σ) : Except Fault α × σ :=
  x.run.run s

section Equations

variable {σ α β : Type} (s : σ)
variable {x : ExceptT Fault (StateM σ) α} {k : α → ExceptT Fault (StateM σ) β} {t u : σ} {f : Fault}

@[simp] theorem outcome_pure (a : α) : outcome (pure a : ExceptT Fault (StateM σ) α) s = (.ok a, s) := rfl

@[simp] theorem outcome_throw (f : Fault) : outcome (throw f : ExceptT Fault (StateM σ) α) s = (.error f, s) := rfl

@[simp] theorem outcome_get : outcome (get : ExceptT Fault (StateM σ) σ) s = (.ok s, s) := rfl

@[simp] theorem outcome_modify (g : σ → σ) :
    outcome (modify g : ExceptT Fault (StateM σ) PUnit) s = (.ok ⟨⟩, g s) := rfl

theorem outcome_bind (x : ExceptT Fault (StateM σ) α) (k : α → ExceptT Fault (StateM σ) β) :
    outcome (x >>= k) s = match outcome x s with
      | (.ok a, t) => outcome (k a) t
      | (.error f, t) => (.error f, t) := by
  unfold outcome
  rw [ExceptT.run_bind, StateT.run_bind]
  rcases x.run.run s with ⟨r, t⟩
  cases r <;> rfl

theorem outcome_map (x : ExceptT Fault (StateM σ) α) (g : α → β) :
    outcome (g <$> x) s = ((outcome x s).1.map g, (outcome x s).2) := by
  rw [← bind_pure_comp, outcome_bind]
  rcases outcome x s with ⟨r, t⟩
  cases r <;> rfl

theorem outcome_tryCatch (x : ExceptT Fault (StateM σ) α) (h : Fault → ExceptT Fault (StateM σ) α) :
    outcome (tryCatch x h) s = match outcome x s with
      | (.ok a, t) => (.ok a, t)
      | (.error f, t) => outcome (h f) t := by
  unfold outcome
  rw [ExceptT.run_tryCatch, StateT.run_bind]
  rcases x.run.run s with ⟨r, t⟩
  cases r <;> rfl

theorem outcome_ite (c : Prop) [Decidable c] (x y : ExceptT Fault (StateM σ) α) :
    outcome (if c then x else y) s = if c then outcome x s else outcome y s := by
  split <;> rfl

theorem bind_ok {a : α} (h : outcome x s = (.ok a, t)) : outcome (x >>= k) s = outcome (k a) t := by
  rw [outcome_bind, h]

theorem bind_error (h : outcome x s = (.error f, t)) : outcome (x >>= k) s = (.error f, t) := by
  rw [outcome_bind, h]

theorem outcome_bind_eq_ok {b : β} (h : outcome (x >>= k) s = (.ok b, u)) :
    ∃ a t, outcome x s = (.ok a, t) ∧ outcome (k a) t = (.ok b, u) := by
  rw [outcome_bind] at h
  rcases hx : outcome x s with ⟨r, t⟩
  rw [hx] at h
  cases r with
  | ok a => exact ⟨a, t, rfl, h⟩
  | error f => simp at h

theorem outcome_bind_eq_error (h : outcome (x >>= k) s = (.error f, u)) : outcome x s = (.error f, u) ∨
      ∃ a t, outcome x s = (.ok a, t) ∧ outcome (k a) t = (.error f, u) := by
  rw [outcome_bind] at h
  rcases hx : outcome x s with ⟨r, t⟩
  rw [hx] at h
  cases r with
  | ok a => exact .inr ⟨a, t, rfl, h⟩
  | error g => exact .inl (by simpa using h)

end Equations

/-- Results that stand for each other, or the same fault. -/
inductive Matching {α α' : Type} (R : α → α' → Prop) : Except Fault α → Except Fault α' → Prop
  | ok {a : α} {a' : α'} (h : R a a') : Matching R (.ok a) (.ok a')
  | error (f : Fault) : Matching R (.error f) (.error f)

theorem Matching.of_eq {α : Type} {x x' : Except Fault α} (h : x = x') : Matching Eq x x' := by
  subst h
  cases x with
  | ok a => exact .ok rfl
  | error f => exact .error f

theorem Matching.eq {α : Type} {x x' : Except Fault α} (h : Matching Eq x x') : x = x' := by
  cases h with
  | ok h => rw [h]
  | error f => rfl

/-- What a step may do. The relation between the state before and the state after holds of a step that
changes nothing, and of two steps in a row if it holds of each. -/
structure Contract (σ : Type) where
  holds : σ → Prop
  leads : σ → σ → Prop
  admits : Fault → σ → Prop
  refl : ∀ s, leads s s
  trans : ∀ {s t u}, leads s t → leads t u → leads s u

namespace Contract

variable {σ α β : Type} (c : Contract σ)
variable {a : α} {k : α → ExceptT Fault (StateM σ) β}

/-- A step keeps the contract in a state. -/
structure KeptAt (x : ExceptT Fault (StateM σ) α) (s : σ) : Prop where
  holds : c.holds (outcome x s).2
  leads : c.leads s (outcome x s).2
  admits : ∀ f, (outcome x s).1 = .error f → c.admits f (outcome x s).2

/-- A step keeps the contract wherever it may be started. -/
def Kept (x : ExceptT Fault (StateM σ) α) : Prop :=
  ∀ s, c.holds s → c.KeptAt x s

variable {c} {x : ExceptT Fault (StateM σ) α} {s : σ}

theorem KeptAt.of_ok {s t : σ} (h : outcome x s = (.ok a, t)) (ht : c.holds t) (hst : c.leads s t) : c.KeptAt x s :=
  ⟨by rw [h]; exact ht, by rw [h]; exact hst, by rw [h]; intro f hf; cases hf⟩

theorem KeptAt.of_error {s t : σ} {f : Fault}
    (h : outcome x s = (.error f, t)) (ht : c.holds t) (hst : c.leads s t) (hf : c.admits f t) :
    c.KeptAt x s := by
  refine ⟨by rw [h]; exact ht, by rw [h]; exact hst, ?_⟩
  rw [h]
  intro g hg
  cases hg
  exact hf

section Known

variable {x : ExceptT Fault (StateM σ) α} {s t : σ} {res : Except Fault α} {f : Fault}

theorem KeptAt.holds_of (h : c.KeptAt x s) (e : outcome x s = (res, t)) : c.holds t := by
  simpa [e] using h.holds

theorem KeptAt.leads_of (h : c.KeptAt x s) (e : outcome x s = (res, t)) : c.leads s t := by
  simpa [e] using h.leads

theorem KeptAt.admits_of (h : c.KeptAt x s) (e : outcome x s = (.error f, t)) : c.admits f t := by
  simpa [e] using h.admits f (by rw [e])

end Known

theorem keptAt_pure (hs : c.holds s) (a : α) : c.KeptAt (pure a : ExceptT Fault (StateM σ) α) s :=
  .of_ok (outcome_pure s a) hs (c.refl s)

theorem keptAt_throw (hs : c.holds s) {f : Fault} (hf : c.admits f s) :
    c.KeptAt (throw f : ExceptT Fault (StateM σ) α) s :=
  .of_error (outcome_throw s f) hs (c.refl s) hf

/-- A sequence keeps the contract if its first step does, and the second does wherever the first may
have stopped. -/
theorem keptAt_bind (hx : c.KeptAt x s)
    (hk : ∀ a t, outcome x s = (.ok a, t) → c.holds t → c.leads s t → c.KeptAt (k a) t) :
    c.KeptAt (x >>= k) s := by
  rcases h : outcome x s with ⟨r, t⟩
  have ht := hx.holds_of h
  have hst := hx.leads_of h
  cases r with
  | ok a =>
    have hka := hk a t h ht hst
    have e := bind_ok s (k := k) h
    exact ⟨by rw [e]; exact hka.holds, by rw [e]; exact c.trans hst hka.leads, by rw [e]; exact hka.admits⟩
  | error f =>
    have hf := hx.admits_of h
    exact .of_error (bind_error s h) ht hst hf

theorem keptAt_bind_of_ok {s t : σ} (e : outcome x s = (.ok a, t)) (hst : c.leads s t) (hk : c.KeptAt (k a) t) :
    c.KeptAt (x >>= k) s := by
  have h := bind_ok s (k := k) e
  exact ⟨by rw [h]; exact hk.holds, by rw [h]; exact c.trans hst hk.leads, by rw [h]; exact hk.admits⟩

/-- A step with a handler keeps the contract if the step does, and the handler does at every admitted
fault. -/
theorem keptAt_tryCatch {k : Fault → ExceptT Fault (StateM σ) α} (hx : c.KeptAt x s)
    (hk : ∀ f t, outcome x s = (.error f, t) → c.holds t → c.leads s t → c.admits f t → c.KeptAt (k f) t) :
    c.KeptAt (tryCatch x k) s := by
  rcases h : outcome x s with ⟨r, t⟩
  have ht := hx.holds_of h
  have hst := hx.leads_of h
  have e := outcome_tryCatch s x k
  rw [h] at e
  cases r with
  | ok a => exact .of_ok e ht hst
  | error f =>
    have hf := hx.admits_of h
    have hkf := hk f t h ht hst hf
    have e' : outcome (tryCatch x k) s = outcome (k f) t := e
    exact ⟨by rw [e']; exact hkf.holds, by rw [e']; exact c.trans hst hkf.leads, by rw [e']; exact hkf.admits⟩

theorem kept_pure (a : α) : c.Kept (pure a : ExceptT Fault (StateM σ) α) :=
  fun _ hs => keptAt_pure hs a

theorem kept_get : c.Kept (get : ExceptT Fault (StateM σ) σ) :=
  fun s hs => .of_ok (outcome_get s) hs (c.refl s)

theorem Kept.bind (hx : c.Kept x) (hk : ∀ a, c.Kept (k a)) : c.Kept (x >>= k) :=
  fun s hs => keptAt_bind (hx s hs) fun a t _ ht _ => hk a t ht

theorem kept_ite {p : Prop} [Decidable p] {x y : ExceptT Fault (StateM σ) α}
    (hx : p → c.Kept x) (hy : ¬ p → c.Kept y) : c.Kept (if p then x else y) := by
  split
  · exact hx ‹_›
  · exact hy ‹_›

end Contract

end Dalvik
