import Dalvik.Proofs.Constructs

/-!
# Runs over lines

A source is read line by line: `Reader.Reads` relates a session to one that follows by reading any number
of lines, and `Reader.Stops` ends such a run at the line that could not be read. The bounds of the loops
play no part here: every line that is read uses up a line of the source, so the body of a source is read
exactly up to the line where the reading stops (`Reader.Governs.outcome_readBody`).
-/

namespace Dalvik.Reader

variable {ν σ : Type}
variable {s t u : Session ν σ} {f : Fault}

/-- Lines are read one after another without a fault. -/
inductive Reads (r : Reader ν σ) : Session ν σ → Session ν σ → Prop
  | refl (s : Session ν σ) : Reads r s s
  | line {s t u : Session ν σ} : outcome r.readLine s = (.ok (), t) → Reads r t u → Reads r s u

/-- Lines are read up to one that ends in a fault. -/
def Stops (r : Reader ν σ) (s : Session ν σ) (f : Fault) (u : Session ν σ) : Prop :=
  ∃ t, r.Reads s t ∧ outcome r.readLine t = (.error f, u)

/-- Some lines are read at one go, whatever follows them. -/
def Takes (r : Reader ν σ) (ls : List String) (st : List (Slot ν)) (w : σ) (st' : List (Slot ν)) (w' : σ) : Prop :=
  ∀ rest k, ∃ k', outcome r.readLine ⟨⟨ls.map some ++ rest⟩, k, st, w⟩ = (.ok (), ⟨⟨rest⟩, k', st', w'⟩)

variable {r : Reader ν σ} {c : Contract (Session ν σ)} {fit : ν → Prop}

theorem Takes.line {l : String} {st st' : Slots ν} {w w' : σ} (h : r.Takes [l] st w st' w')
    (rest : Lines) (k : Cursor) :
    ∃ k', outcome r.readLine ⟨⟨some l :: rest⟩, k, st, w⟩ = (.ok (), ⟨⟨rest⟩, k', st', w'⟩) :=
  h rest k

theorem Reads.trans (h : r.Reads s t) (h' : r.Reads t u) : r.Reads s u := by
  induction h with
  | refl s => exact h'
  | line hl _ ih => exact .line hl (ih h')

theorem Reads.single (h : outcome r.readLine s = (.ok (), t)) : r.Reads s t :=
  .line h (.refl t)

theorem Reads.stops (h : r.Reads s t) (h' : r.Stops t f u) : r.Stops s f u := by
  obtain ⟨v, hv, hf⟩ := h'
  exact ⟨v, h.trans hv, hf⟩

theorem Stops.unique {u' : Session ν σ} {f' : Fault} (h : r.Stops s f u) (h' : r.Stops s f' u') : f = f' ∧ u = u' := by
  obtain ⟨t, ht, hf⟩ := h
  obtain ⟨t', ht', hf'⟩ := h'
  induction ht with
  | refl s =>
    cases ht' with
    | refl => exact by simpa [hf] using hf'
    | line hl _ => simp [hf] at hl
  | line hl _ ih =>
    cases ht' with
    | refl => simp [hl] at hf'
    | line hl' hrest =>
      obtain rfl : _ = _ := by simpa [hl] using hl'
      exact ih hf hrest

namespace Governs

variable (h : r.Governs c fit)

include h

theorem readLine_shorter (hs : c.holds s) (e : outcome r.readLine s = (.ok (), t)) :
    t.source.lines.length < s.source.lines.length := by
  obtain ⟨_, u, hn, hrest⟩ := outcome_bind_eq_ok s e
  have hu := (h.nextLine s hs).holds_of hn
  have hut := h.shrinks u t ((h.lineAtHand u hu).leads_of hrest)
  have := h.nextLine_shorter hs hn
  omega

theorem readLines_stops (n : Nat) (hs : c.holds s) (hn : s.source.lines.length < n) :
    ∃ f u, r.Stops s f u ∧ outcome (r.readLines n) s = (.error f, u) := by
  induction n generalizing s with
  | zero => omega
  | succ n ih =>
    unfold Reader.readLines
    rcases hl : outcome r.readLine s with ⟨res, t⟩
    cases res with
    | error f => exact ⟨f, t, ⟨s, .refl s, hl⟩, bind_error s hl⟩
    | ok a =>
      have ht := (h.readLine s hs).holds_of hl
      have hlen := h.readLine_shorter hs hl
      obtain ⟨f, u, hstop, hrun⟩ := ih ht (by omega)
      refine ⟨f, u, (Reads.single hl).stops hstop, ?_⟩
      rw [bind_ok s hl]
      exact hrun

theorem stops_admits (hs : c.holds s) (hstop : r.Stops s f u) : c.holds u ∧ c.admits f u := by
  obtain ⟨t, ht, hf⟩ := hstop
  induction ht with
  | refl s => exact ⟨(h.readLine s hs).holds_of hf, (h.readLine s hs).admits_of hf⟩
  | line hl _ ih => exact ih ((h.readLine _ hs).holds_of hl) hf

/-- What becomes of a source is settled by the line where the reading stops: a fault that concerns a
value, and the end of the source, only tell the innermost construct that it ends. -/
theorem outcome_readBody (hs : c.holds s) (hstop : r.Stops s f u) : outcome r.readBody s =
      if f.endsReading then outcome (r.tell .close) u
      else if f = .lineExhausted then (.error .unexpectedEndOfLine, u) else (.error f, u) := by
  obtain ⟨f', u', hstop', hrun⟩ := h.readLines_stops (s.source.lines.length + 1) hs (by omega)
  obtain ⟨rfl, rfl⟩ := hstop.unique hstop'
  unfold Reader.readBody
  rw [outcome_tryCatch]
  have hget : outcome (do r.readLines ((← get).source.lines.length + 1)) s = (.error f, u) := by
    exact hrun
  rw [hget]
  dsimp only
  split
  · rfl
  · split <;> rfl

theorem exists_stops (hs : c.holds s) : ∃ f u, r.Stops s f u := by
  obtain ⟨f, u, hstop, -⟩ := h.readLines_stops (s.source.lines.length + 1) hs (by omega)
  exact ⟨f, u, hstop⟩

end Governs

end Dalvik.Reader
