import Dalvik.Proofs.Code
import Mathlib.Tactic.ByContra

/-!
# Rounds of the loop that runs a method

A round starts the action of the instruction at hand for the frame of the method, performs its operation and
moves the position of the frame on by one. What a round does is what its operation does in the store that it
is entered with (`Store.outcome_iteration`); notes about instructions are all that comes on top. A run is a
number of rounds (`Store.Runs`).
-/

namespace Dalvik.Store

variable {v w w' : Store} {i p n vm m k : Nat} {g : Frame → Frame} {x : Instruction} {f : Frame}
  {op : Operation} {operands : List Datum}

/-! ### Frames of changed stores -/

theorem frame_modify_self (hv : v.frames = w.frames.modify i g) (hi : i < w.frames.size) : v.frame i = g (w.frame i) := by
  simp [frame, hv, hi, Array.getElem_modify]

theorem frame_modify_ne {j : Nat} (hv : v.frames = w.frames.modify i g) (hij : i ≠ j) : v.frame j = w.frame j := by
  simp [frame, hv, Array.getElem?_modify, hij]

theorem lt_size_of_instruction (hx : (w.frame i).instructions[p]? = some x) : i < w.frames.size := by
  by_contra hlarge
  have hnone : w.frames[i]? = none := Array.getElem?_eq_none (by omega)
  rw [frame, hnone] at hx
  cases hx

theorem instructionAt_eq (hp : f.position = p) (hx : f.instructions[p]? = some x) : instructionAt f = pure x := by
  have hnonneg : ¬ (p : Int) < 0 := by omega
  simp [instructionAt, hp, hnonneg, hx]

theorem mem_of_instructionAt {s t : Store} (h : outcome (instructionAt f) s = (.ok x, t)) : x ∈ f.instructions ∧ s = t := by
  unfold instructionAt at h
  generalize (if f.position < 0 then f.position + f.instructions.size else f.position) = p at h
  by_cases hp : p < 0
  · simp [hp] at h
  · cases hy : f.instructions[p.toNat]? with
    | none => simp [hp, hy] at h
    | some y =>
      obtain ⟨rfl, rfl⟩ : y = x ∧ s = t := by simpa [hp, hy] using h
      exact ⟨Array.mem_of_getElem? hy, rfl⟩

/-! ### One round -/

/-- The store with an action started for a frame. -/
def started (w : Store) (a i : Nat) : Store :=
  { w with actions := w.actions.modify a fun x => { x with frame := i } }

theorem outcome_start (w : Store) (a i : Nat) :
    outcome (updateAction a fun x => { x with frame := i }) w = (.ok (), w.started a i) := rfl

theorem action_started (w : Store) (a i b : Nat) : (w.started a i).action b
      = if a = b ∧ b < w.actions.size then { w.action b with frame := i } else w.action b := by
  simp only [action, started, Array.getElem?_modify]
  by_cases hab : a = b
  · by_cases hb : b < w.actions.size <;> simp [hab, hb]
  · simp [hab]

theorem operation_started (w : Store) (a i b : Nat) :
    ((w.started a i).action b).operation? = (w.action b).operation? := by
  rw [action_started]
  split <;> rfl

theorem frame_action_started {a : Nat} (hop : (w.action a).operation? = some op) (i : Nat) :
    ((w.started a i).action a).frame = i := by
  have hlt : a < w.actions.size := by
    by_contra hlarge
    rw [action, Array.getElem?_eq_none (by omega)] at hop
    cases hop
  rw [action_started, if_pos ⟨rfl, hlt⟩]

theorem outcome_note (vm : Nat) (n : TraceNote) (w : Store) :
    ∃ notes, outcome (note vm n) w = (.ok (), { w with trace := notes }) := by
  cases h : ((w.vms[vm]?).getD default).traced with
  | true => exact ⟨n :: w.trace, by simp [note, vmInfo, outcome_bind, h]⟩
  | false => exact ⟨w.trace, by simp [note, vmInfo, outcome_bind, h]⟩

/-- The store in which the operation of an instruction starts: the instruction may have been noted, and its
action is started for the frame. -/
def entered (w : Store) (vm m i : Nat) (x : Instruction) : Store :=
  let action := (w.actions[x.action]?).getD default
  let noted := (outcome (note vm (.before ((w.methods[m]?).getD default).signature action.opcode x.operands)) w).2
  { noted with actions := noted.actions.modify x.action fun a => { a with frame := i } }

theorem entered_eq (w : Store) (vm m i : Nat) (x : Instruction) :
    ∃ notes, w.entered vm m i x = { w.started x.action i with trace := notes } := by
  obtain ⟨notes, hnotes⟩ := outcome_note vm (.before ((w.methods[m]?).getD default).signature
    ((w.actions[x.action]?).getD default).opcode x.operands) w
  refine ⟨notes, ?_⟩
  rw [entered, started]
  simp only [hnotes]

theorem frames_entered (w : Store) (vm m i : Nat) (x : Instruction) : (w.entered vm m i x).frames = w.frames := by
  obtain ⟨notes, hw⟩ := entered_eq w vm m i x
  rw [hw, started]

theorem frame_entered (w : Store) (vm m i : Nat) (x : Instruction) (j : Nat) :
    (w.entered vm m i x).frame j = w.frame j := by
  rw [frame, frame, frames_entered]

theorem operation_entered (w : Store) (vm m i : Nat) (x : Instruction) (b : Nat) :
    ((w.entered vm m i x).action b).operation? = (w.action b).operation? := by
  obtain ⟨notes, hw⟩ := entered_eq w vm m i x
  rw [hw]
  exact operation_started w x.action i b

theorem action_entered (vm m i : Nat) (hop : ((w.actions[x.action]?).getD default).operation? = some op) :
    (((w.entered vm m i x).actions[x.action]?).getD default).operation? = some op ∧
      (((w.entered vm m i x).actions[x.action]?).getD default).frame = i := by
  refine ⟨(operation_entered w vm m i x x.action).trans hop, ?_⟩
  obtain ⟨notes, hw⟩ := entered_eq w vm m i x
  rw [hw]
  exact frame_action_started hop i

/-- A round is the operation of the instruction at hand, in the store that it starts in, a move to the next
position and a note. -/
theorem outcome_iteration_entered {w : Store} {n vm m i : Nat} {x : Instruction} {op : Operation}
    (hx : instructionAt (w.frame i) = pure x)
    (hop : (w.action x.action).operation? = some op) (hspread : spread x.operands = pure operands) :
    outcome (iteration n vm m i (w.frame i)) w = outcome (do
      operate (runWithin n) x.action op operands
      updateFrame i fun f => { f with position := f.position + 1 }
      note vm (.after (w.method m).signature (w.action x.action).opcode)) (w.entered vm m i x) := by
  obtain ⟨hop', -⟩ := action_entered vm m i hop
  obtain ⟨notes, hu⟩ := outcome_note vm (.before ((w.methods[m]?).getD default).signature
    ((w.actions[x.action]?).getD default).opcode x.operands) w
  have hstart : outcome (updateAction x.action fun a => { a with frame := i })
      { w with trace := notes } = (.ok (), w.entered vm m i x) := by
    rw [entered]
    simp only [hu]
    rfl
  have hperform : outcome (perform (runWithin n) x.action i x.operands) { w with trace := notes }
      = outcome (operate (runWithin n) x.action op operands) (w.entered vm m i x) := by
    rw [perform, bind_ok _ hstart, bind_ok _ (outcome_actionInfo _ _)]
    simp only [action, hop', hspread, pure_bind]
  rw [iteration, hx, pure_bind, bind_ok w (outcome_methodInfo w m),
    bind_ok w (outcome_actionInfo w x.action), method, action, bind_ok w hu,
    outcome_bind, hperform, ← outcome_bind]

theorem outcome_iteration (hx : instructionAt (w.frame i) = pure x)
    (hop : (w.action x.action).operation? = some op) (hspread : spread x.operands = pure operands)
    (hdo : outcome (operate (runWithin n) x.action op operands) (w.entered vm m i x) = (.ok (), v)) :
    ∃ notes, outcome (iteration n vm m i (w.frame i)) w = (.ok (), { v with
      frames := v.frames.modify i fun f => { f with position := f.position + 1 }, trace := notes }) := by
  obtain ⟨notes, hv⟩ := outcome_note vm (.after (w.method m).signature (w.action x.action).opcode)
      { v with frames := v.frames.modify i fun f => { f with position := f.position + 1 } }
  refine ⟨notes, ?_⟩
  rw [outcome_iteration_entered hx hop hspread, bind_ok _ hdo]
  exact hv

/-! ### Runs -/

/-- Rounds of the loop that runs a method, from a bound and a store to what is left of the bound and a later
store. -/
inductive Runs (vm m i : Nat) : Nat → Store → Nat → Store → Prop
  | refl (n : Nat) (w : Store) : Runs vm m i n w n w
  | round {n k : Nat} {w w' w'' : Store} : (w.frame i).finished = false →
      outcome (iteration n vm m i (w.frame i)) w = (.ok (), w') → Runs vm m i n w' k w'' →
      Runs vm m i (n + 1) w k w''

theorem Runs.code_eq (h : Runs vm m i n w k w') : (w'.frame i).code = (w.frame i).code := by
  induction h with
  | refl n w => rfl
  | @round n k w w' w'' _ hround _ ih =>
    have hcode := KeepsCode.iteration n vm m i (w.frame i) w trivial
    exact ih.trans (hcode.leads_of hround i)

theorem Runs.outcome_runWithin (h : Runs vm m i n w k w') :
    outcome (runWithin n vm m i) w = outcome (runWithin k vm m i) w' := by
  induction h with
  | refl n w => rfl
  | @round n k w w' w'' hrunning hround _ ih =>
    rw [runWithin_succ, bind_ok w (outcome_frameInfo w i), if_neg (by simp [hrunning]), bind_ok w hround]
    exact ih

/-- A store with the first actions, a frame with these registers, and these lists. -/
def holding (registers : Table String Value) (lists : Array (List Value)) : Store :=
  { initial with lists, frames := #[{ Frame.empty with registers }] }

end Dalvik.Store
