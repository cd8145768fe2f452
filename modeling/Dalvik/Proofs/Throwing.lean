import Dalvik.Proofs.Arguments
import Dalvik.Proofs.Forms

/-!
# Throwing

A throw notes an error for the frame of its method and does nothing else: the run goes on with the next instruction. If
there is none, the call ends in a fault about that, and the error is lost. The error is raised if the run comes to a
return while it is still noted (`Store.throw_goes_on`).
-/

namespace Dalvik.Store

variable {w u : Store} {m j vm k bound : Nat} {n : Int} {inst v : Value} {values : List Value}

/-- The instruction at hand of a method that runs throws a value. -/
structure Throws (u : Store) (j : Nat) (v : Value) : Prop where
  running : (u.frame j).finished = false
  atHand : ∃ x r, instructionAt (u.frame j) = pure x ∧ (u.action x.action).operation? = some .throwError ∧
    x.operands = .texts [r] ∧ u.registerIn? j (.text r) = some v

/-- A store behind a throw: there is a new error, which the frame of the method notes. Beside that only notes are taken, and
the action is started. -/
def BehindThrow (u : Store) (j : Nat) (v : Value) (u' : Store) : Prop :=
  u' = { u with
    errors := u.errors.push ⟨"RuntimeError", some v⟩
    frames := u.frames.modify j fun f => { f with error := .error u.errors.size, position := f.position + 1 }
    actions := u'.actions
    trace := u'.trace }

theorem BehindThrow.frame_eq {u' : Store} (h : BehindThrow u j v u') (hj : j < u.frames.size) :
    u'.frame j = { u.frame j with error := .error u.errors.size, position := (u.frame j).position + 1 } := by
  have hframes : u'.frames = u.frames.modify j fun f =>
      { f with error := .error u.errors.size, position := f.position + 1 } := congrArg frames h
  exact frame_modify_self hframes hj

theorem Throws.round (h : u.Throws j v) (vm m k : Nat) :
    ∃ u', BehindThrow u j v u' ∧ outcome (iteration k vm m j (u.frame j)) u = (.ok (), u') := by
  obtain ⟨x, r, hx, hop, hoperands, hr⟩ := h.atHand
  obtain ⟨notes, hentered⟩ := entered_eq u vm m j x
  have hspread : spread x.operands = pure [.text r] := by
    rw [hoperands]
    rfl
  have hframe : ((u.entered vm m j x).action x.action).frame = j := (action_entered vm m j hop).2
  have hregister : (u.entered vm m j x).registerIn? j (.text r) = some v := by
    rw [hentered]
    exact hr
  have hdo : outcome (operate (runWithin k) x.action .throwError [.text r]) (u.entered vm m j x) = (.ok (),
      { u.started x.action j with
        errors := u.errors.push ⟨"RuntimeError", some v⟩
        frames := u.frames.modify j fun f => { f with error := .error u.errors.size }
        trace := notes }) := by
    have hnew (s : Store) : outcome (newError "RuntimeError" (some v)) s =
        (.ok (.error s.errors.size), { s with errors := s.errors.push ⟨"RuntimeError", some v⟩ }) := rfl
    have hcurrent (es : Array ErrorInfo) : outcome (currentFrame x.action) { u.entered vm m j x with errors := es } =
        (.ok j, { u.entered vm m j x with errors := es }) := congrArg (fun i => (Except.ok i, _)) hframe
    rw [operate, bind_ok _ (outcome_registerIn hframe hregister), bind_ok _ (hnew _), bind_ok _ (hcurrent _), hentered]
    rfl
  obtain ⟨notes', hround⟩ := outcome_iteration hx hop hspread hdo
  refine ⟨_, ?_, hround⟩
  simp only [BehindThrow, modify_modify]
  rfl

theorem instructionAt_cases (f : Frame) : instructionAt f = throw .noElement ∨ ∃ y, instructionAt f = pure y := by
  unfold instructionAt
  generalize (if f.position < 0 then f.position + f.instructions.size else f.position) = p
  dsimp only
  split
  · exact .inl rfl
  · split
    · exact .inr ⟨_, rfl⟩
    · exact .inl rfl

theorem outcome_callOn_entered (h : w.Callable m j vm n) (hinst : w.isStatic m = true ∨ ∃ o, inst = .object o)
    (hcount : values.length = w.checkedTypes.length) (haccept : ∀ p ∈ w.checkedTypes.zip values, w.Accepts p.1 p.2)
    (run : Runner) : outcome (callOn run vm (.method m) ⟨inst, values, []⟩) w =
      outcome (conclude run vm m j) (w.ready m j n inst values) := by
  rw [outcome_callOn h hinst, bind_ok _ (outcome_bindArguments (w := w.ready m j n inst []) hcount haccept _ j inst)]
  simp only [ready, modify_modify]
  rfl

/-- A throw does not end the call that it is reached in. The run goes on with the next instruction in a store that differs
from the one at the throw by the error alone; without a next instruction the call ends in a fault about that. Only a
run that comes to a return with the error still noted ends the call with it. -/
theorem throw_goes_on (h : w.Callable m j vm n) (hinst : w.isStatic m = true ∨ ∃ o, inst = .object o)
    (hcount : values.length = w.checkedTypes.length) (haccept : ∀ p ∈ w.checkedTypes.zip values, w.Accepts p.1 p.2)
    (hruns : Runs vm m j bound (w.ready m j n inst values) (k + 2) u) (hthrows : u.Throws j v) :
    let call := outcome (callOn (runWithin bound) vm (.method m) ⟨inst, values, []⟩) w
    ∃ u', BehindThrow u j v u' ∧ ((∃ y, instructionAt (u'.frame j) = pure y ∧
          call = outcome (do iteration k vm m j (u'.frame j); conclude (runWithin k) vm m j) u') ∨
        call = (.error .noElement, u') ∧ instructionAt (u'.frame j) = throw .noElement) ∧
      ∀ t, outcome (runWithin (k + 1) vm m j) u' = (.ok (), t) → (t.frame j).error = .error u.errors.size →
        call = outcome (raiseValue (.error u.errors.size)) t := by
  intro call
  obtain ⟨u', hbehind, hround⟩ := hthrows.round vm m (k + 1)
  have hcall : call = outcome (conclude (runWithin (k + 1)) vm m j) u' := by
    have hrest := (Runs.round hthrows.running hround (.refl (k + 1) u')).outcome_runWithin
    change outcome _ w = _
    rw [outcome_callOn_entered h hinst hcount haccept, conclude, conclude, outcome_bind, outcome_bind,
      hruns.outcome_runWithin, hrest]
  have hrunning : (u'.frame j).finished = false := by
    obtain ⟨-, r, -, -, -, hr⟩ := hthrows.atHand
    rw [hbehind.frame_eq (lt_size_of_registerIn? hr)]
    exact hthrows.running
  have hnext : call = outcome (do iteration k vm m j (u'.frame j); conclude (runWithin k) vm m j) u' := by
    rw [hcall, conclude, runWithin_succ, bind_assoc, bind_ok _ (outcome_frameInfo u' j), if_neg (by simp [hrunning]),
      bind_assoc]
    rfl
  refine ⟨u', hbehind, ?_, fun t ht herror => ?_⟩
  · rcases instructionAt_cases (u'.frame j) with hnone | ⟨y, hy⟩
    · refine .inr ⟨?_, hnone⟩
      rw [hnext, iteration, hnone]
      rfl
    · exact .inl ⟨y, hy, hnext⟩
  · have hholds : outcome (holds (.error u.errors.size)) t = (.ok true, t) := rfl
    rw [hcall, conclude, bind_ok _ ht, bind_ok _ (outcome_frameInfo t j), herror, bind_ok _ hholds, if_pos rfl]
    simp [raiseValue]

/-- The store with a machine and a class whose method ends with a throw. -/
@[irreducible] def throwerStore : Store :=
  (outcome (load 0 (.text ".class public LT;\n.method public static a()V\n.locals 1\nthrow v0\n.end method\n") true)
    ⟨⟨[]⟩, .start, [], (outcome (newVm [] false false) .initial).2⟩).2.world

/-- The register that operands consist of. -/
def soleRegister? : Datum → Option String
  | .list [.text r] => some r
  | _ => none

theorem eq_of_soleRegister? {d : Datum} {r : String} (h : soleRegister? d = some r) : d = .texts [r] := by
  unfold soleRegister? at h
  split at h
  · cases h
    rfl
  · cases h

/-- A throw that is the last instruction: the call ends in a fault about the next one. -/
theorem throw_goes_on_last :
    throwerStore.Callable 0 0 0 1 ∧ (throwerStore.ready 0 0 1 .null []).Throws 0 .null ∧
      ∃ u', BehindThrow (throwerStore.ready 0 0 1 .null []) 0 .null u' ∧
        outcome (callOn (runWithin 9) 0 (.method 0) ⟨.null, [], []⟩) throwerStore = (.error .noElement, u') := by
  obtain ⟨hmachine, hconcrete, hlocals, hframe, hsize, hstatic, htypes, hone⟩ :
      (throwerStore.method 0).vm? = some 0 ∧
      Access.meets (throwerStore.method 0).modifiers Access.abstract = false ∧
      (throwerStore.method 0).locals? = some 1 ∧
      throwerStore.frameTable.get? (throwerStore.method 0).type.text = some 0 ∧ 0 < throwerStore.frames.size ∧
      throwerStore.isStatic 0 = true ∧ throwerStore.checkedTypes.length = 0 ∧
      (throwerStore.frame 0).instructions.size = 1 := by
    decide +kernel
  have hcallable : throwerStore.Callable 0 0 0 1 := ⟨hmachine, hconcrete, hlocals, hframe, hsize⟩
  have hready := frame_ready hsize 0 1 .null []
  have hthrows : (throwerStore.ready 0 0 1 .null []).Throws 0 .null := by
    obtain ⟨x, hx⟩ : ∃ x, (throwerStore.frame 0).instructions[0]? = some x :=
      ⟨_, Array.getElem?_eq_getElem (by omega)⟩
    obtain ⟨hop, hoperands⟩ : ((throwerStore.frame 0).instructions[0]?.bind fun x =>
          (throwerStore.action x.action).operation?) = some .throwError ∧
        ((throwerStore.frame 0).instructions[0]?.bind fun x => soleRegister? x.operands) = some "v0" := by
      decide +kernel
    rw [hx, Option.bind_some] at hop hoperands
    refine ⟨by rw [hready]; rfl, x, "v0", ?_, hop, eq_of_soleRegister? hoperands, ?_⟩
    · rw [hready]
      exact instructionAt_eq rfl hx
    · rw [registerIn?, hready, hstatic]
      rfl
  have hcount : ([] : List Value).length = throwerStore.checkedTypes.length := htypes.symm
  obtain ⟨u', hbehind, hcall, -⟩ := throw_goes_on hcallable (.inl hstatic) hcount (by simp) (.refl 9 _) hthrows
  refine ⟨hcallable, hthrows, u', hbehind, ?_⟩
  obtain ⟨y, hy, -⟩ | ⟨hfault, -⟩ := hcall
  · have hposition : (u'.frame 0).position = (1 : Nat) ∧ (u'.frame 0).instructions.size = 1 := by
      rw [hbehind.frame_eq (by simpa [ready] using hsize), hready]
      exact ⟨rfl, hone⟩
    have hnone := outcome_instructionAt hposition.1 u'
    rw [hy, List.getElem?_eq_none (by simp [hposition.2])] at hnone
    cases hnone
  · exact hfault

/-- Seven is thrown at the end of a method: the call ends in a fault about a missing instruction. -/
theorem seven_thrown_last :
    (outcome (callLoaded (".class public LT;\n.method public static a()V\n.locals 1\nconst/4 v0, 0x7\nthrow v0\n" ++
      ".end method\n") "a()V") ⟨⟨[]⟩, .start, [], .initial⟩).1 = .error .noElement := by
  decide +kernel

end Dalvik.Store
