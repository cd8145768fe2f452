import Dalvik.Machine.Loader
import Dalvik.Proofs.Rounds

/-!
# Calls and their results

There is one call action for all calls, and it remembers one frame: that for which it was started last. A
call stores its result there once the method that it runs has ended, and that method may have started the
action for frames of its own. So the result reaches the caller exactly if the action still stands at the
caller's frame then (`Store.invoke_delivers`). A method that calls nothing and makes no objects changes no
frame but its own and never starts the call action (`Store.callOn_spares`), and its result does reach the
caller.
-/

namespace Dalvik

open Contract LoadNode

variable {s t : Store} {c j : Nat} {x : Instruction}

/-- Whether an operation runs methods. -/
def Operation.runsMethods : Operation → Bool
  | .invoke | .newInstance => true
  | _ => false

theorem Frame.instructions_eq_of_code {f g : Frame} (h : f.code = g.code) : f.instructions = g.instructions := by
  have heq := congrArg Frame.instructions h
  exact heq

namespace Store

/-! ### Methods that are found by signature -/

/-- The methods of a name, or the method of a signature, in a table of methods. -/
def methodIn? (w : Store) (signature : String) : Table String Nat → Option Value
  | [] => none
  | (name, i) :: rest =>
    if name == signature then some (.overloads i)
    else
      match ((w.overloads[i]?).getD default).methods.find? fun m => (w.method m).signature == signature with
      | some m => some (.method m)
      | none => methodIn? w signature rest

/-- The methods of a name, or the method of a signature, in a class. -/
def methodOf? (w : Store) (c : Nat) (signature : String) : Option Value :=
  w.methodIn? signature ((w.classes[c]?).getD default).methods

theorem methodOf?_congr (hclasses : t.classes = s.classes) (hoverloads : t.overloads = s.overloads)
    (hmethods : t.methods = s.methods) (c : Nat) (signature : String) :
    t.methodOf? c signature = s.methodOf? c signature := by
  have hin : ∀ table, t.methodIn? signature table = s.methodIn? signature table := by
    intro table
    induction table with
    | nil => rfl
    | cons entry rest ih => simp only [methodIn?, method, hoverloads, hmethods, ih]
  rw [methodOf?, methodOf?, hclasses, hin]

theorem outcome_withSignature (w : Store) (signature : String) (ms : List Nat) : outcome (withSignature signature ms) w
      = (.ok (ms.find? fun m => (w.method m).signature == signature), w) := by
  induction ms with
  | nil => rfl
  | cons m ms ih =>
    rw [withSignature, bind_ok w (outcome_methodInfo w m), outcome_ite, ih, List.find?_cons]
    cases (w.method m).signature == signature <;> rfl

theorem outcome_methodIn (w : Store) (signature : String) (t : Table String Nat) :
    outcome (methodIn signature t) w = (.ok (w.methodIn? signature t), w) := by
  induction t with
  | nil => rfl
  | cons entry rest ih =>
    obtain ⟨name, i⟩ := entry
    rw [methodIn, methodIn?]
    split
    · rfl
    · have hinfo : outcome (overloadInfo i) w = (.ok ((w.overloads[i]?).getD default), w) := rfl
      rw [bind_ok w hinfo, bind_ok w (outcome_withSignature w _ _)]
      cases ((w.overloads[i]?).getD default).methods.find? fun m =>
          (w.method m).signature == signature with
      | none => exact ih
      | some m => rfl

theorem outcome_methodOf {w : Store} {signature : String} {v : Value} (h : w.methodOf? c signature = some v) :
    outcome (methodOf c signature) w = (.ok v, w) := by
  have hinfo : outcome (classInfo c) w = (.ok ((w.classes[c]?).getD default), w) := rfl
  rw [methodOf, bind_ok w hinfo, bind_ok w (outcome_methodIn w _ _)]
  rw [methodOf?] at h
  rw [h]
  rfl

/-! ### The call instruction -/

/-- A call without arguments on the object in a register runs the method that the class has under the
signature, and stores the result in the frame that the action stands at afterwards. -/
theorem outcome_operate_invoke {u w : Store} {run : Runner} {a i o m vm : Nat} {r owner signature : String} {v : Value}
    (ha : (u.action a).frame = i) (hr : (u.frame i).registers.get? r = some (.object o))
    (hvm : (u.frame i).vm? = some vm) (howner : Intrinsic.all.lookup owner = none)
    (hclass : u.classTable.get? owner = some c) (hmethod : u.methodOf? c signature = some (.method m))
    (hcall : outcome (callOn run vm (.method m) ⟨.object o, [], []⟩) u = (.ok v, w)) :
    outcome (operate run a .invoke [.text "virtual", .texts [r], .text owner, .text signature]) u = (.ok (), { w with
          frames := w.frames.modify (w.action a).frame fun f => { f with callResult := v } }) := by
  subst ha
  have hregister : outcome (register a (.text r)) u = (.ok (.object o), u) := by
    rw [register, bind_ok u (outcome_currentFrame u a), bind_ok u (outcome_frameInfo u _)]
    simp only [Datum.text?, Option.bind_some, hr]
    rfl
  have hvalues : outcome ([Datum.text r].mapM (register a)) u = (.ok [.object o], u) := by
    rw [List.mapM_cons, bind_ok u hregister]
    rfl
  have hmachine : outcome (currentVm a) u = (.ok vm, u) := by
    rw [currentVm, bind_ok u (outcome_currentFrame u a), bind_ok u (outcome_frameInfo u _), hvm]
    rfl
  have hnamed : outcome (classNamed owner) u = (.ok c, u) := by
    rw [classNamed, bind_ok u (outcome_get u), hclass]
    rfl
  have hoperand : outcome (classOperand a (.text owner)) u = (.ok c, u) := by
    unfold classOperand
    rw [bind_ok u hmachine]
    exact hnamed
  have hobject : outcome (objectInfo o) u = (.ok ((u.objects[o]?).getD default), u) := rfl
  have hinfo : ∀ d, outcome (classInfo d) u = (.ok ((u.classes[d]?).getD default), u) := fun _ => rfl
  -- whichever way the class is found, the method is run and its result stored
  have hrest : outcome (do
      let target ← methodOf c signature
      let vm ← currentVm a
      let result ← callOn run vm target ⟨.object o, [], []⟩
      updateFrame (← currentFrame a) fun f => { f with callResult := result }) u
      = (.ok (), { w with
          frames := w.frames.modify (w.action a).frame fun f => { f with callResult := v } }) := by
    rw [bind_ok u (outcome_methodOf hmethod), bind_ok u hmachine,
      bind_ok u hcall, bind_ok w (outcome_currentFrame w a), outcome_updateFrame]
  rw [operate, invoke, if_pos (by decide)]
  simp only [Datum.text?, Option.bind_some, howner]
  rw [invokeMethod]
  simp only [Datum.items?, Datum.texts, List.map_cons, List.map_nil, pure_bind]
  rw [bind_ok u hvalues, if_neg (by decide)]
  rw [bind_ok u hobject, bind_ok u (hinfo _)]
  split
  · rename_i s _ hs
    obtain rfl : owner = s := by simpa [Datum.text?] using hs
    split
    · rw [bind_ok u hmachine, bind_ok u hnamed]
      exact hrest
    · rw [bind_ok u hoperand]
      exact hrest
  · rw [bind_ok u hoperand]
    exact hrest

theorem outcome_operate_moveResult (u : Store) (run : Runner) (a : Nat) (name : String) :
    outcome (operate run a .moveResult [.text name]) u = (.ok (), { u with
      frames := u.frames.modify (u.action a).frame fun f => { f with
        registers := f.registers.set name (u.frame (u.action a).frame).callResult } }) := by
  rfl

/-! ### Methods that call nothing -/

/-- No instruction of a frame runs methods. -/
def CallFree (w : Store) (j : Nat) : Bool :=
  (w.frame j).instructions.all fun x => !(w.action x.action).operation?.any Operation.runsMethods

/-- The contract of steps that change, of all frames, the run of one only, and start no action. -/
def ownContract (a j : Nat) : Contract Store where
  holds s := (s.action a).frame = j
  leads s t := t.actions = s.actions ∧ (t.frame j).code = (s.frame j).code ∧ ∀ k, k ≠ j → t.frame k = s.frame k
  admits _ _ := True
  refl _ := ⟨rfl, rfl, fun _ _ => rfl⟩
  trans h h' := ⟨h'.1.trans h.1, h'.2.1.trans h.2.1, fun k hk => (h'.2.2 k hk).trans (h.2.2 k hk)⟩

/-- The contract of what a method without calls does: only the run of its own frame changes, and the call
action stays where it stands. -/
def leafContract (j : Nat) : Contract Store where
  holds s := s.CallFree j = true
  leads s t := (∀ k, k ≠ j → t.frame k = s.frame k) ∧ (t.frame j).code = (s.frame j).code ∧
    ∀ b, (t.action b).operation? = (s.action b).operation? ∧
      ((s.action b).operation? = some .invoke → (t.action b).frame = (s.action b).frame)
  admits _ _ := True
  refl _ := ⟨fun _ _ => rfl, rfl, fun _ => ⟨rfl, fun _ => rfl⟩⟩
  trans h h' := ⟨fun k hk => (h'.1 k hk).trans (h.1 k hk), h'.2.1.trans h.2.1, fun b =>
    ⟨(h'.2.2 b).1.trans (h.2.2 b).1, fun hb =>
      ((h'.2.2 b).2 ((h.2.2 b).1.trans hb)).trans ((h.2.2 b).2 hb)⟩⟩

theorem callFree_congr (hcode : (t.frame j).code = (s.frame j).code)
    (hop : ∀ b, (t.action b).operation? = (s.action b).operation?) : t.CallFree j = s.CallFree j := by
  have hinstructions := Frame.instructions_eq_of_code hcode
  simp only [CallFree, hinstructions, hop]

theorem leafContract_keptAt {α : Type} {x : Act α} (hs : s.CallFree j = true)
    (hx : (leafContract j).leads s (outcome x s).2) : (leafContract j).KeptAt x s :=
  ⟨(callFree_congr hx.2.1 fun b => (hx.2.2 b).1).trans hs, hx, fun _ _ => trivial⟩

theorem leafContract_frees (j : Nat) : Frees (leafContract j) j where
  quiet hx s hs := by
    obtain ⟨hframes, hactions, -⟩ := (hx s trivial).leads
    refine leafContract_keptAt hs ⟨fun k _ => ?_, ?_, fun b => ?_⟩
    · rw [frame, hframes, frame]
    · rw [frame, hframes, frame]
    · rw [action, hactions]
      exact ⟨rfl, fun _ => rfl⟩
  frame hg s hs := by
    refine leafContract_keptAt hs ⟨fun k hk => ?_, ?_, fun _ => ⟨rfl, fun _ => rfl⟩⟩
    · exact frame_modify_ne rfl (Ne.symm hk)
    · exact (KeepsCode.updateFrame j hg s trivial).leads j

theorem ownContract_serves (a j : Nat) : Serves (ownContract a j) a where
  quiet hx s hs := by
    obtain ⟨hframes, hactions, -⟩ := (hx s trivial).leads
    refine ⟨?_, ⟨hactions, ?_, fun k _ => ?_⟩, fun _ _ => trivial⟩
    · show (action _ a).frame = j
      rw [action, hactions]
      exact hs
    · rw [frame, hframes, frame]
    · rw [frame, hframes, frame]
  current {s g} hs hg := by
    obtain rfl : (s.action a).frame = j := hs
    refine .of_ok (outcome_updateFrame s _ g) rfl ⟨rfl, ?_, fun k hk => ?_⟩
    · exact (KeepsCode.updateFrame _ hg s trivial).leads _
    · exact frame_modify_ne rfl (Ne.symm hk)

theorem perform_spares {run : Runner} {a : Nat} {operands : Datum} (hs : s.CallFree j = true)
    (ha : (s.action a).operation?.any Operation.runsMethods = false) :
    (leafContract j).KeptAt (perform run a j operands) s := by
  have hleads : (leafContract j).leads s (s.started a j) := by
    refine ⟨fun _ _ => rfl, rfl, fun b => ⟨operation_started s a j b, fun hb => ?_⟩⟩
    rw [action_started, if_neg]
    rintro ⟨rfl, -⟩
    rw [hb] at ha
    cases ha
  have hfree : (s.started a j).CallFree j = true :=
    (callFree_congr (s := s) (t := s.started a j) rfl (operation_started s a j)).trans hs
  refine keptAt_bind_of_ok (outcome_start s a j) hleads ?_
  refine keptAt_bind_of_ok (outcome_actionInfo _ a) ((leafContract j).refl _) ?_
  split
  · exact keptAt_pure hfree _
  · rename_i op hop
    have hspread := (Blind.spread (q := true) operands).quiet
    refine keptAt_bind ((leafContract_frees j).quiet hspread _ hfree) fun xs t e ht _ => ?_
    have hop' : (s.action a).operation? = some op := (operation_started s a j a).symm.trans hop
    have hactions : t.action a = (s.started a j).action a := by
      rw [action, (hspread _ trivial).leads_of e |>.2.1, action]
    have hcurrent : (t.action a).frame = j := by
      have hlt : a < s.actions.size := by
        by_contra hlarge
        rw [action, Array.getElem?_eq_none (by omega)] at hop'
        cases hop'
      rw [hactions, action_started, if_pos ⟨rfl, hlt⟩]
    rw [hop'] at ha
    have hown : (ownContract a j).KeptAt (operate run a op xs) t :=
      (ownContract_serves a j).serving.operate (by rintro rfl; cases ha) (by rintro rfl; cases ha) t hcurrent
    refine leafContract_keptAt ht ⟨hown.leads.2.2, hown.leads.2.1, fun b => ?_⟩
    rw [action, hown.leads.1]
    exact ⟨rfl, fun _ => rfl⟩

theorem iteration_spares {n vm m : Nat} (hs : s.CallFree j = true) :
    (leafContract j).KeptAt (iteration n vm m j (s.frame j)) s := by
  have freeing := (leafContract_frees j).freeing
  refine keptAt_bind (freeing.blind (.instructionAt _) s hs) fun x t e _ _ => ?_
  obtain ⟨hx, rfl⟩ := mem_of_instructionAt e
  have hplain : (s.action x.action).operation?.any Operation.runsMethods = false := by
    simpa using Array.all_eq_true_iff_forall_mem.mp hs x hx
  refine keptAt_bind_of_ok (outcome_methodInfo s m) ((leafContract j).refl s) ?_
  refine keptAt_bind_of_ok (outcome_actionInfo s x.action) ((leafContract j).refl s) ?_
  obtain ⟨notes, hnotes⟩ := outcome_note vm (.before (s.method m).signature (s.action x.action).opcode x.operands) s
  refine keptAt_bind_of_ok hnotes ((leafContract j).refl s) ?_
  refine keptAt_bind (perform_spares hs hplain) fun _ t _ ht _ => ?_
  exact freeing.update_bind (fun _ => by rfl) (fun _ => freeing.blind (.note vm _)) t ht

theorem runWithin_spares (n vm m j : Nat) : (leafContract j).Kept (runWithin n vm m j) := by
  induction n with
  | zero => exact (leafContract_frees j).freeing.of_throw _
  | succ n ih =>
    intro s hs
    rw [runWithin_succ]
    refine keptAt_bind_of_ok (outcome_frameInfo s j) ((leafContract j).refl s) ?_
    by_cases hfinished : (s.frame j).finished = true
    · rw [if_pos hfinished]
      exact keptAt_pure hs _
    · rw [if_neg hfinished]
      exact keptAt_bind (iteration_spares hs) fun _ t _ ht _ => ih t ht

theorem callOn_spares {n vm m : Nat} {args : Arguments} (hj : s.frameTable.get? (s.method m).type.text = some j)
    (hs : s.CallFree j = true) :
    (leafContract j).KeptAt (callOn (runWithin n) vm (.method m) args) s := by
  refine keptAt_bind_of_ok (outcome_get s) ((leafContract j).refl s) ?_
  refine keptAt_bind_of_ok (outcome_methodInfo s m) ((leafContract j).refl s) ?_
  rw [hj, pure_bind]
  have freeing := (leafContract_frees j).freeing
  exact freeing.update_bind (g := Frame.reset) (fun _ => rfl)
    (fun _ => freeing.call (runWithin_spares n vm m j) args) s hs

/-! ### The result of a call -/

/-- What actions do is left alone by every run. -/
def actionContract : Contract Store where
  holds _ := True
  leads s t := ∀ b, (t.action b).operation? = (s.action b).operation?
  admits _ _ := True
  refl _ _ := rfl
  trans h h' b := (h' b).trans (h b)

theorem actionContract_sustains : Sustains actionContract where
  quiet hx s _ := by
    refine ⟨trivial, fun b => ?_, fun _ _ => trivial⟩
    rw [action, (hx s trivial).leads.2.1, action]
  frame _ _ _ s hs := .of_ok (outcome_updateFrame s _ _) hs fun _ => rfl
  start a i s hs := .of_ok (outcome_start s a i) hs (operation_started s a i)

/-- The instruction of a call without arguments on the object in a register. -/
def callInstruction (a : Nat) (r owner signature : String) : Instruction :=
  ⟨a, .list [.text "virtual", .texts [r], .text owner, .text signature]⟩

/-- The method that runs in a frame is about to call a method on an object. -/
structure Calling (w : Store) (i p a : Nat) (r cls signature : String) (vm o m : Nat) : Prop where
  running : (w.frame i).finished = false
  position : (w.frame i).position = p
  instruction : (w.frame i).instructions[p]? = some (callInstruction a r cls signature)
  operation : (w.action a).operation? = some .invoke
  receiver : (w.frame i).registers.get? r = some (.object o)
  machine : (w.frame i).vm? = some vm
  program : Intrinsic.all.lookup cls = none
  method : ∃ c, w.classTable.get? cls = some c ∧ w.methodOf? c signature = some (.method m)

/-- The instruction at a position fetches the result of the last call into a register. -/
def Fetching (w : Store) (i p : Nat) (x : String) : Prop :=
  ∃ b, (w.frame i).instructions[p]? = some ⟨b, .texts [x]⟩ ∧ (w.action b).operation? = some .moveResult

section

variable {w w₁ : Store} {vm mc i p a vm' o m n : Nat} {r cls signature : String} {v : Value}

/-- The round with the call: the result is stored in the frame that the call action stands at when the
method has ended. -/
theorem Calling.outcome_iteration (h : w.Calling i p a r cls signature vm' o m)
    (hcall : outcome (callOn (runWithin n) vm' (.method m) ⟨.object o, [], []⟩)
      (w.entered vm mc i (callInstruction a r cls signature)) = (.ok v, w₁)) :
    ∃ notes, outcome (iteration n vm mc i (w.frame i)) w = (.ok (), { w₁ with
      frames := (w₁.frames.modify (w₁.action a).frame fun f => { f with callResult := v }).modify i
        fun f => { f with position := f.position + 1 }
      trace := notes }) := by
  obtain ⟨c, hclass, hmethod⟩ := h.method
  obtain ⟨-, hcurrent⟩ := action_entered (x := callInstruction a r cls signature) vm mc i h.operation
  have hframe := frame_entered w vm mc i (callInstruction a r cls signature) i
  obtain ⟨notes, hentered⟩ := entered_eq w vm mc i (callInstruction a r cls signature)
  have hclass' : (w.entered vm mc i (callInstruction a r cls signature)).classTable.get? cls = some c := by
    rw [hentered]
    exact hclass
  have hmethod' : (w.entered vm mc i (callInstruction a r cls signature)).methodOf? c signature = some (.method m) := by
    rw [← hmethod, hentered]
    apply methodOf?_congr <;> rfl
  have hdo := outcome_operate_invoke hcurrent (by rw [hframe]; exact h.receiver)
    (by rw [hframe]; exact h.machine) h.program hclass' hmethod' hcall
  exact Store.outcome_iteration (instructionAt_eq h.position h.instruction) h.operation rfl hdo

theorem outcome_iteration_fetch {x : String} (hp : (w.frame i).position = p) (hx : w.Fetching i p x) :
    ∃ w', outcome (iteration n vm mc i (w.frame i)) w = (.ok (), w') ∧ w'.frame i = { w.frame i with
      registers := (w.frame i).registers.set x (w.frame i).callResult
      position := (w.frame i).position + 1 } := by
  obtain ⟨b, hinstruction, hop⟩ := hx
  obtain ⟨-, hcurrent⟩ := action_entered (x := ⟨b, .texts [x]⟩) vm mc i hop
  have hframes := frames_entered w vm mc i ⟨b, .texts [x]⟩
  obtain ⟨notes, hround⟩ := Store.outcome_iteration (instructionAt_eq hp hinstruction) hop rfl
    (outcome_operate_moveResult (w.entered vm mc i ⟨b, .texts [x]⟩) (runWithin n) b x)
  refine ⟨_, hround, ?_⟩
  have hi := lt_size_of_instruction hinstruction
  have hcurrent' : ((w.entered vm mc i ⟨b, .texts [x]⟩).action b).frame = i := hcurrent
  simp [frame, hcurrent', hframes, hi, Array.getElem_modify]

/-- The result of a call without arguments. The method that runs in frame `i` calls a method on an object;
the called method ends with a value `v`, in a store `w₁`.

The call is over with one round, after which the value is the result of the last call in the frame that the
call action stands at in `w₁`: in frame `i` if the action was not started for other frames meanwhile, and
else not. If the action still stands at frame `i`, and the called method left that frame alone, the next
instruction fetches the value into its register, and nothing else of the frame changes but its position.
Both are so if the called method contains no instruction that runs methods. -/
theorem invoke_delivers {j : Nat} (h : w.Calling i p a r cls signature vm' o m)
    (hj : w.frameTable.get? (w.method m).type.text = some j)
    (hcall : outcome (callOn (runWithin (n + 1)) vm' (.method m) ⟨.object o, [], []⟩)
      (w.entered vm mc i (callInstruction a r cls signature)) = (.ok v, w₁)) :
    (∃ w₂, Runs vm mc i (n + 2) w (n + 1) w₂ ∧ w₂.frame i = { w₁.frame i with
      position := (w₁.frame i).position + 1
      callResult := if (w₁.action a).frame = i then v else (w₁.frame i).callResult }) ∧
    (∀ x, w.Fetching i (p + 1) x → w₁.frame i = w.frame i → (w₁.action a).frame = i →
      ∃ w₃, Runs vm mc i (n + 2) w n w₃ ∧ w₃.frame i = { w.frame i with
        registers := (w.frame i).registers.set x v
        position := p + 2
        callResult := v }) ∧
    (w.CallFree j = true → w₁.frame i = w.frame i ∧ (w₁.action a).frame = i) := by
  obtain ⟨notes, hround⟩ := h.outcome_iteration hcall
  have hframe := frame_entered w vm mc i (callInstruction a r cls signature)
  have hops := operation_entered w vm mc i (callInstruction a r cls signature)
  obtain ⟨hop, hcurrent⟩ := action_entered (x := callInstruction a r cls signature) vm mc i h.operation
  obtain ⟨notes', hentered⟩ := entered_eq w vm mc i (callInstruction a r cls signature)
  generalize w.entered vm mc i (callInstruction a r cls signature) = u at *
  -- the called method changes neither the code of the caller nor what actions do
  have hcode : (w₁.frame i).instructions = (w.frame i).instructions := by
    have hkept := codeContract_sustains.callOn (KeepsCode.runWithin (n + 1)) vm' (.method m)
      ⟨.object o, [], []⟩ u trivial
    rw [← hframe]
    exact Frame.instructions_eq_of_code (hkept.leads_of hcall i)
  have hops₁ : ∀ b, (w₁.action b).operation? = (w.action b).operation? := by
    intro b
    have hkept := actionContract_sustains.callOn (actionContract_sustains.runWithin (n + 1)) vm' (.method m)
      ⟨.object o, [], []⟩ u trivial
    exact (hkept.leads_of hcall b).trans (hops b)
  have hi : i < w₁.frames.size := lt_size_of_instruction (by rw [hcode]; exact h.instruction)
  -- the caller's frame after the round with the call
  have hafter : ∀ w₂ : Store, w₂.frames = (w₁.frames.modify (w₁.action a).frame fun f =>
      { f with callResult := v }).modify i (fun f => { f with position := f.position + 1 }) →
      w₂.frame i = { w₁.frame i with
        position := (w₁.frame i).position + 1
        callResult := if (w₁.action a).frame = i then v else (w₁.frame i).callResult } := by
    intro w₂ hw₂
    by_cases hk : (w₁.action a).frame = i
    · simp [frame, hw₂, hk, hi, Array.getElem_modify]
    · simp [frame, hw₂, hk, hi, Array.getElem_modify]
  refine ⟨⟨_, .round h.running hround (.refl _ _), hafter _ rfl⟩, ?_, ?_⟩
  · rintro x ⟨b, hinstruction, hb⟩ hsame hstands
    have hw₂ := hafter { w₁ with
      frames := (w₁.frames.modify (w₁.action a).frame fun f => { f with callResult := v }).modify i
        fun f => { f with position := f.position + 1 }
      trace := notes } rfl
    rw [hsame, if_pos hstands, h.position] at hw₂
    generalize hgen : ({ w₁ with
      frames := (w₁.frames.modify (w₁.action a).frame fun f => { f with callResult := v }).modify i
        fun f => { f with position := f.position + 1 }
      trace := notes } : Store) = w₂ at hround hw₂
    have hfetching : w₂.Fetching i (p + 1) x := by
      refine ⟨b, by rw [hw₂]; exact hinstruction, ?_⟩
      rw [← hgen]
      exact (hops₁ b).trans hb
    obtain ⟨w₃, hfetch, hw₃⟩ := outcome_iteration_fetch (by rw [hw₂]; rfl) hfetching
    refine ⟨w₃, .round h.running hround (.round (by rw [hw₂]; exact h.running) hfetch (.refl _ _)), ?_⟩
    rw [hw₃, hw₂]
    simp [Int.add_assoc]
  · intro hfree
    have hij : i ≠ j := by
      rintro rfl
      have hmem := Array.mem_of_getElem? h.instruction
      have hplain := Array.all_eq_true_iff_forall_mem.mp hfree _ hmem
      simp [callInstruction, h.operation, Operation.runsMethods] at hplain
    have hfree' : u.CallFree j = true := (callFree_congr (by rw [hframe]) hops).trans hfree
    have hj' : u.frameTable.get? (u.method m).type.text = some j := by
      rw [hentered]
      exact hj
    have hleads := (callOn_spares hj' hfree').leads_of hcall
    exact ⟨(hleads.1 i hij).trans (hframe i), ((hleads.2.2 a).2 hop).trans hcurrent⟩

end

/-- What a call without arguments on the object in a register says. -/
def callee? : Instruction → Option (Nat × String × String × String)
  | ⟨a, .list [.text "virtual", .list [.text r], .text cls, .text signature]⟩ => some (a, r, cls, signature)
  | _ => none

theorem eq_callInstruction {a : Nat} {r cls signature : String} (h : callee? x = some (a, r, cls, signature)) :
    x = callInstruction a r cls signature := by
  unfold callee? at h
  split at h
  · obtain ⟨rfl, rfl, rfl, rfl⟩ := h
    rfl
  · cases h

/-- The action and the register of an instruction with one register. -/
def unary? : Instruction → Option (Nat × String)
  | ⟨b, .list [.text x]⟩ => some (b, x)
  | _ => none

theorem eq_unary {b : Nat} {r : String} (h : unary? x = some (b, r)) : x = ⟨b, .texts [r]⟩ := by
  unfold unary? at h
  split at h
  · obtain ⟨rfl, rfl⟩ := h
    rfl
  · cases h

/-- One method ends with seven, and the other one with the result of the first. -/
def relaySource : String :=
  ".class public LT;\n.method public a()I\n.locals 1\nconst/4 v0, 7\nreturn v0\n.end method\n" ++
  ".method public b()I\n.locals 1\ninvoke-virtual \x7bp0\x7d, LT;->a()I\nmove-result v0\nreturn v0\n" ++
  ".end method\n"

/-- The two methods are loaded, there is an object, and the second method is about to be run on it. -/
@[irreducible] def relayStore : Store :=
  (outcome (do
    let vm ← reading (newVm [] false false)
    let c ← load vm (.text relaySource) true
    reading do
      let o ← newObject c
      updateFrame 1 fun f => { f with registers := [("v0", .null), ("p0", o)] })
    (⟨⟨[]⟩, .start, [], .initial⟩ : Session LoadNode Store)).2.world

/-- The second method calls the first one, which calls nothing: it gets the seven. -/
theorem invoke_delivers_seven :
    ∃ w₁ w₃, relayStore.Calling 1 0 (firstAction "invoke") "p0" "LT;" "a()I" 0 0 0 ∧
      outcome (callOn (runWithin 8) 0 (.method 0) ⟨.object 0, [], []⟩) (relayStore.entered 0 1 1
        (callInstruction (firstAction "invoke") "p0" "LT;" "a()I")) = (.ok (.int 7), w₁) ∧
      Runs 0 1 1 9 relayStore 7 w₃ ∧ (w₃.frame 1).registers.get? "v0" = some (.int 7) := by
  -- the store is computed once for all that is said about it
  obtain ⟨hrunning, hposition, hcallee, hunary, hop, hop', hregisters, hvm, hclass, hmethod, hframe, hfree,
      hresult⟩ : (relayStore.frame 1).finished = false ∧ (relayStore.frame 1).position = 0 ∧
      (relayStore.frame 1).instructions[0]?.bind callee?
        = some (firstAction "invoke", "p0", "LT;", "a()I") ∧
      (relayStore.frame 1).instructions[1]?.bind unary? = some (firstAction "move-result", "v0") ∧
      (relayStore.action (firstAction "invoke")).operation? = some .invoke ∧
      (relayStore.action (firstAction "move-result")).operation? = some .moveResult ∧
      (relayStore.frame 1).registers = [("v0", .null), ("p0", .object 0)] ∧
      (relayStore.frame 1).vm? = some 0 ∧ relayStore.classTable.get? "LT;" = some 0 ∧
      relayStore.methodOf? 0 "a()I" = some (.method 0) ∧
      relayStore.frameTable.get? (relayStore.method 0).type.text = some 0 ∧
      relayStore.CallFree 0 = true ∧
      (outcome (callOn (runWithin 8) 0 (.method 0) ⟨.object 0, [], []⟩) (relayStore.entered 0 1 1
        (callInstruction (firstAction "invoke") "p0" "LT;" "a()I"))).1.toOption
        = some (.int 7) := by
    decide +kernel
  have hcalling : relayStore.Calling 1 0 (firstAction "invoke") "p0" "LT;" "a()I" 0 0 0 := by
    obtain ⟨x, hx, hcall⟩ := Option.bind_eq_some_iff.mp hcallee
    refine ⟨hrunning, hposition, ?_, hop, ?_, hvm, by decide +kernel, 0, hclass, hmethod⟩
    · rw [hx, eq_callInstruction hcall]
    · rw [hregisters]
      decide
  have hfetching : relayStore.Fetching 1 1 "v0" := by
    obtain ⟨x, hx, hfetch⟩ := Option.bind_eq_some_iff.mp hunary
    exact ⟨firstAction "move-result", by rw [hx, eq_unary hfetch], hop'⟩
  rcases hcall : outcome (callOn (runWithin 8) 0 (.method 0) ⟨.object 0, [], []⟩) (relayStore.entered 0 1 1
    (callInstruction (firstAction "invoke") "p0" "LT;" "a()I")) with ⟨res, w₁⟩
  rw [hcall] at hresult
  obtain rfl : res = .ok (.int 7) := by
    cases res with
    | ok v => exact congrArg Except.ok (Option.some.inj hresult)
    | error f => cases hresult
  obtain ⟨-, hfetch, hleaf⟩ := @invoke_delivers relayStore w₁ 0 1 1 0 (firstAction "invoke") 0 0 0 7
    "p0" "LT;" "a()I" (.int 7) 0 hcalling hframe hcall
  obtain ⟨hsame, hstands⟩ := hleaf hfree
  obtain ⟨w₃, hruns, hw₃⟩ := hfetch "v0" hfetching hsame hstands
  refine ⟨w₁, w₃, hcalling, rfl, hruns, ?_⟩
  rw [hw₃, hregisters]
  decide

/-- Two methods are called in turn on a new object of a class that is loaded from a text. -/
def callBoth (text first second : String) : Read LoadNode Store (Value × Value) := do
  let vm ← reading (newVm [] false false)
  let c ← load vm (.text text) true
  reading do
    let o ← newObject c
    let x ← callValue runner (← methodOf c first) ⟨o, [], []⟩
    let y ← callValue runner (← methodOf c second) ⟨o, [], []⟩
    pure (x, y)

/-- The first method calls a built-in method and ends with seven. The second one calls the first and fetches
its result, but ends with nothing. -/
theorem invoke_loses_result :
    (outcome (callBoth (".class public LT;\n.method public a()I\n.locals 1\nconst/4 v0, 7\n" ++
      "invoke-virtual \x7bp0\x7d, Ljava/lang/Object;->hashCode()I\nreturn v0\n.end method\n" ++
      ".method public b()I\n.locals 1\ninvoke-virtual \x7bp0\x7d, LT;->a()I\nmove-result v0\n" ++
      "return v0\n.end method\n") "a()I" "b()I") ⟨⟨[]⟩, .start, [], .initial⟩).1.toOption
      = some (.int 7, .null) := by
  decide +kernel

end Store

end Dalvik
