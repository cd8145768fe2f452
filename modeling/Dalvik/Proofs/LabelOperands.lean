import Dalvik.Proofs.Landing
import Dalvik.Proofs.Reach

/-!
# Operands that name labels

In a source a label is written with a colon in front. A line that defines a label enters it without the colon, and so
does whatever is kept under the label in front of it (`Frame.Unmarked`, which holds of all frames of a store that can
be reached). A plain jump names its label without the colon as well, but its operand is the bare name, which is spread
into its characters when the instruction is performed. All other instructions keep their operands as they are
written. So a label is found only by plain jumps, and only if its name has one character; the main statement is
`Store.label_operands_missed`.
-/

namespace Dalvik

open Dalvik.Text Reader Datum String

variable {f : Frame} {g : Frame → Frame} {a : Nat} {l : String} {operands : List Datum} {t : Session LoadNode Store}
  {st : Slots LoadNode}

/-! ### Names without a colon -/

/-- A word that opens with a colon, as labels do in a source. -/
def Marked (l : String) : Prop :=
  l.toList.head? = some ':'

theorem not_marked_labelName (w : String) : ¬ Marked (labelName w) := by
  rw [Marked, labelName, trimStart, toList_ofList, dropStart]
  intro h
  have hnot := List.head?_dropWhile_not (· == ':') w.toList
  rw [h] at hnot
  simp at hnot

/-- Nothing that a frame keeps under a label is kept under a name that opens with a colon. -/
structure Frame.Unmarked (f : Frame) : Prop where
  labels : ∀ {l : String}, Marked l → f.labels.get? l = none
  arrays : ∀ {l : String}, Marked l → f.arrays.get? (some l) = none
  switches : ∀ {l : String}, Marked l → f.switches.get? (some l) = none
  lastLabel : ∀ {l : String}, f.lastLabel? = some l → ¬ Marked l

theorem Frame.unmarked_empty : Frame.empty.Unmarked :=
  ⟨fun _ => rfl, fun _ => rfl, fun _ => rfl, nofun⟩

theorem Frame.Unmarked.of_code {g : Frame} (h : f.Unmarked) (hcode : g.code = f.code) : g.Unmarked := by
  have hlabels : g.labels = f.labels :=
    show g.code.labels = f.code.labels by rw [hcode]
  have harrays : g.arrays = f.arrays :=
    show g.code.arrays = f.code.arrays by rw [hcode]
  have hswitches : g.switches = f.switches :=
    show g.code.switches = f.code.switches by rw [hcode]
  have hlast : g.lastLabel? = f.lastLabel? :=
    show g.code.lastLabel? = f.code.lastLabel? by rw [hcode]
  exact ⟨fun hl => hlabels ▸ h.labels hl, fun hl => harrays ▸ h.arrays hl, fun hl => hswitches ▸ h.switches hl,
    fun hl => h.lastLabel (hlast ▸ hl)⟩

theorem Frame.Unmarked.entry (h : f.Unmarked) (hg : Frame.Entry g) : (g f).Unmarked := by
  have hne {l : String} (hl : Marked l) : some l ≠ f.lastLabel? := fun he => h.lastLabel he.symm hl
  cases hg with
  | machine vm => exact ⟨h.labels, h.arrays, h.switches, h.lastLabel⟩
  | instruction x => exact ⟨h.labels, h.arrays, h.switches, h.lastLabel⟩
  | label w =>
    have hname {l : String} (hl : Marked l) : l ≠ labelName w :=
      fun he => not_marked_labelName w (he ▸ hl)
    exact ⟨fun hl => (Table.get?_set_ne (hname hl)).trans (h.labels hl), h.arrays, h.switches,
      fun he => Option.some.inj he ▸ not_marked_labelName w⟩
  | handler start type target => exact ⟨h.labels, h.arrays, h.switches, h.lastLabel⟩
  | array v =>
    exact ⟨h.labels, fun hl => (Table.get?_set_ne (hne hl)).trans (h.arrays hl), h.switches, h.lastLabel⟩
  | switch s =>
    exact ⟨h.labels, h.arrays, fun hl => (Table.get?_set_ne (hne hl)).trans (h.switches hl), h.lastLabel⟩

namespace Store

open LoadNode

/-- The contract of stores in which no frame keeps anything under a name that opens with a colon. -/
def unmarkedContract : Contract Store where
  holds s := ∀ i, (s.frame i).Unmarked
  leads _ _ := True
  admits _ _ := True
  refl _ := trivial
  trans _ _ := trivial

namespace Unmarked

variable {α : Type}

theorem quiet {x : Act α} (hx : Quiet x) : unmarkedContract.Kept x := by
  refine fun s hs => ⟨fun i => ?_, trivial, fun _ _ => trivial⟩
  rw [frame, (hx s trivial).leads.1]
  exact hs i

theorem updateFrame (i : Nat) (hg : ∀ f : Frame, f.Unmarked → (g f).Unmarked) :
    unmarkedContract.Kept (updateFrame i g) := by
  refine fun s hs => .of_ok (outcome_updateFrame s i g) (fun j => ?_) trivial
  by_cases hij : i = j
  · subst hij
    by_cases hi : i < s.frames.size
    · rw [frame_modify_self rfl hi]
      exact hg _ (hs i)
    · rw [frame, Array.getElem?_eq_none (by simpa using hi)]
      exact Frame.unmarked_empty
  · rw [frame_modify_ne rfl hij]
    exact hs j

theorem newFrame : unmarkedContract.Kept (newFrame .empty) := by
  refine fun s hs =>
    .of_ok (a := s.frames.size) (t := { s with frames := s.frames.push .empty }) rfl (fun i => ?_) trivial
  by_cases hi : i < s.frames.size
  · have heq : ({ s with frames := s.frames.push .empty } : Store).frame i = s.frame i := by
      simp [frame, Array.getElem?_push, Nat.ne_of_lt hi]
    rw [heq]
    exact hs i
  · have heq : ({ s with frames := s.frames.push .empty } : Store).frame i = .empty := by
      by_cases he : i = s.frames.size
      · simp [frame, he]
      · rw [frame, Array.getElem?_eq_none (by simp; omega)]
        rfl
    rw [heq]
    exact Frame.unmarked_empty

end Unmarked

theorem Reached.unmarked {w : Store} (h : Reached w) (i : Nat) : (w.frame i).Unmarked := by
  have hload : Builds unmarkedContract :=
    ⟨Unmarked.quiet, Unmarked.newFrame, fun i _ hg => Unmarked.updateFrame i fun _ hf => hf.entry hg⟩
  have hrun : Sustains unmarkedContract :=
    ⟨Unmarked.quiet, fun i _ hg => Unmarked.updateFrame i fun f hf => hf.of_code (hg f),
      fun _ _ s hs => .of_ok (outcome_modify s _) hs trivial⟩
  exact Reached.holds hload hrun (fun _ => Frame.unmarked_empty) h i

/-! ### Looking for a label -/

/-- The fault of a jump to a label that is not there. -/
def noSuchLabel (l : String) : Fault :=
  .raised "NoSuchLabelError" ("NoSuchLabelError".intercalate (splitParts "ExecutionError" l))

/-- An operation with its operands looks for what is kept under a name: a jump or a branch that is taken for the
position of a label, a switch for its branches, and the filling of an array for its data. If there is nothing, it
ends in the fault. The store is the one in which the operation is started for an action. -/
inductive Seeks (w : Store) (a : Nat) (l : String) : Fault → Operation → List Datum → Prop
  | position {op : Operation} {operands : List Datum} (h : Takes w a l op operands) :
      Seeks w a l (noSuchLabel l) op operands
  | packedSwitch (name : Datum) : Seeks w a l .noEntry .packedSwitch [name, .text l]
  | sparseSwitch (name : Datum) : Seeks w a l .noEntry .sparseSwitch [name, .text l]
  | fillArray (name : Datum) : Seeks w a l .noEntry .fillArray [name, .text l]

theorem outcome_switchAt_none {w : Store} (h : (w.frame (w.action a).frame).switches.get? (some l) = none) :
    outcome (switchAt a (.text l)) w = (.error .noEntry, w) := by
  unfold switchAt
  rw [bind_ok w (outcome_currentFrame w a), bind_ok w (outcome_frameInfo w _)]
  split
  · rename_i habsent
    cases habsent
  · simp only [text?, Option.map_some, Option.bind_some, h]
    rfl

theorem Seeks.outcome_operate {w : Store} {f : Fault} {op : Operation} (h : Seeks w a l f op operands) (hl : Marked l)
    (hframe : (w.frame (w.action a).frame).Unmarked) (run : Runner) :
    (outcome (operate run a op operands) w).1 = .error f := by
  cases h with
  | position h =>
    obtain ⟨w', ⟨hframes, hactions, -⟩, hjump⟩ := h.outcome_operate run
    have hnone : (w'.frame (w'.action a).frame).labels.get? l = none := by
      rw [frame, action, hframes, hactions]
      exact hframe.labels hl
    rw [hjump, jump, bind_ok w' (outcome_currentFrame w' a), bind_ok w' (outcome_frameInfo w' _)]
    simp only [text?, Option.bind_some, hnone, Option.map_none]
    rfl
  | packedSwitch name =>
    rw [operate, Store.packedSwitch, bind_error w (outcome_switchAt_none (hframe.switches hl))]
  | sparseSwitch name =>
    rw [operate, Store.sparseSwitch, bind_error w (outcome_switchAt_none (hframe.switches hl))]
  | fillArray name =>
    unfold operate
    rw [bind_ok w (outcome_currentFrame w a), bind_ok w (outcome_frameInfo w _)]
    dsimp only
    split
    · rename_i hsome
      cases (hframe.arrays hl).symm.trans hsome
    · rfl

theorem spread_text (t : String) :
    spread (.text t) = pure (t.toList.map fun c => text (singleton c)) := by
  by_cases ht : t = ""
  · subst ht
    rfl
  · simp [spread, Datum.holds, Datum.items?, ht]

theorem outcome_operate_spread (run : Runner) (a : Nat) (t : String) (w : Store) :
    outcome (operate run a .jump (t.toList.map fun c => text (singleton c))) w =
      if t.length = 1 then outcome (jump a (.text t)) w else (.error .operandCount, w) := by
  rcases ht : t.toList with _ | ⟨c, _ | ⟨d, cs⟩⟩
  · have hlen : t.length = 0 := by rw [← length_toList, ht]; rfl
    simp [operate, hlen]
  · have hlen : t.length = 1 := by rw [← length_toList, ht]; rfl
    have hsingle : singleton c = t := by
      rw [← toList_inj, ht]
      simp
    simp [operate, hlen, hsingle]
  · have hlen : t.length = cs.length + 2 := by rw [← length_toList, ht]; rfl
    simp [operate, hlen]

section Rounds

variable {w₁ w : Store} {vm m i n k : Nat} {x : Instruction} {op : Operation}

variable (hruns : Runs vm m i n w₁ (k + 1) w) (hrunning : (w.frame i).finished = false)
  (hx : instructionAt (w.frame i) = pure x)

include hruns hrunning hx

theorem Runs.outcome_of_fault (hop : (w.action x.action).operation? = some op)
    (hspread : spread x.operands = pure operands) {f : Fault}
    (hdo : (outcome (operate (runWithin k) x.action op operands) (w.entered vm m i x)).1 = .error f) :
    (outcome (runWithin n vm m i) w₁).1 = .error f := by
  have hfault : outcome (operate (runWithin k) x.action op operands) (w.entered vm m i x)
      = (.error f, (outcome (operate (runWithin k) x.action op operands) (w.entered vm m i x)).2) := Prod.ext hdo rfl
  have hround : outcome (iteration k vm m i (w.frame i)) w = (.error f, _) :=
    (outcome_iteration_entered hx hop hspread).trans (bind_error _ hfault)
  rw [hruns.outcome_runWithin, runWithin_succ, bind_ok w (outcome_frameInfo w i),
    if_neg (by simp [hrunning]), bind_error w hround]

variable {t : String} (hop : (w.action x.action).operation? = some .jump) (ht : x.operands = .text t)

include hop ht

theorem Runs.outcome_bare_jump (hlen : t.length ≠ 1) :
    (outcome (runWithin n vm m i) w₁).1 = .error .operandCount := by
  refine hruns.outcome_of_fault hrunning hx hop (by rw [ht, spread_text]) ?_
  rw [outcome_operate_spread, if_neg hlen]

theorem Runs.outcome_letter_jump (hlen : t.length = 1) {p : Int} (hp : (w.frame i).labels.get? t = some p) :
    ∃ w', outcome (runWithin n vm m i) w₁ = outcome (runWithin k vm m i) w' ∧
      w'.frame i = { w.frame i with label? := some t, position := p + 1 } := by
  have hletter : (t.toList.map fun c => text (singleton c)) = [.text t] := by
    obtain ⟨c, hc⟩ : ∃ c, t.toList = [c] := List.length_eq_one_iff.mp (by rw [length_toList, hlen])
    rw [hc, List.map_singleton, show singleton c = t by rw [← toList_inj, hc]; simp]
  have hjumps : w.Jumps vm m i t :=
    ⟨hrunning, x, .jump, _, hx, hop, by rw [ht, spread_text], by rw [hletter]; exact .jump⟩
  obtain ⟨w', hround, hw'⟩ := hjumps.outcome_iteration hp k
  refine ⟨w', ?_, hw'⟩
  rw [hruns.outcome_runWithin]
  exact (Runs.round hrunning hround (.refl k w')).outcome_runWithin

end Rounds

/-! ### Operands as they are read -/

/-- The operands of the instruction with a name, from the words behind the name: a plain jump has the bare name of its
label, and all others have their operands as they are written. Calls and returns have forms of their own. -/
def writtenOperands? (name : String) (ws : List String) : Option Datum :=
  if name = "goto" then ws.head?.map fun w => .text (labelName w)
  else (operandsIn (· == ',') ws).map .texts

/-- The event of an instruction that is neither a call nor a return. -/
def writtenEvent (name : String) (operands : Datum) : Event :=
  if name = "goto" then .jump operands else .instruction (.text name) operands

section Written

variable {name : String} {ws : List String} (hcall : ¬ "invoke".toList.isPrefixOf name.toList)
  (hret : ¬ "return".toList.isPrefixOf name.toList)

include hcall hret

theorem outcome_instruction_written {src : Source} {line? : Option Line} {n : LoadNode} {d : Store}
    (h : outcome loadReader.instruction ⟨src, ⟨line?, name :: ws⟩, .node n :: st, d⟩ = (.ok (), t)) :
    ∃ operands k, writtenOperands? name ws = some operands ∧
      outcome (loadReader.tell (writtenEvent name operands) >>= fun _ => loadReader.publishComment)
        ⟨src, k, .node n :: st, d⟩ = (.ok (), t) := by
  have hmuted : outcome (methodMuted : Read LoadNode Store Bool) ⟨src, ⟨line?, name :: ws⟩, .node n :: st, d⟩
      = (.ok false, ⟨src, ⟨line?, name :: ws⟩, .node n :: st, d⟩) := rfl
  rw [instruction, unlessMuted, bind_ok _ hmuted, if_neg Bool.false_ne_true,
    bind_ok _ (Read.outcome_nextWord ..), if_neg hcall, if_neg hret] at h
  by_cases hgoto : name = "goto"
  · rw [if_pos (by simpa using hgoto)] at h
    cases ws with
    | nil => cases h
    | cons target rest =>
      exact ⟨_, _, by rw [writtenOperands?, if_pos hgoto]; rfl, by rw [writtenEvent, if_pos hgoto]; exact h⟩
  · rw [if_neg (by simpa using hgoto)] at h
    cases hxs : operandsIn (· == ',') ws with
    | none =>
      obtain ⟨xs, u, hread, -⟩ := outcome_bind_eq_ok _ h
      simp [operands, outcome_bind, hxs] at hread
    | some xs =>
      have hread : outcome (operands (· == ',') : Read LoadNode Store (List String))
          ⟨src, ⟨line?, ws⟩, .node n :: st, d⟩ = (.ok xs, ⟨src, ⟨line?, []⟩, .node n :: st, d⟩) := by
        simp only [operands, outcome_bind, outcome_get, hxs]
        rfl
      rw [bind_ok _ hread] at h
      exact ⟨_, _, by rw [writtenOperands?, if_neg hgoto, hxs]; rfl, by rw [writtenEvent, if_neg hgoto]; exact h⟩

theorem readLine_written {m i : Nat} {text : String} {l : Line} {c : Char} {ls : Lines}
    {s : Session LoadNode Store} (hst : s.stack = .node (.method m i) :: st) (hs : s.source.lines = some text :: ls)
    (hremark : Line.isRemark text = false) (hline : Line.ofString text = .ok l) (hwords : l.words = name :: ws)
    (hc : name.toList.head? = some c) (hdot : c ≠ '.') (hcolon : c ≠ ':')
    (hok : outcome loadReader.readLine s = (.ok (), t)) :
    ∃ x, t.world = { s.world with frames := s.world.frames.modify i fun f => (Item.code x).enter f } ∧
      writtenOperands? name ws = some x.operands := by
  obtain ⟨⟨lines⟩, k, stack, d⟩ := s
  obtain rfl : stack = .node (.method m i) :: st := hst
  obtain rfl : lines = some text :: ls := hs
  have hne : name ≠ "" := by
    rintro rfl
    cases hc
  have hcleaned := Line.cleaned_ne_empty hline (by rw [hwords]; rfl) hne
  have htext : text ≠ "" := by
    rintro rfl
    cases hline
    exact hcleaned rfl
  rw [loadReader.outcome_readLine hremark htext hline hcleaned, hwords,
    loadReader.outcome_statement_plain _ _ _ hc hdot hcolon] at hok
  obtain ⟨operands, k', hoperands, htold⟩ := outcome_instruction_written hcall hret hok
  have honce := TellsOnce.tell (r := loadReader) (p := (· = writtenEvent name operands)) rfl
  have hears : ∀ e, e = writtenEvent name operands → Shape.method.hears e.verb = true := by
    rintro e rfl
    rw [writtenEvent]
    split <;> rfl
  obtain ⟨-, -, e, node?, rfl, he⟩ := tellsOnce_loaded honce hears rfl htold
  rw [writtenEvent] at he
  split at he
  · exact ⟨⟨firstAction "goto", operands⟩, (Prod.mk.inj he).2.symm, hoperands⟩
  · obtain ⟨_, u, hu, hpure⟩ := outcome_bind_eq_ok _ he
    obtain ⟨a, hx⟩ := bindInstruction_ok hu
    exact ⟨⟨a, operands⟩, by rw [← hx]; exact (Prod.mk.inj hpure).2.symm, hoperands⟩

end Written

theorem spread_texts (xs : List String) : spread (.texts xs) = pure (xs.map .text) := by
  cases xs <;> rfl

/-- Labels are found by plain jumps only, and only those whose name has one character. A line of a method with an
instruction that is neither a call nor a return enters the instruction. Whenever that is the instruction at hand in a
run of a method that was loaded: a plain jump to a label of one character goes to the label; with any other name it has
the wrong number of operands, whether the label is there or not. An instruction of any other name that looks for
something under one of its operands, as it is written on the line, does not find it if the operand opens with a
colon. -/
theorem label_operands_missed {m i : Nat} {st : List (Slot LoadNode)} {text name : String} {l : Line} {ws : List String}
    {c : Char} {ls : List (Option String)} {s t : Session LoadNode Store} (hst : s.stack = .node (.method m i) :: st)
    (hs : s.source.lines = some text :: ls) (hremark : Line.isRemark text = false)
    (hline : Line.ofString text = .ok l) (hwords : l.words = name :: ws) (hc : name.toList.head? = some c)
    (hdot : c ≠ '.') (hcolon : c ≠ ':') (hcall : ¬ "invoke".toList.isPrefixOf name.toList)
    (hret : ¬ "return".toList.isPrefixOf name.toList) (hok : outcome loadReader.readLine s = (.ok (), t)) :
    ∃ x, t.world = { s.world with frames := s.world.frames.modify i fun f => (Item.code x).enter f } ∧
      ∀ {w₀ w₁ w : Store} {vm m' j n k : Nat} {op : Operation}, Reached w₀ →
        (w₁.frame j).code = (w₀.frame j).code → Runs vm m' j n w₁ (k + 1) w → (w.frame j).finished = false →
        instructionAt (w.frame j) = pure x → (w.action x.action).operation? = some op →
        (name = "goto" → op = .jump → ∃ target rest, ws = target :: rest ∧
          ((labelName target).length ≠ 1 → (outcome (runWithin n vm m' j) w₁).1 = .error .operandCount) ∧
          ∀ p, (labelName target).length = 1 → (w.frame j).labels.get? (labelName target) = some p →
            ∃ w', outcome (runWithin n vm m' j) w₁ = outcome (runWithin k vm m' j) w' ∧
              w'.frame j = { w.frame j with label? := some (labelName target), position := p + 1 }) ∧
        (name ≠ "goto" → ∃ xs, operandsIn (· == ',') ws = some xs ∧ ∀ {label : String} {f : Fault}, Marked label →
            Seeks (w.entered vm m' j x) x.action label f op (xs.map .text) →
            (outcome (runWithin n vm m' j) w₁).1 = .error f) := by
  obtain ⟨x, hentered, hoperands⟩ := readLine_written hcall hret hst hs hremark hline hwords hc hdot hcolon hok
  refine ⟨x, hentered, fun {w₀ w₁ w vm m' j n k op} hreached hcode hruns hrunning hx hop => ⟨?_, ?_⟩⟩
  · rintro hgoto rfl
    rw [writtenOperands?, if_pos hgoto] at hoperands
    obtain ⟨target, htarget, hbare⟩ := Option.map_eq_some_iff.mp hoperands
    obtain ⟨rest, hws⟩ := List.head?_eq_some_iff.mp htarget
    exact ⟨target, rest, hws, hruns.outcome_bare_jump hrunning hx hop hbare.symm,
      fun _ hlen hp => hruns.outcome_letter_jump hrunning hx hop hbare.symm hlen hp⟩
  · intro hgoto
    rw [writtenOperands?, if_neg hgoto] at hoperands
    obtain ⟨xs, hxs, htexts⟩ := Option.map_eq_some_iff.mp hoperands
    refine ⟨xs, hxs, fun hlabel hseeks => ?_⟩
    refine hruns.outcome_of_fault hrunning hx hop (by rw [← htexts, spread_texts]) ?_
    have hcurrent : ((w.entered vm m' j x).action x.action).frame = j := (action_entered vm m' j hop).2
    have hframe : ((w.entered vm m' j x).frame j).Unmarked := by
      rw [frame_entered]
      exact (hreached.unmarked j).of_code (hruns.code_eq.trans hcode)
    exact hseeks.outcome_operate hlabel (by rw [hcurrent]; exact hframe) _

theorem getElem?_zero_of_target
    (h : (f.instructions[0]?.map fun x => (x.action, target? x.operands)) = some (a, some l)) :
    f.instructions[0]? = some ⟨a, .text l⟩ := by
  obtain ⟨⟨b, operands⟩, hx, hpair⟩ := Option.map_eq_some_iff.mp h
  obtain ⟨rfl, htarget⟩ := Prod.mk.inj hpair
  cases operands with
  | text l' =>
    rw [hx, Option.some.inj htarget]
  | _ => cases htarget

/-- The store in which a machine has loaded a class. -/
def loadedStore (text : String) : Store :=
  (outcome (load 0 (.text text) true) ⟨⟨[]⟩, .start, [], (outcome (newVm [] false false) .initial).2⟩).2.world

theorem reached_loadedStore (text : String) : Reached (loadedStore text) :=
  .load 0 (.text text) true (.machine [] false false .initial)

/-- The instruction of a line with a jump to a label whose name has two characters. In a method that jumps to such a
label, and has it, it ends the run with a fault. -/
theorem label_operands_missed_goto : ∃ t w x, outcome loadReader.readLine (bodyAt ["goto :ab\n"]) = (.ok (), t) ∧
      (t.world.frame 0).instructions[0]? = some x ∧
      w = loadedStore ".class public LT;\n.method public static a()I\ngoto :ab\n:ab\nnop\n.end method\n" ∧
      instructionAt (w.frame 0) = pure x ∧ (w.frame 0).labels.get? "ab" = some 1 ∧
      (outcome (runWithin 9 0 0 0) w).1 = .error .operandCount := by
  let s := bodyAt ["goto :ab\n"]
  let t := afterLine s
  let text := ".class public LT;\n.method public static a()I\ngoto :ab\n:ab\nnop\n.end method\n"
  have hread : outcome loadReader.readLine s = (.ok (), t) :=
    Prod.ext (eq_ok_of_toOption (by decide +kernel)) rfl
  have hline : Line.ofString "goto :ab\n" = .ok ⟨"goto :ab", "goto :ab", none, ["goto", ":ab"]⟩ :=
    eq_ok_of_toOption (by decide +kernel)
  obtain ⟨x, hentered, hruns⟩ := label_operands_missed rfl rfl (by decide +kernel) hline rfl (c := 'g') (by decide)
    (by decide) (by decide) (by decide +kernel) (by decide +kernel) hread
  have hx : (t.world.frame 0).instructions[0]? = some x := by
    rw [hentered]
    rfl
  obtain rfl : ⟨firstAction "goto", .text "ab"⟩ = x :=
    Option.some.inj ((getElem?_zero_of_target (by decide +kernel)).symm.trans hx)
  -- the loaded method opens with the same instruction
  obtain ⟨hposition, hrunning, hfirst, hjump, hlabel⟩ : ((loadedStore text).frame 0).position = 0 ∧
      ((loadedStore text).frame 0).finished = false ∧
      (((loadedStore text).frame 0).instructions[0]?.map fun x => (x.action, target? x.operands))
        = some (firstAction "goto", some "ab") ∧
      ((loadedStore text).action (firstAction "goto")).operation? = some .jump ∧
      ((loadedStore text).frame 0).labels.get? "ab" = some 1 := by
    decide +kernel
  have hat := instructionAt_eq (p := 0) hposition (getElem?_zero_of_target hfirst)
  obtain ⟨hgoto, -⟩ := hruns (reached_loadedStore text) rfl (.refl 9 _) hrunning hat hjump
  obtain ⟨target, rest, hws, hfault, -⟩ := hgoto rfl rfl
  obtain rfl : ":ab" = target := (List.cons.inj hws).1
  exact ⟨t, _, _, hread, hx, rfl, hat, hlabel, hfault (by decide +kernel)⟩

/-- The fault in which a call of a method with some lines ends. -/
def faultOf (body : String) : Option Fault :=
  let text := ".class public LT;\n.method public static a()V\n.locals 1\n" ++ body ++ ".end method\n"
  match (outcome (callLoaded text "a()V") ⟨⟨[]⟩, .start, [], .initial⟩).1 with
  | .ok _ => none
  | .error f => some f

/-- Methods with a label, one of them with the data of an array behind it. Only the first call comes to its end. -/
theorem label_operands_by_name : faultOf "goto :a\n:a\nnop\nreturn-void\n" = none ∧
      faultOf "goto :ab\n:ab\nnop\nreturn-void\n" = some .operandCount ∧
      faultOf "goto/16 :a\n:a\nnop\nreturn-void\n" = some (noSuchLabel ":a") ∧
      faultOf "fill-array-data v0, :a\nreturn-void\n:a\n.array-data 1\n0x1\n.end array-data\n" = some .noEntry := by
  decide +kernel

end Store

end Dalvik
