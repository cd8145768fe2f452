import Dalvik.Proofs.Arguments
import Dalvik.Proofs.Bits
import Dalvik.Proofs.Literals
import Mathlib.Logic.Function.Basic

/-!
# Straight-line code

Straight-line code is a list of assignments to numbered registers: a constant, a copy, the opposite or the
complement of a register, or two registers combined. Its meaning is a fold over a file of registers that hold
unbounded integers (`Assignment.run`). The machine keeps values of all kinds under the names of registers, and
a register that was not written has none. Performing an assignment writes the register that it means to write
(`Assignment.outcome_operate`), so code in which every register is written before it is read leaves the values
of the fold in its frame (`Store.runs_assignments`), and a method that consists of such code and a return
gives the value that the fold gives, at each of its calls (`Store.StraightMethod.outcome_calls`).
-/

namespace Dalvik

open List LoadNode

variable {old t : Table String Value} {w' : Store} {x : Instruction}

/-- The name of a register. -/
def registerName (k : Nat) : String := s!"v{k}"

theorem registerName_injective : Function.Injective registerName := by
  intro a b heq
  have hlist := congrArg String.toList heq
  simp only [registerName, String.toList_append, append_cancel_left_eq] at hlist
  exact Number.toString_injective (String.toList_inj.mp hlist)

/-! ### Syntax and meaning -/

/-- The operators that combine two integers. -/
inductive IntOperator where
  | add | sub | mul | and | or | xor
  deriving DecidableEq

namespace IntOperator

/-- The operator of the machine. -/
def operator : IntOperator → Operator
  | add => .add
  | sub => .sub
  | mul => .mul
  | and => .and
  | or => .or
  | xor => .xor

/-- What an operator makes of two integers; bits go on without end. -/
def eval : IntOperator → Int → Int → Int
  | add, a, b => a + b
  | sub, a, b => a - b
  | mul, a, b => a * b
  | and, a, b => a.land b
  | or, a, b => a.lor b
  | xor, a, b => a.xor b

end IntOperator

/-- The instructions that load an integer. -/
inductive ConstForm where
  | full | four | sixteen
  deriving DecidableEq

/-- The instructions of straight-line code without their operands. -/
inductive Mnemonic where
  | const (form : ConstForm)
  | move | negate | complement
  | combine (op : IntOperator)
  | combineInPlace (op : IntOperator)
  deriving DecidableEq

namespace Mnemonic

/-- The name of an instruction. -/
def name : Mnemonic → String
  | const .full => "const"
  | const .four => "const/4"
  | const .sixteen => "const/16"
  | move => "move"
  | negate => "neg-int"
  | complement => "not-int"
  | combine .add => "add-int"
  | combine .sub => "sub-int"
  | combine .mul => "mul-int"
  | combine .and => "and-int"
  | combine .or => "or-int"
  | combine .xor => "xor-int"
  | combineInPlace .add => "add-int/2addr"
  | combineInPlace .sub => "sub-int/2addr"
  | combineInPlace .mul => "mul-int/2addr"
  | combineInPlace .and => "and-int/2addr"
  | combineInPlace .or => "or-int/2addr"
  | combineInPlace .xor => "xor-int/2addr"

/-- What the machine does at an instruction. -/
def operation : Mnemonic → Operation
  | const _ => .loadConst
  | move => .move
  | negate => .negate
  | complement => .complement
  | combine op => .binary op.operator
  | combineInPlace op => .inPlace op.operator

/-- All instructions of straight-line code. -/
def all : List Mnemonic :=
  [const .full, const .four, const .sixteen, move, negate, complement] ++
    [IntOperator.add, .sub, .mul, .and, .or, .xor].flatMap fun op => [combine op, combineInPlace op]

theorem mem_all (x : Mnemonic) : x ∈ all := by
  cases x with
  | const form => cases form <;> decide
  | combine op => cases op <;> decide
  | combineInPlace op => cases op <;> decide
  | _ => decide

theorem first_action (x : Mnemonic) : Store.firstTable.get? x.name = some (firstAction x.name) ∧
      (Store.initial.action (firstAction x.name)).operation? = some x.operation ∧
      Opcode.isKnown x.name = true := by
  have hall : ∀ x ∈ all, Store.firstTable.get? x.name = some (firstAction x.name) ∧
      (Store.initial.action (firstAction x.name)).operation? = some x.operation ∧
      Opcode.isKnown x.name = true := by
    decide +kernel
  exact hall x (mem_all x)

end Mnemonic

/-- An instruction of straight-line code. -/
inductive Assignment where
  | const (form : ConstForm) (dest : Nat) (n : WrittenInteger)
  | move (dest src : Nat)
  | negate (dest src : Nat)
  | complement (dest src : Nat)
  | combine (op : IntOperator) (dest x y : Nat)
  | combineInPlace (op : IntOperator) (dest src : Nat)

namespace Assignment

/-- The instruction without its operands. -/
def mnemonic : Assignment → Mnemonic
  | const form _ _ => .const form
  | move _ _ => .move
  | negate _ _ => .negate
  | complement _ _ => .complement
  | combine op _ _ _ => .combine op
  | combineInPlace op _ _ => .combineInPlace op

/-- The operands of the instruction. -/
def operands : Assignment → List String
  | const _ d n => [registerName d, n.text]
  | move d s | negate d s | complement d s | combineInPlace _ d s => [registerName d, registerName s]
  | combine _ d x y => [registerName d, registerName x, registerName y]

/-- The instruction as a line. -/
def text (s : Assignment) : String :=
  s.mnemonic.name ++ " " ++ ", ".intercalate s.operands

/-- The register that is written. -/
def target : Assignment → Nat
  | const _ d _ | move d _ | negate d _ | complement d _ | combine _ d _ _ | combineInPlace _ d _ => d

/-- The registers that are read. -/
def reads : Assignment → List Nat
  | const _ _ _ => []
  | move _ s | negate _ s | complement _ s => [s]
  | combine _ _ x y => [x, y]
  | combineInPlace _ d s => [d, s]

/-- Whether the numeral of a literal is not too long. -/
def IsReadable : Assignment → Prop
  | const _ _ n => n.IsReadable
  | _ => True

instance : DecidablePred IsReadable
  | const _ _ n => inferInstanceAs (Decidable n.IsReadable)
  | move _ _ | negate _ _ | complement _ _ | combine _ _ _ _ | combineInPlace _ _ _ => .isTrue trivial

/-- The value that is written. -/
def result (ρ : Nat → Int) : Assignment → Int
  | const _ _ n => n.value
  | move _ s => ρ s
  | negate _ s => -ρ s
  | complement _ s => -ρ s - 1
  | combine op _ x y => op.eval (ρ x) (ρ y)
  | combineInPlace op d s => op.eval (ρ d) (ρ s)

/-- What an assignment does to a file of registers. -/
def step (ρ : Nat → Int) (s : Assignment) : Nat → Int :=
  Function.update ρ s.target (s.result ρ)

/-- What straight-line code makes of a file of registers in which nothing was written. -/
def run (code : List Assignment) : Nat → Int :=
  code.foldl step fun _ => 0

/-- Every register is written before it is read; some registers may have been written already. -/
def WrittenFirst : List Nat → List Assignment → Prop
  | _, [] => True
  | written, s :: code => (∀ k ∈ s.reads, k ∈ written) ∧ WrittenFirst (s.target :: written) code

instance : ∀ written code, Decidable (WrittenFirst written code)
  | _, [] => .isTrue trivial
  | written, s :: code =>
    have := instDecidableWrittenFirst (s.target :: written) code
    inferInstanceAs (Decidable (_ ∧ _))

end Assignment

/-! ### One assignment -/

namespace Store

variable {u : Store} {a i : Nat}

theorem outcome_register {k : Nat} {v : Value} (ha : (u.action a).frame = i)
    (h : (u.frame i).registers.get? (registerName k) = some v) :
    outcome (register a (.text (registerName k))) u = (.ok v, u) := by
  rw [register, bind_ok u (outcome_currentFrame u a), bind_ok u (outcome_frameInfo u _), ha]
  simp only [Datum.text?, Option.bind_some, h]
  rfl

/-- The store with a register of a frame set. -/
def withRegister (u : Store) (i k : Nat) (v : Value) : Store :=
  { u with frames := u.frames.modify i fun f => { f with registers := f.registers.set (registerName k) v } }

theorem outcome_setRegister (ha : (u.action a).frame = i) (k : Nat) (v : Value) :
    outcome (setRegister a (.text (registerName k)) v) u = (.ok (), u.withRegister i k v) := by
  subst ha
  rfl

theorem outcome_apply (op : IntOperator) (x y : Int) (w : Store) :
    outcome (apply op.operator (.int x) (.int y)) w = (.ok (.int (op.eval x y)), w) := by
  cases op with
  | add => rfl
  | sub => rfl
  | mul => rfl
  | and => exact congrArg (fun n => (Except.ok (Value.int n), w)) (combineBits_and x y)
  | or => exact congrArg (fun n => (Except.ok (Value.int n), w)) (combineBits_or x y)
  | xor => exact congrArg (fun n => (Except.ok (Value.int n), w)) (combineBits_xor x y)

theorem applyInPlace_int (op : IntOperator) (x : Int) (v : Value) :
    applyInPlace op.operator (.int x) v = apply op.operator (.int x) v := by
  cases op <;> rfl

end Store

namespace Assignment

open Store

variable {u : Store} {a i : Nat} {ρ : Nat → Int}

theorem outcome_operate {s : Assignment} (hs : s.IsReadable) (ha : (u.action a).frame = i)
    (hreads : ∀ k ∈ s.reads, (u.frame i).registers.get? (registerName k) = some (.int (ρ k))) (run : Runner) :
    outcome (operate run a s.mnemonic.operation (s.operands.map .text)) u
      = (.ok (), u.withRegister i s.target (.int (s.result ρ))) := by
  have hread : ∀ k ∈ s.reads, outcome (register a (.text (registerName k))) u = (.ok (.int (ρ k)), u) :=
    fun k hk => outcome_register ha (hreads k hk)
  cases s with
  | const form d n =>
    have hliteral : outcome (literal (.text n.text)) u = (.ok (.int n.value), u) := by
      have hparse := n.parse_text
      rw [if_pos (show n.IsReadable from hs)] at hparse
      simp only [literal, Datum.text?, parseValue, hparse]
      rfl
    simp only [mnemonic, Mnemonic.operation, operands, map_cons, map_nil, operate]
    rw [bind_ok u hliteral]
    exact outcome_setRegister ha d _
  | move d s =>
    simp only [mnemonic, Mnemonic.operation, operands, map_cons, map_nil, operate]
    rw [bind_ok u (hread s mem_cons_self)]
    exact outcome_setRegister ha d _
  | negate d s =>
    simp only [mnemonic, Mnemonic.operation, operands, map_cons, map_nil, operate, convert]
    rw [bind_ok u (hread s mem_cons_self)]
    exact outcome_setRegister ha d _
  | complement d s =>
    simp only [mnemonic, Mnemonic.operation, operands, map_cons, map_nil, operate, convert]
    rw [bind_ok u (hread s mem_cons_self)]
    exact outcome_setRegister ha d _
  | combine op d x y =>
    simp only [mnemonic, Mnemonic.operation, operands, map_cons, map_nil, operate]
    rw [bind_ok u (hread x (by simp [reads])), bind_ok u (hread y (by simp [reads])),
      bind_ok u (outcome_apply op (ρ x) (ρ y) u)]
    exact outcome_setRegister ha d _
  | combineInPlace op d s =>
    simp only [mnemonic, Mnemonic.operation, operands, map_cons, map_nil, operate]
    rw [bind_ok u (hread d (by simp [reads])), bind_ok u (hread s (by simp [reads])),
      applyInPlace_int, bind_ok u (outcome_apply op (ρ d) (ρ s) u)]
    exact outcome_setRegister ha d _

/-- The instruction of a frame that is made of an assignment. -/
def instruction (s : Assignment) : Instruction :=
  ⟨firstAction s.mnemonic.name, .texts s.operands⟩

theorem spread_operands (s : Assignment) : spread (.texts s.operands) = pure (s.operands.map .text) := by
  cases s <;> rfl

end Assignment

/-! ### Runs -/

/-- Registers hold the values of a file: those that were written hold them, all others are as they were. -/
structure Holds (old t : Table String Value) (written : List Nat) (ρ : Nat → Int) : Prop where
  values : ∀ k ∈ written, t.get? (registerName k) = some (.int (ρ k))
  others : ∀ name, (∀ k ∈ written, name ≠ registerName k) → t.get? name = old.get? name

theorem Holds.refl (t : Table String Value) (ρ : Nat → Int) : Holds t t [] ρ :=
  ⟨fun _ hk => (not_mem_nil hk).elim, fun _ _ => rfl⟩

theorem Holds.of_mem_iff {written written' : List Nat} {ρ : Nat → Int} (h : Holds old t written ρ)
    (hmem : ∀ k, k ∈ written' ↔ k ∈ written) : Holds old t written' ρ :=
  ⟨fun k hk => h.values k ((hmem k).mp hk), fun name hname => h.others name fun k hk => hname k ((hmem k).mpr hk)⟩

theorem Holds.step {written : List Nat} {ρ : Nat → Int} (h : Holds old t written ρ) (s : Assignment) :
    Holds old (t.set (registerName s.target) (.int (s.result ρ))) (s.target :: written) (Assignment.step ρ s) := by
  constructor
  · intro k hk
    by_cases hks : k = s.target
    · subst hks
      rw [Table.get?_set_self, Assignment.step, Function.update_self]
    · have hname : registerName k ≠ registerName s.target := fun heq => hks (registerName_injective heq)
      rw [Table.get?_set_ne hname, h.values k (mem_of_ne_of_mem hks hk), Assignment.step,
        Function.update_of_ne hks]
  · intro name hname
    rw [Table.get?_set_ne (hname _ mem_cons_self)]
    exact h.others name fun k hk => hname k (mem_cons_of_mem _ hk)

namespace Store

/-- A later store with the same program: only frames, the frames that actions stand at, and notes about
instructions may have changed. -/
structure Continues (w w' : Store) : Prop where
  rest : w' = { w with frames := w'.frames, actions := w'.actions, trace := w'.trace }
  operations : ∀ b, (w'.action b).operation? = (w.action b).operation?

theorem Continues.refl (w : Store) : w.Continues w := ⟨rfl, fun _ => rfl⟩

theorem Continues.trans {w w'' : Store} (h : w.Continues w') (h' : w'.Continues w'') : w.Continues w'' := by
  refine ⟨?_, fun b => (h'.operations b).trans (h.operations b)⟩
  rw [h'.rest, h.rest]

variable {w : Store} {vm m i n : Nat}

theorem outcome_round {op : Operation} {operands : List Datum} {g : Frame → Frame} (hi : i < w.frames.size)
    (hx : instructionAt (w.frame i) = pure x) (hop : (w.action x.action).operation? = some op)
    (hspread : spread x.operands = pure operands)
    (hdo : ∀ u : Store, (u.action x.action).frame = i → u.frame i = w.frame i → outcome (operate (runWithin n) x.action op operands) u = (.ok (), { u with frames := u.frames.modify i g })) :
    ∃ w', outcome (iteration n vm m i (w.frame i)) w = (.ok (), w') ∧ w.Continues w' ∧ i < w'.frames.size ∧
      w'.frame i = { g (w.frame i) with position := (g (w.frame i)).position + 1 } := by
  obtain ⟨-, hcurrent⟩ := action_entered vm m i hop
  obtain ⟨notes, hround⟩ := outcome_iteration hx hop hspread (hdo _ hcurrent (frame_entered w vm m i x i))
  obtain ⟨notes', hentered⟩ := entered_eq w vm m i x
  refine ⟨_, hround, ⟨?_, ?_⟩, ?_, ?_⟩
  · rw [hentered, started]
  · exact operation_entered w vm m i x
  · simpa [hentered, started] using hi
  · simp [frame, hentered, started, hi, Array.getElem_modify]

theorem outcome_round_assignment {s : Assignment} {ρ : Nat → Int} (hs : s.IsReadable) (hi : i < w.frames.size)
    (hx : instructionAt (w.frame i) = pure s.instruction)
    (hops : ∀ b, (w.action b).operation? = (initial.action b).operation?)
    (hreads : ∀ k ∈ s.reads, (w.frame i).registers.get? (registerName k) = some (.int (ρ k))) :
    ∃ w', outcome (iteration n vm m i (w.frame i)) w = (.ok (), w') ∧ w.Continues w' ∧ i < w'.frames.size ∧
      w'.frame i = { w.frame i with
        registers := (w.frame i).registers.set (registerName s.target) (.int (s.result ρ)),
        position := (w.frame i).position + 1 } := by
  refine outcome_round (g := fun f => { f with
    registers := f.registers.set (registerName s.target) (.int (s.result ρ)) }) hi hx
    ((hops _).trans s.mnemonic.first_action.2.1) s.spread_operands fun u ha hu => ?_
  exact s.outcome_operate hs ha (by rw [hu]; exact hreads) _

/-- The instruction of a frame that returns a register. -/
def returning (k : Nat) : Instruction :=
  ⟨firstAction "return", .texts [registerName k]⟩

theorem first_action_return : firstTable.get? "return" = some (firstAction "return") ∧
    (initial.action (firstAction "return")).operation? = some .returnValue ∧
    Opcode.isKnown "return" = true := by
  decide +kernel

theorem outcome_round_return {k : Nat} {v : Value} (hi : i < w.frames.size)
    (hx : instructionAt (w.frame i) = pure (returning k))
    (hops : ∀ b, (w.action b).operation? = (initial.action b).operation?)
    (hk : (w.frame i).registers.get? (registerName k) = some v) :
    ∃ w', outcome (iteration n vm m i (w.frame i)) w = (.ok (), w') ∧ w.Continues w' ∧ i < w'.frames.size ∧
      w'.frame i = { w.frame i with returned := v, finished := true, position := (w.frame i).position + 1 } := by
  refine outcome_round (g := fun f => { f with returned := v, finished := true }) hi hx
    ((hops _).trans first_action_return.2.1) rfl fun u ha hu => ?_
  have hread := outcome_register (k := k) (v := v) ha (by rw [hu]; exact hk)
  rw [map_cons, map_nil, operate, bind_ok u hread]
  subst ha
  rfl

theorem instructionAt_of_drop {f : Frame} {p : Nat} {rest : List Instruction} (hp : f.position = p)
    (h : f.instructions.toList.drop p = x :: rest) : instructionAt f = pure x := by
  refine instructionAt_eq hp ?_
  rw [← Array.getElem?_toList, ← head?_drop, h, head?_cons]

theorem runs_assignments {code : List Assignment} (hreadable : ∀ s ∈ code, s.IsReadable) {written : List Nat}
    {ρ : Nat → Int} (hwritten : Assignment.WrittenFirst written code) {rest : List Instruction} {p : Nat}
    {old : Table String Value} (hops : ∀ b, (w.action b).operation? = (initial.action b).operation?)
    (hi : i < w.frames.size) (hrunning : (w.frame i).finished = false) (hp : (w.frame i).position = p)
    (hcode : (w.frame i).instructions.toList.drop p = code.map Assignment.instruction ++ rest)
    (hholds : Holds old (w.frame i).registers written ρ) :
    ∃ w' t, Runs vm m i (code.length + n) w n w' ∧ w.Continues w' ∧ i < w'.frames.size ∧
      w'.frame i = { w.frame i with registers := t, position := ((p + code.length : Nat) : Int) } ∧
      Holds old t ((code.map Assignment.target).reverse ++ written) (code.foldl Assignment.step ρ) := by
  induction code generalizing w written ρ p with
  | nil =>
    refine ⟨w, (w.frame i).registers, by rw [length_nil, Nat.zero_add]; exact .refl n w, .refl w, hi, ?_, hholds⟩
    rw [length_nil, Nat.add_zero, ← hp]
  | cons s code ih =>
    obtain ⟨hreads, hwritten⟩ := hwritten
    have hx := instructionAt_of_drop hp hcode
    obtain ⟨w₁, hround, hcont, hi₁, hframe⟩ := @outcome_round_assignment w vm m i (code.length + n) s ρ
      (hreadable s mem_cons_self) hi hx hops fun k hk => hholds.values k (hreads k hk)
    have hcode₁ : (w₁.frame i).instructions.toList.drop (p + 1) = code.map Assignment.instruction ++ rest := by
      rw [hframe, ← drop_drop, hcode]
      rfl
    obtain ⟨w', t, hruns, hcont', hi', hframe', hholds'⟩ := ih
      (fun x hx => hreadable x (mem_cons_of_mem _ hx)) hwritten (w := w₁) (p := p + 1)
      (fun b => (hcont.operations b).trans (hops b)) hi₁ (by rw [hframe]; exact hrunning)
      (by rw [hframe]; simp [hp]) hcode₁ (by rw [hframe]; exact hholds.step s)
    refine ⟨w', t, ?_, hcont.trans hcont', hi', ?_, ?_⟩
    · rw [length_cons, Nat.add_right_comm]
      exact .round hrunning hround hruns
    · rw [hframe', hframe, length_cons, Nat.add_assoc, Nat.add_comm 1]
    · simpa using hholds'

/-! ### Calls -/

/-- A static method without parameters that consists of straight-line code and the return of a register. -/
structure StraightMethod (w : Store) (m j vm : Nat) (n : Int) (code : List Assignment) (k : Nat) : Prop where
  callable : w.Callable m j vm n
  static : w.isStatic m = true
  unchecked : w.checkedTypes = []
  operations : ∀ b, (w.action b).operation? = (initial.action b).operation?
  body : (w.frame j).instructions.toList = code.map Assignment.instruction ++ [returning k]

namespace StraightMethod

variable {j k : Nat} {l : Int} {code : List Assignment}

section

variable (h : w.StraightMethod m j vm l code k)

include h

theorem continues (hcont : w.Continues w') (hj : j < w'.frames.size)
    (hbody : (w'.frame j).instructions = (w.frame j).instructions) :
    w'.StraightMethod m j vm l code k := by
  have hrest := hcont.rest
  have hmethods : w'.methods = w.methods := by rw [hrest]
  have hmethod : w'.method m = w.method m := by rw [method, method, hmethods]
  have htable : w'.frameTable = w.frameTable := by rw [hrest]
  constructor
  · exact ⟨by rw [hmethod]; exact h.callable.machine, by rw [hmethod]; exact h.callable.concrete,
      by rw [hmethod]; exact h.callable.locals, by rw [htable, hmethod]; exact h.callable.frame, hj⟩
  · rw [isStatic, hmethod]
    exact h.static
  · rw [hrest]
    exact h.unchecked
  · exact fun b => (hcont.operations b).trans (h.operations b)
  · rw [hbody]
    exact h.body

theorem enters (inst : Value) (run : Runner) :
    ∃ u, outcome (callOn run vm (.method m) ⟨inst, [], []⟩) w = outcome (conclude run vm m j) u ∧
      w.Continues u ∧ j < u.frames.size ∧ (u.frame j).instructions = (w.frame j).instructions ∧
      (u.frame j).finished = false ∧ (u.frame j).position = 0 ∧ (u.frame j).error = .null := by
  have hj := h.callable.inBounds
  have hframe := frame_ready hj m l inst []
  have hbind := @outcome_bindArguments (w.ready m j l inst []) [] (by rw [ready, h.unchecked]; rfl)
    (by simp) (w.isStatic m) j inst
  have hsame : (w.ready m j l inst []).frames.modify j (fun f =>
      { f with registers := bound (if w.isStatic m then 0 else 1) [] f.registers })
        = (w.ready m j l inst []).frames := by
    refine Array.ext (by simp) fun a ha ha' => ?_
    by_cases hja : j = a <;> simp [Array.getElem_modify, hja, bound]
  rw [hsame] at hbind
  refine ⟨w.ready m j l inst [], ?_, ⟨rfl, fun _ => rfl⟩, by simpa [ready] using hj, ?_, ?_, ?_, ?_⟩
  · rw [outcome_callOn h.callable (.inl h.static), bind_ok _ hbind]
  · rw [hframe]; rfl
  · rw [hframe]; rfl
  · rw [hframe]; rfl
  · rw [hframe]; rfl

theorem outcome_runner {u : Store} (hbody : (u.frame j).instructions = (w.frame j).instructions) :
    ∃ n, outcome (runner vm m j) u = outcome (runWithin (code.length + (n + 2)) vm m j) u := by
  have hsize : (u.frame j).instructions.size = code.length + 1 := by
    rw [hbody, ← Array.length_toList, h.body]
    simp
  refine ⟨stepLimit - 1, ?_⟩
  rw [runner, bind_ok u (outcome_frameInfo u j), hsize, Nat.add_assoc]
  rfl

variable (hreadable : ∀ s ∈ code, s.IsReadable) (hwritten : Assignment.WrittenFirst [] code)
  (hk : k ∈ code.map Assignment.target)

include hreadable hwritten hk

theorem outcome_callOn (inst : Value) :
    ∃ w', outcome (callOn runner vm (.method m) ⟨inst, [], []⟩) w = (.ok (.int (Assignment.run code k)), w') ∧
      w.Continues w' ∧ w'.StraightMethod m j vm l code k := by
  obtain ⟨u, hcall, hcont, hj, hbody, hrunning, hposition, herror⟩ := h.enters inst runner
  obtain ⟨n, hrunner⟩ := h.outcome_runner hbody
  have hops : ∀ b, (u.action b).operation? = (initial.action b).operation? :=
    fun b => (hcont.operations b).trans (h.operations b)
  have hcode : (u.frame j).instructions.toList.drop 0 = code.map Assignment.instruction ++ [returning k] := by
    rw [hbody]
    exact h.body
  obtain ⟨u₁, t, hruns, hcont₁, hj₁, hframe₁, hholds⟩ := @runs_assignments u vm m j (n + 2) code hreadable []
    (fun _ => 0) hwritten [returning k] 0 _ hops hj hrunning hposition hcode (.refl _ _)
  -- the return is the instruction behind the code
  have hlast : (u₁.frame j).instructions.toList.drop (0 + code.length) = [returning k] := by
    rw [hframe₁]
    rw [← drop_drop, hcode]
    exact drop_left' (by simp)
  have hreturned := hholds.values k (by simpa using hk)
  obtain ⟨u₂, hround, hcont₂, hj₂, hframe₂⟩ := @outcome_round_return u₁ vm m j (n + 1) k _ hj₁
    (instructionAt_of_drop (by rw [hframe₁]) hlast)
    (fun b => (hcont₁.operations b).trans (hops b)) (by rw [hframe₁]; exact hreturned)
  have hrun : outcome (runner vm m j) u = (.ok (), u₂) := by
    rw [hrunner, hruns.outcome_runWithin,
      (Runs.round (by rw [hframe₁]; exact hrunning) hround (.refl _ _)).outcome_runWithin, runWithin_succ,
      bind_ok _ (outcome_frameInfo _ _), if_pos (by rw [hframe₂])]
    rfl
  have herror₂ : outcome (holds (u₂.frame j).error) u₂ = (.ok false, u₂) := by
    have : (u₂.frame j).error = .null := by
      rw [hframe₂, hframe₁]
      exact herror
    rw [this]
    rfl
  have hreset : ({ u₂ with frames := u₂.frames.modify j Frame.reset } : Store).frame j = (u₂.frame j).reset :=
    frame_modify_self rfl hj₂
  have hcont₃ : w.Continues { u₂ with frames := u₂.frames.modify j Frame.reset } :=
    hcont.trans (hcont₁.trans (hcont₂.trans ⟨rfl, fun _ => rfl⟩))
  refine ⟨{ u₂ with frames := u₂.frames.modify j Frame.reset }, ?_, hcont₃, ?_⟩
  · rw [hcall, conclude, bind_ok _ hrun, bind_ok _ (outcome_frameInfo _ _), bind_ok _ herror₂]
    rw [hframe₂]
    rfl
  · refine h.continues hcont₃ (by simpa using hj₂) ?_
    rw [hreset, hframe₂, hframe₁]
    exact hbody

theorem outcome_calls (insts : List Value) :
    ∃ w', outcome (insts.mapM fun inst => callOn runner vm (.method m) ⟨inst, [], []⟩) w
      = (.ok (insts.map fun _ => .int (Assignment.run code k)), w') := by
  induction insts generalizing w with
  | nil => exact ⟨w, rfl⟩
  | cons inst insts ih =>
    obtain ⟨w₁, hcall, -, h₁⟩ := h.outcome_callOn hreadable hwritten hk inst
    obtain ⟨w₂, hcalls⟩ := ih h₁
    refine ⟨w₂, ?_⟩
    rw [mapM_cons, bind_ok _ hcall, bind_ok _ hcalls]
    rfl

end

theorem outcome_callOn_of_long {form : ConstForm} {d : Nat} {x : WrittenInteger}
    (h : w.StraightMethod m j vm l (.const form d x :: code) k) (hx : ¬ x.IsReadable) (inst : Value) :
    (outcome (callOn runner vm (.method m) ⟨inst, [], []⟩) w).1 = .error .numeral := by
  obtain ⟨u, hcall, hcont, hj, hbody, hrunning, hposition, -⟩ := h.enters inst runner
  obtain ⟨n, hrunner⟩ := h.outcome_runner hbody
  have hcode : (u.frame j).instructions.toList.drop 0
      = (Assignment.const form d x).instruction :: (code.map Assignment.instruction ++ [returning k]) := by
    rw [hbody]
    exact h.body
  have hop := (hcont.operations _).trans ((h.operations _).trans (Assignment.const form d x).mnemonic.first_action.2.1)
  have hdo : ∀ (run : Runner) (v : Store), outcome (operate run (Assignment.const form d x).instruction.action
      .loadConst [.text (registerName d), .text x.text]) v = (.error .numeral, v) := by
    intro run v
    have hparse := x.parse_text
    rw [if_neg hx] at hparse
    have hliteral : outcome (literal (.text x.text)) v = (.error .numeral, v) := by
      simp only [literal, Datum.text?, parseValue, hparse]
      rfl
    rw [operate, bind_error v hliteral]
  rw [hcall, conclude, bind_error (f := .numeral) (t := _)]
  rw [hrunner, ← Nat.add_assoc, runWithin_succ, bind_ok u (outcome_frameInfo u j),
    if_neg (by simp [hrunning]), bind_error u]
  rw [outcome_iteration_entered (instructionAt_of_drop hposition hcode) hop rfl]
  exact bind_error _ (hdo _ _)

end StraightMethod

end Store

end Dalvik
