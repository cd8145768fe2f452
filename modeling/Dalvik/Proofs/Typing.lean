import Dalvik.Console.Run
import Dalvik.Proofs.StraightClass

/-!
# Straight-line code at the console

A line that is typed at the console is read by a reader of its own, in front of whatever is still open there,
and an assignment is performed at once in the frame of the console. Typing changes the store of the machine
and the line that a blank one repeats, so straight-line code that is typed line by line leaves the values of
the fold in the registers of that frame (`Console.Keeps.outcome_typing`). These are the values that a method
with the same code gives (`StraightClass.executed_faithfully`), unless a numeral is too long to be read.
-/

namespace Dalvik

open Dalvik.Text Reader Store List Request Assignment Console

variable {line : String} {s : Assignment}

/-! ### Sources of one line -/

theorem Reader.outcome_readBody_of_last {ν σ : Type} {r : Reader ν σ} {s : Session ν σ} {k : Cursor}
    {st : Slots ν} {d : σ} (hline : outcome r.readLine s = (.ok (), ⟨⟨[]⟩, k, st, d⟩)) :
    outcome r.readBody s = outcome (r.tell .close) ⟨⟨[]⟩, k, st, d⟩ := by
  have hend : ∀ k st d, outcome r.readLine ⟨⟨[]⟩, k, st, d⟩ = (.error .endOfSource, ⟨⟨[]⟩, k, st, d⟩) :=
    fun _ _ _ => rfl
  obtain ⟨⟨lines⟩, k₀, st₀, d₀⟩ := s
  cases lines with
  | nil =>
    cases hline
  | cons l ls =>
    have hlines : outcome (do r.readLines ((← get).source.lines.length + 1)) ⟨⟨l :: ls⟩, k₀, st₀, d₀⟩
        = (.error .endOfSource, ⟨⟨[]⟩, k, st, d⟩) := by
      rw [bind_ok _ (outcome_get _), length_cons, readLines, bind_ok _ hline, readLines, bind_error _ (hend k st d)]
    rw [readBody, outcome_tryCatch, hlines]
    rfl

/-! ### Requests -/

/-- A line that opens with no mark and has no space around it is remembered, and its first word may be a
command. -/
theorem Request.parse_eq (hdrop : dropBoth isBlank line.toList = line.toList) (hexclaim : line.toList.head? ≠ some '!')
    (hquestion : line.toList.head? ≠ some '?') :
    parse line = ⟨line, true, Command.ofName? (String.ofList (line.toList.takeWhile isCommandChar)),
      String.ofList (dropBoth isBlank (line.toList.dropWhile isCommandChar))⟩ := by
  rw [parse, hdrop]
  split
  · rename_i heq
    exact absurd (congrArg head? heq) hexclaim
  · split
    · rename_i heq
      exact absurd (congrArg head? heq) hquestion
    · dsimp only
      rw [String.ofList_toList]

namespace Mnemonic

/-- What the console looks at in the name of an instruction: it opens with no mark and with no command, no
return occurs in it, and it is not blank. -/
theorem name_typed (x : Mnemonic) : x.name.toList.head? ≠ some '!' ∧ x.name.toList.head? ≠ some '?' ∧
      Command.ofName? (String.ofList (x.name.toList.takeWhile isCommandChar)) = none ∧
      occurs "return".toList x.name.toList = false ∧ x.name.toList.all isBlank = false := by
  have hall : ∀ x ∈ all, x.name.toList.head? ≠ some '!' ∧ x.name.toList.head? ≠ some '?' ∧
      Command.ofName? (String.ofList (x.name.toList.takeWhile isCommandChar)) = none ∧
      occurs "return".toList x.name.toList = false ∧ x.name.toList.all isBlank = false := by
    decide +kernel
  exact hall x (mem_all x)

end Mnemonic

namespace Assignment

variable (s : Assignment)

theorem toList_text : s.text.toList = s.mnemonic.name.toList ++ ' ' :: (", ".intercalate s.operands).toList := by
  simp [text]

theorem space_mem_text : ' ' ∈ s.text.toList := by
  simp [toList_text]

theorem text_ne_empty : s.text ≠ "" := by
  intro hempty
  exact not_mem_nil (hempty ▸ s.space_mem_text)

theorem isBlankLine_text : isBlankLine s.text = false := by
  obtain ⟨-, -, -, -, hblank⟩ := s.mnemonic.name_typed
  rw [isBlankLine, toList_text, all_append, hblank, Bool.false_and]

theorem parse_text : ∃ argument, parse s.text = ⟨s.text, true, none, argument⟩ := by
  obtain ⟨hexclaim, hquestion, hcommand, -, hblank⟩ := s.mnemonic.name_typed
  have hne : s.mnemonic.name.toList ≠ [] := fun hnil => by simp [hnil] at hblank
  have hdrop : dropBoth isBlank s.text.toList = s.text.toList := by
    have h := @dropBoth_wording s.words s.isWording_words [] [] (by simp) (by simp)
    rwa [append_nil, ← s.text_eq] at h
  have hhead : s.text.toList.head? = s.mnemonic.name.toList.head? := by
    rw [s.toList_text, head?_append_of_ne_nil _ hne]
  have hword : s.text.toList.takeWhile isCommandChar = s.mnemonic.name.toList.takeWhile isCommandChar := by
    rw [s.toList_text, takeWhile_append, takeWhile_cons_of_neg (by decide), append_nil]
    split
    · rename_i hlen
      exact ( takeWhile_prefix _).eq_of_length hlen |>.symm
    · rfl
  have hparse := parse_eq hdrop (by rwa [hhead]) (by rwa [hhead])
  rw [hword, hcommand] at hparse
  exact ⟨_, hparse⟩

end Assignment

namespace Console

/-! ### One line -/

theorem outcome_machine {α : Type} (x : Act α) (src : Source) (k : Cursor) (st : Slots Site) (c : Console) :
    outcome (machine x) ⟨src, k, st, c⟩
      = ((outcome x c.store).1, ⟨src, k, st, { c with store := (outcome x c.store).2 }⟩) := by
  rcases hx : outcome x c.store with ⟨a, w⟩
  have hx' : x.run.run c.store = (a, w) := hx
  cases a <;> simp [machine, state, update, outcome_bind, Read.outcome_attempt, hx']

/-- The registers of the console. -/
def registers (c : Console) : Table String Value :=
  (c.store.frame c.frame).registers

/-- The registers of the console hold the values of a file, and the machine still does what it does from the
start. -/
structure Keeps (c : Console) (old : Table String Value) (written : List Nat) (ρ : Nat → Int) : Prop where
  table : c.store.table = firstTable
  operations : ∀ b, (c.store.action b).operation? = (initial.action b).operation?
  inBounds : c.frame < c.store.frames.size
  holds : Holds old c.registers written ρ

variable {c : Console} {old : Table String Value} {written : List Nat} {ρ : Nat → Int}

section

variable (h : c.Keeps old written ρ)

include h

section

variable (hs : s.IsReadable) (hreads : ∀ k ∈ s.reads, k ∈ written) (run : String → Step Unit)

include hs hreads

theorem Keeps.outcome_perform :
    ∃ w, ({ c with store := w } : Console).Keeps old (s.target :: written) (step ρ s) ∧
      ∀ src k st, outcome (perform run s.mnemonic.name (.texts s.operands)) ⟨src, k, st, c⟩
        = (.ok (), ⟨src, k, st, { c with store := w }⟩) := by
  obtain ⟨hlookup, hoperation, hknown⟩ := s.mnemonic.first_action
  obtain ⟨-, -, -, hreturn, -⟩ := s.mnemonic.name_typed
  have hop := (h.operations _).trans hoperation
  generalize LoadNode.firstAction s.mnemonic.name = a at hlookup hop
  let u : Store := c.store.started a c.frame
  let g : Frame → Frame := fun f => { f with
    registers := f.registers.set (registerName s.target) (.int (s.result ρ))
    loaded := f.loaded + 1 }
  let w : Store := { u with frames := c.store.frames.modify c.frame g }
  have hnamed : outcome (actionNamed (.text s.mnemonic.name)) c.store = (.ok a, c.store) := by
    rw [actionNamed, bind_ok _ (outcome_get _)]
    simp only [Datum.text?, Option.bind_some, h.table, hlookup]
    rfl
  have hdone : outcome (Store.perform Store.runner a c.frame (.texts s.operands)) c.store
      = (.ok (), u.withRegister c.frame s.target (.int (s.result ρ))) := by
    have hinfo : outcome (actionInfo a) u = (.ok (u.action a), u) := rfl
    rw [Store.perform, bind_ok _ (Store.outcome_start _ _ _), bind_ok u hinfo, (operation_started _ _ _ _).trans hop]
    dsimp only
    rw [s.spread_operands]
    exact s.outcome_operate hs (frame_action_started hop _) (fun k hk => h.holds.values k (hreads k hk)) _
  have hsteps : outcome (do
      let action ← actionNamed (.text s.mnemonic.name)
      Store.perform Store.runner action c.frame (.texts s.operands)
      updateFrame c.frame fun f => { f with loaded := f.loaded + 1 }) c.store = (.ok (), w) := by
    rw [bind_ok _ hnamed, bind_ok _ hdone, outcome_updateFrame, withRegister, modify_modify]
    rfl
  have hframe : w.frame c.frame = g (c.store.frame c.frame) :=
    frame_modify_self (w := c.store) (g := g) rfl h.inBounds
  refine ⟨w, ⟨h.table, fun b => (operation_started _ _ _ _).trans (h.operations b), ?_, ?_⟩, ?_⟩
  · rw [Array.size_modify]
    exact h.inBounds
  · rw [registers, hframe]
    exact h.holds.step s
  · intro src k st
    have hstate : outcome state ⟨src, k, st, c⟩ = (.ok c, ⟨src, k, st, c⟩) := rfl
    rw [perform, bind_ok _ hstate, if_pos hknown, hreturn]
    rw [outcome_bind, outcome_machine, hsteps]
    rfl

theorem Keeps.outcome_visit :
    ∃ w, ({ c with store := w } : Console).Keeps old (s.target :: written) (step ρ s) ∧
      ∀ src k st, ∃ k', outcome (visit ⟨scriptOptions, host run⟩ (.text s.text) (some .console)) ⟨src, k, st, c⟩
        = (.ok (), ⟨⟨[]⟩, k', .node .console :: st, { c with store := w }⟩) := by
  obtain ⟨w, hkeeps, hperform⟩ := h.outcome_perform hs hreads run
  refine ⟨w, hkeeps, fun src k st => ?_⟩
  have htell : ∀ src k, outcome (tell ⟨scriptOptions, host run⟩ s.event) ⟨src, k, .node .console :: st, c⟩
      = (.ok (), ⟨src, k, .node .console :: st, { c with store := w }⟩) := by
    intro src k
    have hdeliver : outcome (onConsole run s.event) ⟨src, k, .node .console :: st, c⟩
        = (.ok none, ⟨src, k, .node .console :: st, { c with store := w }⟩) :=
      bind_ok _ (hperform src k (.node .console :: st))
    exact bind_ok _ hdeliver
  obtain ⟨raw, hline⟩ := @outcome_readLine_row _ _ s.words [] [] s.text.toList [] ⟨scriptOptions, host run⟩
    s.isWording_words (by simp) (by simp) (.inr ⟨by simp [row, s.text_eq], rfl⟩) k (.node .console :: st) c
  obtain ⟨k', hstatement⟩ := s.ends_statement rfl rfl htell raw ⟨[]⟩
  refine ⟨k', ?_⟩
  rw [outcome_visit_text rfl s.text_ne_empty]
  exact outcome_readBody_of_last (hline.trans hstatement)

end

variable (hold : ∀ line : String, ' ' ∈ line.toList → old.get? line = none)

include hold

theorem Keeps.outcome_typed (hs : s.IsReadable)
    (hreads : ∀ k ∈ s.reads, k ∈ written) (files : Files) :
    ∃ w, ({ c with store := w, lastLine := s.text } : Console).Keeps old (s.target :: written) (step ρ s) ∧
      ∀ src k st, ∃ k', outcome (typed files s.text) ⟨src, k, st, c⟩
        = (.ok (), ⟨⟨[]⟩, k', .node .console :: st, { c with store := w, lastLine := s.text }⟩) := by
  let c₁ : Console := { c with lastLine := s.text }
  have h₁ : c₁.Keeps old written ρ := ⟨h.table, h.operations, h.inBounds, h.holds⟩
  obtain ⟨w, hkeeps, hvisit⟩ := h₁.outcome_visit hs hreads (runLine files (readerWithin files 99))
  refine ⟨w, hkeeps, fun src k st => ?_⟩
  obtain ⟨k', hvisit⟩ := hvisit src k st
  refine ⟨k', ?_⟩
  have hspace := s.space_mem_text
  have hempty : s.text.isEmpty = false := by simpa using s.text_ne_empty
  have hmark : (s.text == endMark) = false := by
    rw [beq_eq_false_iff_ne]
    intro heq
    exact absurd (heq ▸ hspace) (by decide)
  have hnone : (c₁.store.frame c₁.frame).registers.get? s.text = none := by
    refine (h₁.holds.others s.text fun k hk heq => ?_).trans (hold s.text hspace)
    exact absurd (mem_registerName (heq ▸ hspace)).1 (by decide)
  have hframe : outcome frameInfo ⟨src, k, st, c₁⟩ = (.ok (c₁.store.frame c₁.frame), ⟨src, k, st, c₁⟩) := rfl
  have hread : outcome (readTyped (reader files) s.text) ⟨src, k, st, c₁⟩
      = (.ok (), ⟨⟨[]⟩, k', .node .console :: st, { c₁ with store := w }⟩) := by
    rw [readTyped, hmark, if_neg Bool.false_ne_true, bind_ok _ hframe, hnone]
    rw [outcome_tryCatch]
    have hvisit' : outcome ((reader files).visit (.text s.text) (some .console)) ⟨src, k, st, c₁⟩
      = (.ok (), ⟨⟨[]⟩, k', .node .console :: st, { c₁ with store := w }⟩) := hvisit
    rw [hvisit']
  obtain ⟨argument, hparse⟩ := s.parse_text
  rw [typed, hempty, if_neg Bool.false_ne_true, runLine, s.isBlankLine_text, if_neg Bool.false_ne_true, runRequest,
    hparse]
  rw [if_pos rfl, hmark, if_neg Bool.false_ne_true]
  exact hread

/-! ### Lines one after another -/

theorem Keeps.outcome_typing {code : List Assignment}
    (hreadable : ∀ s ∈ code, s.IsReadable) (hwritten : WrittenFirst written code) (files : Files)
    (src : Source) (k : Cursor) (st : Slots Site) :
    ∃ t, outcome (code.forM fun s => typed files s.text) ⟨src, k, st, c⟩ = (.ok (), t) ∧
      t.world.Keeps old ((code.map target).reverse ++ written) (code.foldl step ρ) ∧
      t.world.output = c.output := by
  induction code generalizing c written ρ src k st with
  | nil => exact ⟨_, rfl, h, rfl⟩
  | cons s code ih =>
    obtain ⟨hreads, hwritten⟩ := hwritten
    obtain ⟨w, hkeeps, htyped⟩ := h.outcome_typed hold (hreadable s mem_cons_self) hreads files
    obtain ⟨k', htyped⟩ := htyped src k st
    obtain ⟨t, hrest, ht, hprinted⟩ := ih hkeeps (fun x hx => hreadable x (mem_cons_of_mem _ hx)) hwritten
      ⟨[]⟩ k' (.node .console :: st)
    refine ⟨t, ?_, by simpa using ht, hprinted⟩
    exact (bind_ok _ htyped).trans hrest

end

theorem keeps_start (readsOnce : Bool) :
    (start readsOnce).world.Keeps (start readsOnce).world.registers [] fun _ => 0 := by
  cases readsOnce <;> exact ⟨rfl, fun _ => rfl, Nat.one_pos, .refl _ _⟩

theorem get?_registers_start (readsOnce : Bool) (hline : ' ' ∈ line.toList) :
    (start readsOnce).world.registers.get? line = none := by
  have hregisters : (start readsOnce).world.registers = [(rootRegister, .object 0)] := by
    cases readsOnce <;> rfl
  have hne : line ≠ rootRegister := by
    rintro rfl
    exact absurd hline (by decide)
  rw [hregisters]
  simp [Table.get?, hne]

end Console

namespace StraightClass

/-- **Straight-line code is executed faithfully.** Let no numeral of the code be too long, and let every
register be written before it is read. Then a static method with this code and the return of a register that
was written, loaded from its source into a new machine, gives the value of that register in the fold, at every
one of any number of calls. And typing the lines of the code at a new console leaves the values of the fold in
the registers that were written, changes no other register, and prints nothing. -/
theorem executed_faithfully {code : List Assignment} (hreadable : ∀ s ∈ code, s.IsReadable)
    (hwritten : WrittenFirst [] code) :
    (∀ x : StraightClass, x.code = code → x.returned ∈ code.map target →
      ∀ (strict traced init : Bool) (insts : List Value),
        (outcome (callsLoaded strict traced init x.text x.signature insts) ⟨⟨[]⟩, .start, [], .initial⟩).1
          = .ok (insts.map fun _ => .int (run code x.returned))) ∧
      ∀ (files : Files) (readsOnce : Bool), ∃ t,
        outcome (code.forM fun s => typed files s.text) (start readsOnce) = (.ok (), t) ∧
          Holds (start readsOnce).world.registers t.world.registers (code.map target) (run code) ∧
          t.world.output = "" := by
  constructor
  · rintro x rfl hreturned strict traced init insts
    have hvalue : x.HasValue := ⟨hreadable, hwritten, hreturned⟩
    exact hvalue.outcome_callsLoaded strict traced init insts
  · intro files readsOnce
    obtain ⟨t, htyped, hkeeps, hprinted⟩ := (keeps_start readsOnce).outcome_typing
      (fun _ hline => get?_registers_start readsOnce hline) hreadable hwritten files ⟨[]⟩ .start []
    refine ⟨t, htyped, hkeeps.holds.of_mem_iff (by simp), hprinted.trans ?_⟩
    cases readsOnce <;> rfl

/-- A class with some code in its only method, which is static and returns a number. -/
def ofCode (code : List Assignment) (returned : Nat) : StraightClass where
  modifiers := ⟨["public"], by decide⟩
  name := ⟨"LT;", by decide +kernel⟩
  methodModifiers := ⟨["public", "static"], by decide⟩
  method := ⟨"a", by decide⟩
  result := ⟨"I", by decide +kernel⟩
  locals := ⟨1, by decide +kernel⟩
  code := code
  returned := returned
  static := by decide
  concrete := by decide

/-- A decimal numeral with zeros in front of its only other digit, which is a seven. -/
def paddedSeven (zeros : Nat) : WrittenInteger where
  sign := .none
  hexadecimal := false
  digits := replicate zeros ⟨0, false, by decide⟩ ++ [⟨7, false, by decide⟩]
  mark := .none
  ne_nil := by simp
  fits := by
    intro _ d hd
    rcases mem_append.mp hd with hd | hd
    · simp [eq_of_mem_replicate hd]
    · simp [mem_singleton.mp hd]

theorem value_paddedSeven (zeros : Nat) : (paddedSeven zeros).value = 7 := by
  have hzeros : Nat.ofDigits 10 (replicate zeros 0) = 0 := by
    induction zeros with
    | zero => rfl
    | succ zeros ih => rw [replicate_succ, Nat.ofDigits_cons, ih]
  have hvalue : Nat.ofDigits (paddedSeven zeros).base ((paddedSeven zeros).digits.map Digit.value).reverse = 7 := by
    simp [paddedSeven, WrittenInteger.base, Nat.ofDigits_cons, hzeros]
  rw [WrittenInteger.value, hvalue]
  rfl

theorem isReadable_paddedSeven (zeros : Nat) : (paddedSeven zeros).IsReadable ↔ zeros < Number.longestDecimal := by
  simp [WrittenInteger.IsReadable, paddedSeven]

/-- Seven times the complement of seven is computed, twice by a method and once at the console. -/
theorem executed_faithfully_seven : (outcome (callsLoaded false false true
        (".class public LT;\n.method public static a()I\n.locals 1\nconst/4 v0, 07\nnot-int v1, v0\n" ++
          "mul-int/2addr v1, v0\nreturn v1\n.end method") "a()I" [.null, .null])
      ⟨⟨[]⟩, .start, [], .initial⟩).1 = .ok [.int (-56), .int (-56)] ∧
    ∃ t, outcome (["const/4 v0, 07", "not-int v1, v0", "mul-int/2addr v1, v0"].forM
        (typed fun _ => none)) (start true) = (.ok (), t) ∧
      t.world.registers.get? "v1" = some (.int (-56)) := by
  have hreadable : ∀ s ∈ [.const .four 0 (paddedSeven 1), .complement 1 0, .combineInPlace .mul 1 0], IsReadable s := by
    decide +kernel
  have hwritten : WrittenFirst [] [.const .four 0 (paddedSeven 1), .complement 1 0, .combineInPlace .mul 1 0] := by
    decide
  obtain ⟨hcalls, htyping⟩ := executed_faithfully hreadable hwritten
  constructor
  · exact hcalls (ofCode _ 1) rfl (by decide) false false true [.null, .null]
  · obtain ⟨t, htyped, hholds, -⟩ := htyping (fun _ => none) true
    exact ⟨t, htyped, hholds.values 1 (by decide)⟩

/-- A constant of seven with so many zeros in front of it that the numeral is one digit too long ends the call
of its method in a fault. -/
theorem padded_seven_refused : run [.const .full 0 (paddedSeven Number.longestDecimal)] 0 = 7 ∧
      (outcome (callsLoaded false false true
          (ofCode [.const .full 0 (paddedSeven Number.longestDecimal)] 0).text "a()I" [.null])
        ⟨⟨[]⟩, .start, [], .initial⟩).1 = .error .numeral := by
  constructor
  · exact value_paddedSeven _
  · obtain ⟨w, hloaded, hcalls⟩ := @outcome_callsLoaded
      (ofCode [.const .full 0 (paddedSeven Number.longestDecimal)] 0) false false true
      (fun _ h => absurd h (by decide)) [.null]
    have hlong : ¬ (paddedSeven Number.longestDecimal).IsReadable := by
      rw [isReadable_paddedSeven]
      exact Nat.lt_irrefl _
    have hcall := hloaded.method.outcome_callOn_of_long hlong .null
    refine hcalls.trans ?_
    rcases houtcome : outcome (callOn runner 0 (.method 0) ⟨.null, [], []⟩) w with ⟨res, w'⟩
    rw [houtcome] at hcall
    obtain rfl : res = .error .numeral := hcall
    rw [mapM_cons, bind_error w houtcome]

end StraightClass

end Dalvik
