import Dalvik.Proofs.Correspondence
import Dalvik.Proofs.Fidelity
import Dalvik.Proofs.Typing
import Mathlib.Data.List.DropRight

/-!
# What a line does at the console

A line is read at the console in a script, or it is typed. The two differ in the source around the line, in the
constructs that are open below the console, in whether a script is being read, and in the line that a blank one
repeats. None of this is looked at by the commands other than the one that reads a file, by the steps of the
machine, or by what is printed: such steps are common to all consoles that are alike (`Console.Common`). So the
statement on a line is level at two consoles (`Console.opensAt_statement`), unless its first word is a command.
-/

namespace Dalvik

open Dalvik.Text Opcode Reader List LoadNode

variable {e : Event} {w : String} {ws : List String} {name flags type : Datum} (cmd : Command)

namespace Console

variable {α β : Type}

/-! ### Consoles that are alike -/

/-- The consoles differ at most in whether a script is being read, in the files that count as read, and in the line
that a blank one repeats. -/
structure Alike (c d : Console) : Prop where
  store : d.store = c.store
  vm : d.vm = c.vm
  rootClass : d.rootClass = c.rootClass
  root : d.root = c.root
  frame : d.frame = c.frame
  readsOnce : d.readsOnce = c.readsOnce
  output : d.output = c.output

/-- The console after steps of the machine and of the printer. -/
def put (c : Console) (w : Store) (out : String) : Console :=
  { c with store := w, output := out }

namespace Alike

variable {c d : Console}

theorem refl (c : Console) : Alike c c := ⟨rfl, rfl, rfl, rfl, rfl, rfl, rfl⟩

theorem put (h : Alike c d) (w : Store) (out : String) : Alike (c.put w out) (d.put w out) :=
  { h with store := rfl, output := rfl }

theorem put_eq (h : Alike c d) : d.put c.store c.output = d := by
  rw [Console.put, ← h.store, ← h.output]

theorem eq (h : Alike c d) (himporting : d.importing = c.importing) (himported : d.imported = c.imported)
    (hlast : d.lastLine = c.lastLine) : d = c := by
  obtain ⟨⟩ := d
  obtain ⟨⟩ := h
  simp_all

end Alike

/-- The session after steps of the machine and of the printer. -/
def ran (s : Session Site Console) (w : Store) (out : String) : Session Site Console :=
  { s with world := s.world.put w out }

/-- Two steps that only use the machine and the printer, and use them in the same way at consoles that are alike. -/
def Common (x y : Step α) : Prop :=
  ∀ s t, Alike s.world t.world → ∃ res w out, outcome x s = (res, ran s w out) ∧ outcome y t = (res, ran t w out)

theorem common_attempt (x : Except Fault α) : Common (Read.attempt x) (Read.attempt x) := by
  intro s t h
  refine ⟨x, s.world.store, s.world.output, rfl, ?_⟩
  rw [ran, h.put_eq]
  rfl

theorem common_pure (a : α) : Common (pure a) (pure a) := common_attempt (.ok a)

theorem common_throw (f : Fault) : Common (throw f : Step α) (throw f) := common_attempt (.error f)

theorem Common.bind {x y : Step α} {k j : α → Step β} (hx : Common x y) (hk : ∀ a, Common (k a) (j a)) :
    Common (x >>= k) (y >>= j) := by
  intro s t h
  obtain ⟨res, w, out, hs, ht⟩ := hx s t h
  cases res with
  | ok a =>
    obtain ⟨res, w', out', hs', ht'⟩ := hk a (ran s w out) (ran t w out) (h.put w out)
    exact ⟨res, w', out', (bind_ok s hs).trans hs', (bind_ok t ht).trans ht'⟩
  | error f => exact ⟨.error f, w, out, bind_error s hs, bind_error t ht⟩

theorem common_state_bind {k j : Console → Step α} (hk : ∀ c d, Alike c d → Common (k c) (j d)) :
    Common (state >>= k) (state >>= j) :=
  fun s t h => hk s.world t.world h s t h

theorem common_ite {p : Prop} [Decidable p] {x y x' y' : Step α} (hx : p → Common x x') (hy : ¬p → Common y y') :
    Common (if p then x else y) (if p then x' else y') := by
  split
  · exact hx ‹p›
  · exact hy ‹¬p›

theorem common_machine (x : Store.Act α) : Common (machine x) (machine x) := by
  intro s t h
  refine ⟨(outcome x s.world.store).1, (outcome x s.world.store).2, s.world.output, outcome_machine x _ _ _ _, ?_⟩
  have ht := outcome_machine x t.source t.cursor t.stack t.world
  rw [h.store] at ht
  refine ht.trans ?_
  rw [ran, put, ← h.output]

theorem common_write (text : String) : Common (write text) (write text) := by
  intro s t h
  refine ⟨.ok (), s.world.store, s.world.output ++ text, rfl, ?_⟩
  rw [ran, ← h.store, ← h.output]
  rfl

theorem common_print (text : String) : Common (print text) (print text) := common_write _

theorem common_frameInfo : Common frameInfo frameInfo := by
  refine common_state_bind fun c d h => ?_
  rw [h.frame]
  exact common_machine _

/-! ### Commands -/

theorem common_runCommand {cmd : Command} (hcmd : cmd ≠ .fetch) (argument : String) (files files' : Files)
    (r r' : Reader Site Console) :
    Common (runCommand files r argument cmd) (runCommand files' r' argument cmd) := by
  cases cmd with
  | copyright => exact common_print _
  | del =>
    refine common_ite (fun _ => common_print _) fun _ => ?_
    refine common_state_bind fun c d h => ?_
    rw [h.frame]
    exact common_machine _
  | exit => exact common_throw _
  | fields =>
    refine common_state_bind fun c d h => ?_
    rw [h.rootClass]
    exact (common_machine _).bind fun _ => common_print _
  | help => exact common_print _
  | fetch => exact absurd rfl hcmd
  | label => exact common_frameInfo.bind fun _ => common_print _
  | vars => exact common_frameInfo.bind fun _ => (common_machine _).bind fun _ => common_print _

/-! ### Events -/

/-- What a return is performed as. -/
def returnName (variant : Datum) : String :=
  if variant.holds then "return-" ++ variant.plain else "return"

/-- What a call is performed as. -/
def callName (variant : Datum) : String :=
  if variant.holds then "invoke-" ++ variant.plain else "invoke"

/-- Whether the console deals with an event itself, without a further line. -/
def dealsWith : Event → Bool
  | .label _ | .jump _ | .trailing _ | .close | .field .. => true
  | .instruction name _ => isKnown name.plain
  | .ret variant _ => isKnown (returnName variant)
  | .call variant _ _ _ => isKnown (callName variant)
  | _ => false

theorem common_perform {name : String} (hname : isKnown name = true) (operands : Datum)
    (run run' : String → Step Unit) : Common (perform run name operands) (perform run' name operands) := by
  refine common_state_bind fun c d h => ?_
  rw [if_pos hname, if_pos hname, h.frame]
  exact (common_machine _).bind fun _ =>
    common_ite (fun _ => (common_machine _).bind fun _ => common_print _) fun _ => common_pure _

theorem common_setRootField (name : String) (flags : Datum) (value? : Option Datum) :
    Common (setRootField name flags value?) (setRootField name flags value?) := by
  refine common_state_bind fun c d h => ?_
  rw [h.root]
  split
  · exact common_pure _
  · exact common_ite (fun _ => common_pure _) fun _ => common_machine _
  · exact common_pure _

theorem common_onConsole (he : dealsWith e = true) (run run' : String → Step Unit) :
    Common (onConsole run e) (onConsole run' e) := by
  cases e with
  | label name =>
    refine common_state_bind fun c d h => ?_
    rw [h.frame]
    exact (common_machine _).bind fun _ => common_pure _
  | jump _ | trailing _ | close => exact common_pure _
  | instruction name operands => exact (common_perform he operands run run').bind fun _ => common_pure _
  | ret variant operands => exact (common_perform he operands run run').bind fun _ => common_pure _
  | call variant operands owner target => exact (common_perform he _ run run').bind fun _ => common_pure _
  | field name flags type value? =>
    refine common_state_bind fun c d h => ?_
    rw [h.rootClass]
    exact (common_machine _).bind fun _ => (common_setRootField _ _ _).bind fun _ => common_pure _
  | _ => cases he

/-- The reader of a console that runs further lines in some way. -/
def readerFor (run : String → Step Unit) : Reader Site Console := ⟨scriptOptions, host run⟩

theorem common_sendTo (slot : Slot Site) (he : slot = .node .console → dealsWith e = true)
    (run run' : String → Step Unit) :
    Common ((readerFor run).sendTo slot e) ((readerFor run').sendTo slot e) := by
  refine Common.bind ?_ fun _ => ?_
  · exact common_ite (fun _ => common_pure _) fun _ => common_throw _
  · cases slot with
    | absent | blank shape => exact common_pure _
    | node site =>
      cases site with
      | console => exact common_onConsole (he rfl) run run'
      | loading n => exact (common_machine _).bind fun _ => common_pure _

end Console

/-! ### Instructions -/

/-- The same place on a line whose text was another before the white space around it was dropped. -/
def Cursor.withRaw (raw : String → String) (k : Cursor) : Cursor :=
  { k with line? := k.line?.map fun l => { l with raw := raw l.raw } }

/-- The same session at a line whose text was another before the white space around it was dropped. -/
def Session.withRaw {ν σ : Type} (raw : String → String) (s : Session ν σ) : Session ν σ :=
  { s with cursor := s.cursor.withRaw raw }

theorem Cursor.withRaw_id (k : Cursor) : k.withRaw id = k := by
  obtain ⟨line?, ws⟩ := k
  cases line? <;> rfl

namespace Reader

open Read

variable {ν σ ν' σ' : Type}

/-- Passes an instruction; the result is the event to be told. -/
def instructionEvent (r : Reader ν σ) : Read ν σ Event := do
  let name ← nextWord
  if "invoke".toList.isPrefixOf name.toList then
    let registers ← braced
    let (owner, method) ← attempt (halves "->" (← lastWord))
    r.checkDescriptor owner
    pure (.call (.text (variantOf name)) (.texts registers) (.text owner) (.text method))
  else if "return".toList.isPrefixOf name.toList then
    let xs ← operands (· == ',')
    pure (.ret (.text (variantOf name)) (.texts xs))
  else if name == "goto" then
    let target := labelName (← peekWord)
    pure (.jump (.text target))
  else
    let xs ← operands (· == ',')
    pure (.instruction (.text name) (.texts xs))

theorem instruction_eq (r : Reader ν σ) :
    r.instruction = r.unlessMuted (r.instructionEvent >>= fun e => r.tell e >>= fun _ => r.publishComment) := by
  unfold instruction instructionEvent
  congr 1
  rw [bind_assoc]
  congr 1
  funext name
  split
  · simp only [bind_assoc, pure_bind]
  · split
    · simp only [bind_assoc, pure_bind]
    · split <;> simp only [bind_assoc, pure_bind]

/-- Tells a field whose line was passed, and opens it. -/
def tellField (r : Reader ν σ) (name type : String) (flags value : Datum) : Read ν σ Unit := do
  if (← top).isAbsent then
    push (.blank .field)
    r.copyLine
  else
    let node? ← r.send (.field (.text name) flags (.text type) (some value))
    r.publishComment
    push (.orBlank .field node?)
    if node?.isNone then r.copyLine

theorem parallel_instructionEvent {r : Reader ν σ} {r' : Reader ν' σ'} (h : r'.options = r.options) :
    Parallel r.instructionEvent r'.instructionEvent := by
  refine parallel_nextWord.bind fun name => ?_
  split
  · refine parallel_braced.bind fun registers => parallel_lastWord.bind fun last => ?_
    refine (parallel_halves _ _).bind fun target => ?_
    exact (parallel_checkDescriptor h _).bind fun _ => parallel_pure _
  · split
    · exact (parallel_operands _).bind fun _ => parallel_pure _
    · split
      · exact parallel_peekWord.bind fun _ => parallel_pure _
      · exact (parallel_operands _).bind fun _ => parallel_pure _

/-! ### The text of a line with the white space in front of it -/

/-- Steps that do not look at the text of the current line as it was before the white space was dropped. -/
def IgnoresRaw {α : Type} (x : Read ν σ α) : Prop :=
  ∀ raw s, outcome x (s.withRaw raw) = ((outcome x s).1, (outcome x s).2.withRaw raw)

section IgnoresRaw

variable {α β : Type}

theorem ignoresRaw_attempt (x : Except Fault α) : IgnoresRaw (attempt x : Read ν σ α) := fun _ _ => rfl

theorem IgnoresRaw.bind {x : Read ν σ α} {k : α → Read ν σ β} (hx : IgnoresRaw x) (hk : ∀ a, IgnoresRaw (k a)) :
    IgnoresRaw (x >>= k) := by
  intro raw s
  rw [outcome_bind, outcome_bind, hx raw s]
  rcases outcome x s with ⟨res, t⟩
  cases res with
  | ok a => exact hk a raw t
  | error f => rfl

theorem ignoresRaw_nextWord : IgnoresRaw (nextWord : Read ν σ String) := by
  rintro raw ⟨src, ⟨line?, ws⟩, st, d⟩
  cases ws <;> rfl

theorem ignoresRaw_peekWord : IgnoresRaw (peekWord : Read ν σ String) := by
  rintro raw ⟨src, ⟨line?, ws⟩, st, d⟩
  cases ws <;> rfl

theorem ignoresRaw_hasWord : IgnoresRaw (hasWord : Read ν σ Bool) := fun _ _ => rfl

theorem ignoresRaw_lastWord : IgnoresRaw (lastWord : Read ν σ String) := by
  rintro raw ⟨src, ⟨line?, ws⟩, st, d⟩
  cases line? <;> rfl

theorem ignoresRaw_cleaned : IgnoresRaw (cleaned : Read ν σ (List Char)) := by
  rintro raw ⟨src, ⟨line?, ws⟩, st, d⟩
  cases line? <;> rfl

theorem ignoresRaw_firstChar (w : String) : IgnoresRaw (firstChar w : Read ν σ Char) := by
  unfold firstChar
  split
  · exact ignoresRaw_attempt (.ok _)
  · exact ignoresRaw_attempt (.error _)

theorem ignoresRaw_accessFlags : IgnoresRaw (accessFlags : Read ν σ Datum) := by
  rintro raw ⟨src, ⟨line?, ws⟩, st, d⟩
  rw [accessFlags, bind_ok _ (outcome_get _), bind_ok _ (outcome_get _)]
  dsimp only [Session.withRaw, Cursor.withRaw]
  rcases splitAccess ws with _ | ⟨ks, rest⟩ <;> rfl

theorem ignoresRaw_operands (strip : Char → Bool) : IgnoresRaw (operands strip : Read ν σ (List String)) := by
  rintro raw ⟨src, ⟨line?, ws⟩, st, d⟩
  rw [operands, bind_ok _ (outcome_get _), bind_ok _ (outcome_get _)]
  dsimp only [Session.withRaw, Cursor.withRaw]
  cases operandsIn strip ws <;> rfl

variable (r : Reader ν σ)

theorem ignoresRaw_checkDescriptor (w : String) : IgnoresRaw (r.checkDescriptor w) := by
  unfold checkDescriptor
  split
  · exact ignoresRaw_attempt (.error _)
  · exact ignoresRaw_attempt (.ok _)

theorem ignoresRaw_passKeyword (k : Keyword) : IgnoresRaw (r.passKeyword k) := by
  refine ignoresRaw_nextWord.bind fun w => ?_
  unfold checkKeyword
  split
  · refine (ignoresRaw_firstChar w).bind fun c => ?_
    dsimp only
    split
    · exact ignoresRaw_attempt (.error _)
    · split
      · exact ignoresRaw_attempt (.error _)
      · exact ignoresRaw_attempt (.ok _)
  · exact ignoresRaw_attempt (.ok _)

theorem ignoresRaw_instructionEvent : IgnoresRaw r.instructionEvent := by
  refine ignoresRaw_nextWord.bind fun name => ?_
  split
  · refine (ignoresRaw_cleaned.bind fun _ => ignoresRaw_attempt (.ok _)).bind fun registers => ?_
    refine ignoresRaw_lastWord.bind fun last => (ignoresRaw_attempt _).bind fun target => ?_
    exact (ignoresRaw_checkDescriptor r _).bind fun _ => ignoresRaw_attempt (.ok _)
  · split
    · exact (ignoresRaw_operands _).bind fun _ => ignoresRaw_attempt (.ok _)
    · split
      · exact ignoresRaw_peekWord.bind fun _ => ignoresRaw_attempt (.ok _)
      · exact (ignoresRaw_operands _).bind fun _ => ignoresRaw_attempt (.ok _)

end IgnoresRaw

/-- The event of an instruction whose first word is known. -/
inductive Voices (w : String) (ws : List String) : Event → Prop
  | call (h : "invoke".toList.isPrefixOf w.toList = true) (registers owner target : Datum) :
    Voices w ws (.call (.text (variantOf w)) registers owner target)
  | ret (h : "return".toList.isPrefixOf w.toList = true) (xs : Datum) : Voices w ws (.ret (.text (variantOf w)) xs)
  | jump (h : w = "goto") (target : Datum) : Voices w ws (.jump target)
  | plain {xs : List String} (h : operandsIn (· == ',') ws = some xs) : Voices w ws (.instruction (.text w) (.texts xs))

theorem operands_ok {strip : Char → Bool} {xs : List String} {s t : Session ν σ}
    (h : outcome (operands strip) s = (.ok xs, t)) : operandsIn strip s.cursor.pending = some xs := by
  unfold operands at h
  rw [outcome_bind, outcome_get] at h
  dsimp only at h
  split at h
  · rename_i ys hys
    cases h
    exact hys
  · cases h

theorem instructionEvent_ok {r : Reader ν σ} {src : Source} {line? : Option Line} {st : Slots ν} {d : σ}
    {t : Session ν σ} (h : outcome r.instructionEvent ⟨src, ⟨line?, w :: ws⟩, st, d⟩ = (.ok e, t)) : Voices w ws e := by
  rw [instructionEvent, bind_ok _ (outcome_nextWord _ _ _ _ _ _)] at h
  split at h
  · rename_i hinvoke
    obtain ⟨registers, s₁, -, h⟩ := outcome_bind_eq_ok _ h
    obtain ⟨last, s₂, -, h⟩ := outcome_bind_eq_ok _ h
    obtain ⟨target, s₃, -, h⟩ := outcome_bind_eq_ok _ h
    obtain ⟨-, s₄, -, h⟩ := outcome_bind_eq_ok _ h
    cases h
    exact .call hinvoke _ _ _
  · split at h
    · rename_i hreturn
      obtain ⟨xs, s₁, -, h⟩ := outcome_bind_eq_ok _ h
      cases h
      exact .ret hreturn _
    · split at h
      · rename_i hgoto
        obtain ⟨target, s₁, -, h⟩ := outcome_bind_eq_ok _ h
        cases h
        exact .jump (by simpa using hgoto) _
      · obtain ⟨xs, s₁, hxs, h⟩ := outcome_bind_eq_ok _ h
        cases h
        exact .plain (operands_ok hxs)

end Reader

namespace Console

open Read Reader

variable {α β : Type} {run run' : String → Step Unit}
variable {x y : Step α} {tops : Slots Site} {c d : Console}

/-! ### Statements -/

/-- The console is the innermost construct. -/
abbrev atPrompt (st : Slots Site) : Slots Site := .node .console :: st

/-- Two steps that do the same where the console is the innermost construct and the place on the line is the same,
but for white space in front of it: they move on the line, and use the machine and the printer. -/
def Level (x y : Step α) : Prop :=
  ∀ raw src src' k st st' c d, Alike c d → ∃ res k' w out,
    outcome x ⟨src, k, .node .console :: st, c⟩ = (res, ⟨src, k', .node .console :: st, c.put w out⟩) ∧
      outcome y ⟨src', k.withRaw raw, .node .console :: st', d⟩
        = (res, ⟨src', k'.withRaw raw, .node .console :: st', d.put w out⟩)

/-- What may stand before the console on the stack: a field, or nothing. -/
def IsFresh (tops : List (Slot Site)) : Prop :=
  tops = [] ∨ ∃ i, tops = [.node (.loading (.field i))]

/-- A field is open behind its definition, unless that ended in a fault. -/
def FieldTops : Except Fault Unit → List (Slot Site) → Prop
  | .ok _, tops => ∃ i, tops = [.node (.loading (.field i))]
  | .error _, tops => tops = []

/-- What is open behind a statement that opens with a word. -/
def StatementTops (w : String) (res : Except Fault Unit) (tops : List (Slot Site)) : Prop :=
  if w = ".field" then FieldTops res tops else tops = []

theorem StatementTops.isFresh {res : Except Fault Unit} (h : StatementTops w res tops) : IsFresh tops := by
  unfold StatementTops at h
  split at h
  · cases res with
    | ok _ => exact .inr h
    | error _ => exact .inl h
  · exact .inl h

/-- Two steps do the same at a place on the line where the console is the innermost construct; what they leave open
before it has a property. -/
def OpensAt (q : Except Fault Unit → List (Slot Site) → Prop) (x y : Step Unit) (raw : String → String)
    (src src' : Source) (k : Cursor) (st st' : List (Slot Site)) (c d : Console) : Prop :=
  ∃ res k' tops w out, q res tops ∧
    outcome x ⟨src, k, .node .console :: st, c⟩ = (res, ⟨src, k', tops ++ .node .console :: st, c.put w out⟩) ∧
      outcome y ⟨src', k.withRaw raw, .node .console :: st', d⟩
        = (res, ⟨src', k'.withRaw raw, tops ++ .node .console :: st', d.put w out⟩)

/-- Two steps that define a field, and do the same wherever the console is the innermost construct. -/
def Opens (x y : Step Unit) : Prop :=
  ∀ raw src src' k st st' c d, Alike c d → OpensAt FieldTops x y raw src src' k st st' c d

namespace Level

theorem of_parallel (h : Parallel x y) (hx : IgnoresRaw x) : Level x y := by
  intro raw src src' k st st' c d hcd
  obtain ⟨g, hg, hg', -⟩ := h
  have hmoved : g (k.withRaw raw) = ((g k).1, (g k).2.withRaw raw) := by
    have hraw := hx raw ⟨src, k, atPrompt st, c⟩
    rw [hg, hg] at hraw
    obtain ⟨hres, hcursor⟩ := Prod.mk.inj hraw
    exact Prod.ext hres (congrArg Session.cursor hcursor)
  refine ⟨(g k).1, (g k).2, c.store, c.output, hg _, ?_⟩
  rw [hcd.put_eq, hg', hmoved]

theorem of_common (h : Common x y) : Level x y := by
  intro raw src src' k st st' c d hcd
  obtain ⟨res, w, out, hs, ht⟩ :=
    h ⟨src, k, atPrompt st, c⟩ ⟨src', k.withRaw raw, atPrompt st', d⟩ hcd
  exact ⟨res, k, w, out, hs, ht⟩

theorem bind {k j : α → Step β} (hx : Level x y) (hk : ∀ a, Level (k a) (j a)) : Level (x >>= k) (y >>= j) := by
  intro raw src src' cur st st' c d hcd
  obtain ⟨res, cur', w, out, hs, ht⟩ := hx raw src src' cur st st' c d hcd
  cases res with
  | error f => exact ⟨.error f, cur', w, out, bind_error _ hs, bind_error _ ht⟩
  | ok a =>
    obtain ⟨res, cur'', w', out', hs', ht'⟩ := hk a raw src src' cur' st st' _ _ (hcd.put w out)
    exact ⟨res, cur'', w', out', (bind_ok _ hs).trans hs', (bind_ok _ ht).trans ht'⟩

theorem top_bind {k j : Slot Site → Step α} (h : Level (k (.node .console)) (j (.node .console))) :
    Level (top >>= k) (top >>= j) :=
  fun raw src src' cur st st' c d hcd => h raw src src' cur st st' c d hcd

theorem bind_opens {q : α → Prop} {k j : α → Step Unit} (hx : Level x y) (hq : ∀ s a t, outcome x s = (.ok a, t) → q a)
    (hk : ∀ a, q a → Opens (k a) (j a)) :
    Opens (x >>= k) (y >>= j) := by
  intro raw src src' cur st st' c d hcd
  obtain ⟨res, cur', w, out, hs, ht⟩ := hx raw src src' cur st st' c d hcd
  cases res with
  | error f => exact ⟨.error f, cur', [], w, out, rfl, bind_error _ hs, bind_error _ ht⟩
  | ok a =>
    obtain ⟨res, cur'', tops, w', out', hfresh, hs', ht'⟩ :=
      hk a (hq _ _ _ hs) raw src src' cur' st st' _ _ (hcd.put w out)
    exact ⟨res, cur'', tops, w', out', hfresh, (bind_ok _ hs).trans hs', (bind_ok _ ht).trans ht'⟩

end Level

theorem level_pure (a : α) : Level (pure a) (pure a) := .of_common (common_pure a)

theorem level_send (he : dealsWith e = true) : Level ((readerFor run).send e) ((readerFor run').send e) :=
  .top_bind (.of_common (common_sendTo _ (fun _ => he) run run'))

theorem level_throw (f : Fault) : Level (throw f : Step α) (throw f) := .of_common (common_throw f)

/-- What is done with the comment of a line, if there is one. -/
def said (comment? : Option String) (run : String → Step Unit) : Step Unit :=
  match comment? with
  | none => pure ()
  | some text => (readerFor run).sendTo (.node .console) (.trailing (.text text)) >>= fun _ => pure ()

theorem level_publishComment : Level (readerFor run).publishComment (readerFor run').publishComment := by
  have hsaid : ∀ comment?, Level (said comment? run) (said comment? run') := by
    intro comment?
    cases comment? with
    | none => exact level_pure _
    | some text => exact (Level.of_common (common_sendTo _ (fun _ => rfl) run run')).bind fun _ => level_pure _
  have hread : ∀ (run : String → Step Unit) src l ws st c,
      outcome (readerFor run).publishComment ⟨src, ⟨some l, ws⟩, atPrompt st, c⟩
        = outcome (said l.comment? run) ⟨src, ⟨some l, ws⟩, atPrompt st, c⟩ := by
    intro run src l ws st c
    rw [publishComment, bind_ok _ (outcome_currentLine _ _ _ _ _)]
    cases l.comment? <;> rfl
  rintro raw src src' ⟨line?, ws⟩ st st' c d hcd
  cases line? with
  | none => exact level_throw .noOperation raw src src' ⟨none, ws⟩ st st' c d hcd
  | some l =>
    have hlevel := hsaid l.comment? raw src src' ⟨some l, ws⟩ st st' c d hcd
    have hs := hread run src l ws st c
    have ht := hread run' src' { l with raw := raw l.raw } ws st' d
    rw [hs]
    exact ht ▸ hlevel

theorem level_tell {e : Event} (he : dealsWith e = true) : Level
    ((readerFor run).tell e >>= fun _ => (readerFor run).publishComment)
    ((readerFor run').tell e >>= fun _ => (readerFor run').publishComment) :=
  ((level_send he).bind fun _ => level_pure _).bind fun _ => level_publishComment

theorem Opens.atLineEnd {x y : Step Unit} (h : Opens x y) :
    Opens ((readerFor run).atLineEnd x) ((readerFor run').atLineEnd y) := by
  intro raw src src' k st st' c d hcd
  obtain ⟨res, k', tops, w, out, hfresh, hs, ht⟩ := h raw src src' k st st' c d hcd
  cases res with
  | ok a =>
    refine ⟨.ok a, k', tops, w, out, hfresh, ?_, ?_⟩
    · rw [Reader.atLineEnd, outcome_tryCatch, hs]
    · rw [Reader.atLineEnd, outcome_tryCatch, ht]
  | error f =>
    refine ⟨.error (if f = .lineExhausted then .unexpectedEndOfLine else f), k', tops, w, out, hfresh, ?_, ?_⟩
    · rw [Reader.atLineEnd, outcome_tryCatch, hs]
      dsimp only
      split <;> rfl
    · rw [Reader.atLineEnd, outcome_tryCatch, ht]
      dsimp only
      split <;> rfl

theorem addField_ok {owner : Nat} {value : Datum} {w w' : Store} {node : LoadNode}
    (h : outcome (addField owner name flags type value) w = (.ok node, w')) : ∃ i, node = .field i := by
  unfold addField at h
  have made : ∀ v u, outcome (do
      let f ← Store.newField type.plain (.cls owner) (name.plain ++ ":" ++ type.plain) (number flags) name.plain v
      Store.setMember owner name.plain (.field f)
      pure (field f)) u = (.ok node, w') → ∃ i, node = .field i := by
    intro v u hmade
    obtain ⟨f, w₁, -, hmade⟩ := outcome_bind_eq_ok _ hmade
    obtain ⟨-, w₂, -, hmade⟩ := outcome_bind_eq_ok _ hmade
    cases hmade
    exact ⟨f, rfl⟩
  split at h
  · obtain ⟨v, u, -, h⟩ := outcome_bind_eq_ok _ h
    exact made v u h
  · exact made _ _ h

theorem send_field_ok {value? : Option Datum} {s t : Session Site Console} {node? : Option Site}
    (h : outcome ((readerFor run).sendTo (.node .console) (.field name flags type value?)) s = (.ok node?, t)) :
    ∃ i, node? = some (.loading (.field i)) := by
  rw [sendTo_node _ rfl] at h
  obtain ⟨c, s₁, -, h⟩ := outcome_bind_eq_ok _ h
  obtain ⟨node, s₂, hnode, h⟩ := outcome_bind_eq_ok _ h
  obtain ⟨-, s₃, -, h⟩ := outcome_bind_eq_ok _ h
  cases h
  obtain ⟨src, k, st, c'⟩ := s₁
  rw [outcome_machine] at hnode
  rcases hadd : outcome (addField c.rootClass name flags type (value?.getD .absent)) c'.store with ⟨res, w⟩
  rw [hadd] at hnode
  obtain rfl : res = .ok node := (Prod.mk.inj hnode).1
  obtain ⟨i, rfl⟩ := addField_ok hadd
  exact ⟨i, rfl⟩

theorem opens_tellField (name type : String) (flags value : Datum) :
    Opens ((readerFor run).tellField name type flags value) ((readerFor run').tellField name type flags value) := by
  let e : Event := .field (.text name) flags (.text type) (some value)
  have opened : ∀ i, Opens (push (.node (.loading (.field i)))) (push (.node (.loading (.field i)))) := by
    intro i raw src src' k st st' c d hcd
    refine ⟨.ok (), k, [.node (.loading (.field i))], c.store, c.output, ⟨i, rfl⟩, rfl, ?_⟩
    rw [hcd.put_eq]
    rfl
  show Opens ((readerFor run).send e >>= _) ((readerFor run').send e >>= _)
  rw [send, send, bind_assoc]
  refine (Level.of_common (common_sendTo _ (fun _ => rfl) run run')).bind_opens
    (fun _ _ _ h => send_field_ok h) fun node? hnode => ?_
  obtain ⟨i, rfl⟩ := hnode
  refine level_publishComment.bind_opens (q := fun _ => True) (fun _ _ _ _ => trivial) fun _ _ => ?_
  exact opened i

theorem opens_field : Opens (readerFor run).field (readerFor run').field := by
  have any {γ : Type} {x : Step γ} : ∀ s a t, outcome x s = (.ok a, t) → True := fun _ _ _ _ => trivial
  have hkeyword := Level.of_parallel (x := (readerFor run).passKeyword .field)
    (y := (readerFor run').passKeyword .field) (parallel_passKeyword rfl _) (ignoresRaw_passKeyword _ _)
  refine .atLineEnd (hkeyword.bind_opens any fun _ _ => ?_)
  refine (Level.of_parallel parallel_accessFlags ignoresRaw_accessFlags).bind_opens any fun flags _ => ?_
  refine (Level.of_parallel parallel_nextWord ignoresRaw_nextWord).bind_opens any fun word _ => ?_
  refine (Level.of_parallel (parallel_halves _ _) (ignoresRaw_attempt _)).bind_opens any fun p _ => ?_
  refine (Level.of_parallel (parallel_checkDescriptor rfl _) (ignoresRaw_checkDescriptor _ _)).bind_opens any
    fun _ _ => ?_
  refine (Level.of_parallel parallel_hasWord ignoresRaw_hasWord).bind_opens any fun more _ => ?_
  have told := fun value => @opens_tellField run run' (Signature.plainName p.1) p.2 flags value
  split
  · exact (Level.of_parallel parallel_lastWord ignoresRaw_lastWord).bind_opens any fun _ _ => told _
  · exact told _

/-- Whether the console deals with a line that opens with a word by itself. -/
def isOwnWord (w : String) : Bool :=
  isKnown w || w.toList.head? == some ':' || w == ".field"

/-- The names of instructions: none opens like a directive or a label, and calls and returns are performed as what
they are. -/
theorem isKnown_read (hw : isKnown w = true) : (∃ ch, w.toList.head? = some ch ∧ ch ≠ '.' ∧ ch ≠ ':') ∧
      ("invoke".toList.isPrefixOf w.toList = true → callName (.text (variantOf w)) = w) ∧
      ("return".toList.isPrefixOf w.toList = true → returnName (.text (variantOf w)) = w) := by
  have names : ∀ w ∈ names ++ setNames, (w.toList.head?.any fun ch => ch != '.' && ch != ':') = true ∧
        ("invoke".toList.isPrefixOf w.toList = true → callName (.text (variantOf w)) = w) ∧
        ("return".toList.isPrefixOf w.toList = true → returnName (.text (variantOf w)) = w) := by
    decide +kernel
  have hmem : w ∈ Opcode.names ++ Opcode.setNames := by
    simpa [isKnown] using hw
  obtain ⟨hhead, hcall, hreturn⟩ := names w hmem
  refine ⟨?_, hcall, hreturn⟩
  simpa [Option.any_eq_true] using hhead

theorem dealsWith_of_isKnown (hw : isKnown w = true) (he : Voices w ws e) : dealsWith e = true := by
  obtain ⟨-, hcall, hreturn⟩ := isKnown_read hw
  cases he with
  | call h _ _ _ =>
    show isKnown (callName _) = true
    rw [hcall h, hw]
  | ret h _ =>
    show isKnown (returnName _) = true
    rw [hreturn h, hw]
  | jump _ _ => rfl
  | plain _ => exact hw

theorem outcome_unlessMuted (r : Reader Site Console) (x : Step Unit) (src : Source) (k : Cursor)
    (st : Slots Site) (c : Console) :
    outcome (r.unlessMuted x) ⟨src, k, atPrompt st, c⟩ = outcome x ⟨src, k, atPrompt st, c⟩ := rfl

theorem opensAt_instruction (hw : isKnown w = true) (raw : String → String) (src src' : Source)
    (line? : Option Line) (ws : List String) (st st' : Slots Site) (hcd : Alike c d) :
    OpensAt (fun _ tops => tops = []) (readerFor run).instruction (readerFor run').instruction raw src src'
      ⟨line?, w :: ws⟩ st st' c d := by
  have hevent := Level.of_parallel (@parallel_instructionEvent _ _ _ _ (readerFor run) (readerFor run') rfl)
    (ignoresRaw_instructionEvent _)
  obtain ⟨res, k, store, out, hs, ht⟩ := hevent raw src src' ⟨line?, w :: ws⟩ st st' c d hcd
  unfold OpensAt
  rw [instruction_eq, instruction_eq, outcome_unlessMuted, outcome_unlessMuted]
  cases res with
  | error f =>
    exact ⟨.error f, k, [], store, out, rfl, bind_error _ hs, bind_error _ ht⟩
  | ok e =>
    have he := dealsWith_of_isKnown hw (instructionEvent_ok hs)
    obtain ⟨res, k', store', out', hs', ht'⟩ :=
      @level_tell run run' e he raw src src' k st st' _ _ (hcd.put store out)
    exact ⟨res, k', [], store', out', rfl, (bind_ok _ hs).trans hs', (bind_ok _ ht).trans ht'⟩

theorem outcome_statement_field (htops : IsFresh tops) (src : Source) (line? : Option Line)
    (ws : List String) (st : Slots Site) (c : Console) :
    outcome (readerFor run).statement ⟨src, ⟨line?, ".field" :: ws⟩, tops ++ atPrompt st, c⟩
      = outcome (readerFor run).field ⟨src, ⟨line?, ".field" :: ws⟩, atPrompt st, c⟩ := by
  rcases htops with rfl | ⟨i, rfl⟩ <;> rfl

theorem opensAt_statement {w : String} (hw : isOwnWord w = true) (raw : String → String) (src src' : Source)
    (line? : Option Line) (ws : List String) (st st' : Slots Site) (hcd : Alike c d) :
    OpensAt (StatementTops w) (readerFor run).statement (readerFor run').statement raw src src' ⟨line?, w :: ws⟩
      st st' c d := by
  have hcursor : (⟨line?, w :: ws⟩ : Cursor).withRaw raw
      = ⟨line?.map fun l => { l with raw := raw l.raw }, w :: ws⟩ := rfl
  by_cases hfield : w = ".field"
  · subst hfield
    obtain ⟨res, k', tops, store, out, htops, hs, ht⟩ := @opens_field run run' raw src src'
      ⟨line?, ".field" :: ws⟩ st st' c d hcd
    refine ⟨res, k', tops, store, out, htops, ?_, ?_⟩
    · exact (outcome_statement_field (.inl rfl) src line? ws st c).trans hs
    · exact (outcome_statement_field (.inl rfl) src' _ ws st' d).trans ht
  have htops : StatementTops w = fun _ tops => tops = [] := by
    funext res tops
    exact if_neg hfield
  rw [htops]
  by_cases hlabel : w.toList.head? = some ':'
  · have hread : ∀ run src line? st c, outcome (readerFor run).statement ⟨src, ⟨line?, w :: ws⟩, atPrompt st, c⟩
        = outcome ((readerFor run).tell (.label (.text (labelName w))) >>= fun _ => (readerFor run).publishComment)
          ⟨src, ⟨line?, w :: ws⟩, atPrompt st, c⟩ := by
      intro run src line? st c
      rw [outcome_statement_label _ _ _ _ hlabel, label, bind_ok _ (outcome_peekWord _ _ _ _ _ _), outcome_unlessMuted]
    obtain ⟨res, k', store, out, hs, ht⟩ := @level_tell run run' (.label (.text (labelName w))) rfl raw src src'
      ⟨line?, w :: ws⟩ st st' c d hcd
    exact ⟨res, k', [], store, out, rfl, (hread run src line? st c).trans hs, (hread run' src' _ st' d).trans ht⟩
  · have hknown : isKnown w = true := by simpa [isOwnWord, hlabel, hfield] using hw
    obtain ⟨⟨ch, hch, hdot, hcolon⟩, -, -⟩ := isKnown_read hknown
    unfold OpensAt
    rw [hcursor, outcome_statement_plain _ _ _ _ hch hdot hcolon, outcome_statement_plain _ _ _ _ hch hdot hcolon]
    exact opensAt_instruction hknown raw src src' line? ws st st' hcd

theorem head_of_isOwnWord (hw : isOwnWord w = true) (hfield : w ≠ ".field") :
    ∃ ch, w.toList.head? = some ch ∧ ch ≠ '.' := by
  by_cases hlabel : w.toList.head? = some ':'
  · exact ⟨':', hlabel, by decide⟩
  · have hknown : isKnown w = true := by simpa [isOwnWord, hlabel, hfield] using hw
    obtain ⟨⟨ch, hch, hdot, -⟩, -, -⟩ := isKnown_read hknown
    exact ⟨ch, hch, hdot⟩

theorem outcome_statement_behind_field {ch : Char} (hch : w.toList.head? = some ch) (hdot : ch ≠ '.') (src : Source)
    (line? : Option Line) (ws : List String) (i : Nat) (st : Slots Site) (c : Console) :
    outcome (readerFor run).statement ⟨src, ⟨line?, w :: ws⟩, .node (.loading (.field i)) :: st, c⟩
      = (.error (if ch = ':' then .noOperation else .invalidStatement w),
          ⟨src, ⟨line?, w :: ws⟩, .node (.loading (.field i)) :: st, c⟩) := by
  by_cases hcolon : ch = ':'
  · subst hcolon
    rw [outcome_statement_label _ _ _ _ hch]
    rfl
  · rw [outcome_statement_plain _ _ _ _ hch hdot hcolon, if_neg hcolon]
    rfl

end Console

/-! ### Commands in scripts -/

theorem Command.name_written :
    cmd.name.toList.all Request.isCommandChar = true ∧ cmd.name.toList.all (fun c => !isBlank c) = true ∧
      cmd.name.toList ≠ [] ∧ ofName? cmd.name = some cmd ∧ isKnown cmd.name = false ∧
      cmd.name.toList.head? ≠ some '!' ∧ cmd.name.toList.head? ≠ some '?' := by
  cases cmd <;> decide +kernel

theorem Command.head_name : ∃ ch, cmd.name.toList.head? = some ch ∧ ch ≠ '.' ∧ ch ≠ ':' := by
  cases cmd <;> exact ⟨_, rfl, by decide, by decide⟩

theorem Request.parse_command (rest : String) :
    isBlankLine (cmd.name ++ " " ++ rest) = false ∧ ∃ line,
      parse (cmd.name ++ " " ++ rest) = ⟨line, true, some cmd, String.ofList (dropBoth isBlank rest.toList)⟩ := by
  obtain ⟨hchars, hinked, hne, hname, -, hexclaim, hquestion⟩ := cmd.name_written
  have hlist : (cmd.name ++ " " ++ rest).toList = cmd.name.toList ++ ' ' :: rest.toList := by simp
  generalize hcs : cmd.name.toList = cs at *
  have hmem : ∀ c ∈ cs, isBlank c = false := by simpa using hinked
  have hhead : ∀ ys : List Char, (cs ++ ys).head? = cs.head? := fun ys => head?_append_of_ne_nil _ hne
  constructor
  · rw [isBlankLine, hlist, all_append, Bool.and_eq_false_iff]
    left
    obtain ⟨c, hc⟩ := exists_mem_of_ne_nil cs hne
    exact all_eq_false.mpr ⟨c, hc, by simp [hmem c hc]⟩
  · -- the space behind the command is dropped with the rest of the line if that is blank
    generalize hys : dropEnd isBlank (' ' :: rest.toList) = ys
    have hdrop : dropBoth isBlank (cs ++ ' ' :: rest.toList) = cs ++ ys := by
      have hend : dropEnd isBlank (cs ++ ' ' :: rest.toList) = cs ++ ys := by
        have hlast := hmem _ (getLast_mem hne)
        have hkeep := dropEnd_keep hlast cs.dropLast (' ' :: rest.toList)
        have hsplit : ∀ zs, cs.dropLast ++ cs.getLast hne :: zs = cs ++ zs := by
          intro zs
          rw [append_cons, dropLast_append_getLast hne]
        rwa [hsplit, hsplit, hys] at hkeep
      rw [← dropStart_dropEnd, hend]
      refine Line.dropStart_eq_self fun c hc => hmem c ?_
      rw [hhead] at hc
      exact mem_of_head? hc
    have hstop : ys = [] ∨ ∃ zs, ys = ' ' :: zs := by
      rw [← hys, dropEnd_cons_of_pos rfl]
      split
      · exact .inl rfl
      · exact .inr ⟨_, rfl⟩
    have htake : (cs ++ ys).takeWhile isCommandChar = cs := by
      rw [takeWhile_append_of_pos (by simpa using hchars)]
      rcases hstop with rfl | ⟨zs, rfl⟩
      · simp
      · rw [takeWhile_cons_of_neg (by decide), append_nil]
    have hleft : (cs ++ ys).dropWhile isCommandChar = ys := by
      rw [dropWhile_append_of_pos (by simpa using hchars)]
      rcases hstop with rfl | ⟨zs, rfl⟩
      · rfl
      · rw [dropWhile_cons_of_neg (by decide)]
    have hargument : dropBoth isBlank ys = dropBoth isBlank rest.toList := by
      rw [← hys, dropBoth_dropEnd]
      rfl
    refine ⟨String.ofList (cs ++ ys), ?_⟩
    rw [parse, hlist, hdrop]
    split
    · rename_i heq
      exact absurd ((hhead ys).symm.trans (congrArg head? heq)) hexclaim
    · split
      · rename_i heq
        exact absurd ((hhead ys).symm.trans (congrArg head? heq)) hquestion
      · dsimp only
        rw [htake, hleft, hargument, ← hcs, String.ofList_toList, hname]

namespace Console

open Read Reader

variable {run : String → Step Unit} (cmd : Command)

theorem outcome_statement_command (line? : Option Line) (ws : List String) :
    (operandsIn (· == ',') ws = none ∧ ∃ k, ∀ run src st c,
      outcome (readerFor run).statement ⟨src, ⟨line?, cmd.name :: ws⟩, atPrompt st, c⟩
        = (.error .noElement, ⟨src, k, atPrompt st, c⟩)) ∨
    ∃ xs, operandsIn (· == ',') ws = some xs ∧ ∀ run src st c,
      outcome (readerFor run).statement ⟨src, ⟨line?, cmd.name :: ws⟩, atPrompt st, c⟩
        = outcome (onConsole run (.instruction (.text cmd.name) (.texts xs)) >>= fun _ =>
            (readerFor run).publishComment) ⟨src, ⟨line?, []⟩, atPrompt st, c⟩ := by
  have hword : ("invoke".toList.isPrefixOf cmd.name.toList) = false ∧
      ("return".toList.isPrefixOf cmd.name.toList) = false ∧ (cmd.name == "goto") = false := by
    cases cmd <;> decide +kernel
  obtain ⟨hinvoke, hreturn, hgoto⟩ := hword
  obtain ⟨ch, hch, hdot, hcolon⟩ := cmd.head_name
  have hread : ∀ run src st c, outcome (readerFor run).statement ⟨src, ⟨line?, cmd.name :: ws⟩, atPrompt st, c⟩
        = outcome (operands (· == ',') >>= fun xs =>
            (readerFor run).tell (.instruction (.text cmd.name) (.texts xs)) >>= fun _ =>
              (readerFor run).publishComment) ⟨src, ⟨line?, ws⟩, atPrompt st, c⟩ := by
    intro run src st c
    rw [outcome_statement_plain _ _ _ _ hch hdot hcolon]
    show outcome (readerFor run).instruction _ = _
    rw [instruction, outcome_unlessMuted, bind_ok _ (outcome_nextWord _ _ _ _ _ _), hinvoke, hreturn, hgoto]
    rfl
  cases hxs : operandsIn (· == ',') ws with
  | none =>
    refine .inl ⟨rfl, ⟨line?, (ws.dropWhile fun w => !(dropEnd (· == ',') w.toList).isEmpty).drop 1⟩,
      fun run src st c => ?_⟩
    rw [hread]
    refine bind_error _ ?_
    rw [operands, bind_ok _ (outcome_get _)]
    dsimp only
    rw [hxs]
    rfl
  | some xs =>
    refine .inr ⟨xs, rfl, fun run src st c => ?_⟩
    have hpassed : outcome (operands (· == ',')) (⟨src, ⟨line?, ws⟩, atPrompt st, c⟩ : Session Site Console)
        = (.ok xs, ⟨src, ⟨line?, []⟩, atPrompt st, c⟩) := by
      rw [operands, bind_ok _ (outcome_get _)]
      dsimp only
      rw [hxs]
      rfl
    rw [hread, bind_ok _ hpassed, Reader.tell, bind_assoc]
    rfl

theorem outcome_onConsole_command (xs : List String) (s : Session Site Console) :
    outcome (onConsole run (.instruction (.text cmd.name) (.texts xs))) s = if s.world.importing then
          outcome (run (cmd.name ++ " " ++ " ".intercalate xs) >>= fun _ => pure none) s
        else (.error (.unknownInstruction cmd.name), s) := by
  obtain ⟨-, -, -, -, hknown, -, -⟩ := cmd.name_written
  have hplain : (Datum.text cmd.name).plain = cmd.name := rfl
  have hstate : outcome state s = (.ok s.world, s) := rfl
  have hperform : outcome (perform run cmd.name (.texts xs)) s
      = if s.world.importing then outcome (run (cmd.name ++ " " ++ " ".intercalate xs)) s
        else (.error (.unknownInstruction cmd.name), s) := by
    rw [perform, bind_ok _ hstate, hknown, if_neg Bool.false_ne_true, Datum.texts?_texts]
    split <;> rfl
  rw [onConsole, hplain, outcome_bind, hperform]
  by_cases himporting : s.world.importing = true
  · rw [if_pos himporting, if_pos himporting, outcome_bind]
  · rw [if_neg himporting, if_neg himporting]

theorem outcome_runLine_command (rest : String) : ∃ last, ∀ files r s,
    outcome (runLine files r (cmd.name ++ " " ++ rest)) s
      = outcome (runCommand files r (String.ofList (dropBoth isBlank rest.toList)) cmd)
          { s with world := { s.world with lastLine := last } } := by
  obtain ⟨hblank, line, hparse⟩ := Request.parse_command cmd rest
  refine ⟨if line == endMark then "" else line, fun files r s => ?_⟩
  rw [runLine, hblank, runRequest, hparse]
  rfl

end Console

end Dalvik
