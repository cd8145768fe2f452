import Dalvik.Proofs.ConsoleSteps

/-!
# Scripts that read scripts

A script can name further scripts, so reading one may lead to reading others, each inside the one before. A file
counts as read as soon as it is opened, and is not opened again; hence every script that is opened inside another
leaves fewer files to be read, and nesting ends after as many levels as there are files, however the scripts name
each other. This is proved for two consoles that are alike and read side by side (`Console.Beside`): with any
bounds on nesting that are large enough they do the same, also if files that count as read have other contents.
-/

namespace Dalvik

open Dalvik.Text Read Reader List Files Reader

variable {path text : String} {line? : Option Line} {ws : List String} {m : Nat} {q : List String → Prop}

namespace Console

/-! ### Scripts -/

/-- Whether a line may stand in a script: it is blank or a comment, or it opens with a command, an instruction, a
label or the directive of a field. -/
def isScriptLine (text : String) : Bool :=
  Line.isRemark text || match Line.ofString text with
    | .ok l => l.cleaned.isEmpty || l.words.head?.any fun w => isOwnWord w || (Command.ofName? w).isSome
    | .error _ => false

/-- The source of a script in a file. -/
def scriptSource (content : String) : Source :=
  .ofString (String.ofList (lineFeeds content.toList))

/-- The texts among the files are scripts under the given paths. -/
structure IsFolder (files : Files) (paths : List String) : Prop where
  listed : ∀ path content, files path = some (.text content) → path ∈ paths
  named : ∀ path content, files path = some (.text content) → endsIn scriptEnding path = true
  lines : ∀ path content, files path = some (.text content) →
    ((scriptSource content).lines.all fun l => l.any isScriptLine) = true

/-- The files that do not count as read. -/
def unread (paths imported : List String) : List String :=
  paths.filter fun path => !imported.contains path

theorem length_unread_cons {paths imported : List String} (hpath : path ∈ paths) (hnew : path ∉ imported) :
    (unread paths (path :: imported)).length < (unread paths imported).length := by
  have hfilter : unread paths (path :: imported) = (unread paths imported).filter (· != path) := by
    rw [unread, unread, filter_filter]
    refine filter_congr fun p _ => ?_
    rw [contains_cons, Bool.not_or]
    rfl
  rw [hfilter, length_filter_lt_length_iff_exists]
  exact ⟨path, mem_filter.mpr ⟨hpath, by simpa using hnew⟩, by simp⟩

/-- The lines of a source may stand in a script. -/
def IsScript (src : Source) : Prop :=
  ∀ l ∈ src.lines, ∃ text, l = some text ∧ text ≠ "" ∧ isScriptLine text = true

/-! ### Two consoles side by side -/

/-- What two consoles that read side by side are known to have in common. -/
structure Track where
  paths : List String
  kept : List String → Prop
  left : Nat
  sameLast : Prop
  below : List (Slot Site)
  below' : List (Slot Site)

/-- A console that reads each file once, with a bound for the files that are left. -/
structure Sound (k : Track) (c : Console) : Prop where
  once : c.readsOnce = true
  kept : k.kept c.imported
  few : (unread k.paths c.imported).length ≤ k.left

/-- Two consoles that are alike read one script side by side. They may stand at different places before the first
line of it. -/
structure Beside (k : Track) (sameLine : Prop) (s t : Session Site Console) : Prop where
  source : t.source = s.source
  cursor : sameLine → t.cursor = s.cursor
  stack : ∃ tops mid, IsFresh tops ∧ s.stack = tops ++ .node .console :: (mid ++ k.below) ∧
    t.stack = tops ++ .node .console :: (mid ++ k.below')
  alike : Alike s.world t.world
  imported : t.world.imported = s.world.imported
  importing : t.world.importing = s.world.importing
  lastLine : k.sameLast → t.world.lastLine = s.world.lastLine
  sound : Sound k s.world
  script : IsScript s.source

/-- Two steps end in the same way and leave the consoles side by side. -/
def Together {α : Type} (k : Track) (sameLine : Prop) (x y : Step α) (s t : Session Site Console) : Prop :=
  ∃ res s' t', outcome x s = (res, s') ∧ outcome y t = (res, t') ∧ Beside k sameLine s' t'

section Beside

variable {α β : Type} {k : Track} {sameLine : Prop} {s t : Session Site Console} {run run' : String → Step Unit}

namespace Together

theorem bind {x y : Step α} {f g : α → Step β} (hx : Together k sameLine x y s t)
    (hk : ∀ a s t, Beside k sameLine s t → Together k sameLine (f a) (g a) s t) :
    Together k sameLine (x >>= f) (y >>= g) s t := by
  obtain ⟨res, s', t', hs, ht, h⟩ := hx
  cases res with
  | ok a =>
    obtain ⟨res, s'', t'', hs', ht', h'⟩ := hk a s' t' h
    exact ⟨res, s'', t'', (bind_ok _ hs).trans hs', (bind_ok _ ht).trans ht', h'⟩
  | error f => exact ⟨.error f, s', t', bind_error _ hs, bind_error _ ht, h⟩

theorem weaken {x y : Step α} (h : Together k True x y s t) : Together k sameLine x y s t := by
  obtain ⟨res, s', t', hs, ht, h⟩ := h
  exact ⟨res, s', t', hs, ht, { h with cursor := fun _ => h.cursor trivial }⟩

end Together

namespace Beside

section

variable (h : Beside k sameLine s t)

include h

theorem ran (w : Store) (out : String) : Beside k sameLine (ran s w out) (Console.ran t w out) :=
  { h with
    alike := h.alike.put w out
    sound := ⟨h.sound.once, h.sound.kept, h.sound.few⟩ }

theorem common {x y : Step α} (hxy : Common x y) : Together k sameLine x y s t := by
  obtain ⟨res, w, out, hs, ht⟩ := hxy s t h.alike
  exact ⟨res, _, _, hs, ht, h.ran w out⟩

theorem top_bind {f g : Slot Site → Step α}
    (hk : ∀ slot, Together k sameLine (f slot) (g slot) s t) : Together k sameLine (top >>= f) (top >>= g) s t := by
  obtain ⟨tops, mid, hfresh, hst, hst'⟩ := h.stack
  obtain ⟨src, cur, st, c⟩ := s
  obtain ⟨src', cur', st', d⟩ := t
  rcases hfresh with rfl | ⟨i, rfl⟩
  · obtain rfl : st = _ := hst
    obtain rfl : st' = _ := hst'
    exact hk (.node .console)
  · obtain rfl : st = _ := hst
    obtain rfl : st' = _ := hst'
    exact hk (.node (.loading (.field i)))

theorem tell_close : Together k sameLine ((readerFor run).tell .close) ((readerFor run').tell .close) s t := by
  rw [Reader.tell, Reader.tell, send, send, bind_assoc, bind_assoc]
  refine h.top_bind fun slot => h.common ?_
  exact (common_sendTo slot (fun _ => rfl) run run').bind fun _ => common_pure _

end

theorem publishComment (h : Beside k True s t) :
    Together k True (readerFor run).publishComment (readerFor run').publishComment s t := by
  obtain ⟨g, hg, hg', -⟩ := @parallel_currentLine Site Site Console Console
  have hline : Together k True currentLine currentLine s t := by
    have ht := hg' t
    rw [h.cursor trivial] at ht
    exact ⟨(g s.cursor).1, _, _, hg s, ht, { h with cursor := fun _ => rfl }⟩
  refine hline.bind fun l s t h => ?_
  split
  · exact h.common (common_pure _)
  · refine h.top_bind fun slot => h.common ?_
    split
    · exact common_pure _
    · exact (common_sendTo slot (fun _ => rfl) run run').bind fun _ => common_pure _

end Beside

/-! ### Lines -/

/-- The line at hand may stand in a script, and is no comment. -/
def AtLine (s : Session Site Console) : Prop :=
  ∃ l, s.cursor = ⟨some l, l.words⟩ ∧
    (l.cleaned.isEmpty = true ∨ ∃ w ws, l.words = w :: ws ∧ (isOwnWord w = true ∨ ∃ cmd : Command, w = cmd.name))

theorem atLine_of_isScriptLine {l : Line} (hscript : isScriptLine text = true) (hremark : Line.isRemark text = false)
    (hl : Line.ofString text = .ok l) (src : Source) (st : Slots Site) (c : Console) :
    AtLine ⟨src, ⟨some l, l.words⟩, st, c⟩ := by
  refine ⟨l, rfl, ?_⟩
  rw [isScriptLine, hremark, Bool.false_or, hl, Bool.or_eq_true] at hscript
  rcases hscript with hempty | hword
  · exact .inl hempty
  · right
    obtain ⟨w, hw, hown⟩ := (Option.any_eq_true _ _).mp hword
    obtain ⟨ws, hws⟩ := head?_eq_some_iff.mp hw
    refine ⟨w, ws, hws, ?_⟩
    rcases Bool.or_eq_true _ _ |>.mp hown with hown | hcommand
    · exact .inl hown
    · obtain ⟨cmd, hcmd⟩ := Option.isSome_iff_exists.mp hcommand
      have hname := find?_some hcmd
      exact .inr ⟨cmd, (beq_iff_eq.mp hname).symm⟩

theorem nextLineWithin_together (n : Nat) (h : Beside k sameLine s t) :
    (∃ s' t', outcome ((readerFor run).nextLineWithin n) s = (.error .endOfSource, s') ∧
        outcome ((readerFor run').nextLineWithin n) t = (.error .endOfSource, t') ∧ Beside k sameLine s' t') ∨
      ∃ s' t', outcome ((readerFor run).nextLineWithin n) s = (.ok (), s') ∧
        outcome ((readerFor run').nextLineWithin n) t = (.ok (), t') ∧ Beside k True s' t' ∧ AtLine s' := by
  induction n generalizing sameLine s t with
  | zero => exact .inl ⟨s, t, rfl, rfl, h⟩
  | succ n ih =>
    obtain ⟨⟨ls⟩, cur, st, c⟩ := s
    obtain ⟨src', cur', st', d⟩ := t
    obtain rfl : src' = ⟨ls⟩ := h.source
    match ls with
    | [] =>
      refine .inl ⟨_, _, bind_error _ (outcome_advance_nil _ _ _), bind_error _ (outcome_advance_nil _ _ _), h⟩
    | l? :: ls =>
      obtain ⟨text, rfl, hne, hscript⟩ := h.script l? mem_cons_self
      obtain ⟨l, hl⟩ := Line.ofString_ok text
      have hempty : text.isEmpty = false := by simpa using hne
      have hadvance : ∀ (cur : Cursor) (st : Slots Site) (c : Console),
          outcome advance (⟨⟨some text :: ls⟩, cur, st, c⟩ : Session Site Console)
            = (.ok text, ⟨⟨ls⟩, ⟨some l, l.words⟩, st, c⟩) := by
        intro cur st c
        rw [outcome_advance_some, Cursor.reset, hempty, hl]
        rfl
      have h₁ : Beside k True ⟨⟨ls⟩, ⟨some l, l.words⟩, st, c⟩ ⟨⟨ls⟩, ⟨some l, l.words⟩, st', d⟩ :=
        { h with
          source := rfl
          cursor := fun _ => rfl
          sound := h.sound
          script := fun l hl => h.script l (mem_cons_of_mem _ hl) }
      rw [nextLineWithin, nextLineWithin, bind_ok _ (hadvance cur st c), bind_ok _ (hadvance cur' st' d)]
      by_cases hremark : Line.isRemark text = true
      · rw [if_pos hremark, if_pos hremark]
        obtain ⟨slot, below, below', rfl, rfl⟩ : ∃ slot below below', st = slot :: below ∧ st' = slot :: below' := by
          obtain ⟨tops, mid, hfresh, hst, hst'⟩ := h.stack
          rcases hfresh with rfl | ⟨i, rfl⟩
          · exact ⟨_, _, _, hst, hst'⟩
          · exact ⟨_, _, _, hst, hst'⟩
        rcases ih h₁ with ⟨s', t', hs, ht, h'⟩ | hok
        · exact .inl ⟨s', t', hs, ht, { h' with cursor := fun _ => h'.cursor trivial }⟩
        · exact .inr hok
      · rw [if_neg hremark, if_neg hremark]
        exact .inr ⟨_, _, rfl, rfl, h₁, atLine_of_isScriptLine hscript (by simpa using hremark) hl _ _ _⟩

/-- How a script runs a command: by a line of its own. -/
def RunsTogether (k : Track) (run run' : String → Step Unit) : Prop :=
  ∀ (cmd : Command) (rest : String) (s t : Session Site Console), Beside k True s t →
    Together k True (run (cmd.name ++ " " ++ rest)) (run' (cmd.name ++ " " ++ rest)) s t

section

variable (hrun : RunsTogether k run run')

include hrun

theorem command_together (cmd : Command) {src : Source} {st st' : Slots Site} {c d : Console}
    (h : Beside k True ⟨src, ⟨line?, cmd.name :: ws⟩, atPrompt st, c⟩ ⟨src, ⟨line?, cmd.name :: ws⟩, atPrompt st', d⟩) :
    Together k True (readerFor run).statement (readerFor run').statement ⟨src, ⟨line?, cmd.name :: ws⟩, atPrompt st, c⟩
      ⟨src, ⟨line?, cmd.name :: ws⟩, atPrompt st', d⟩ := by
  rcases outcome_statement_command cmd line? ws with ⟨-, cur, hnone⟩ | ⟨xs, -, hsome⟩
  · refine ⟨.error .noElement, _, _, hnone run src st c, hnone run' src st' d, ?_⟩
    exact { h with cursor := fun _ => rfl }
  · have h₁ : Beside k True ⟨src, ⟨line?, []⟩, atPrompt st, c⟩ ⟨src, ⟨line?, []⟩, atPrompt st', d⟩ :=
      { h with cursor := fun _ => rfl }
    unfold Together
    rw [hsome run src st c, hsome run' src st' d]
    refine Together.bind ?_ fun _ s t h => h.publishComment
    unfold Together
    rw [outcome_onConsole_command, outcome_onConsole_command]
    have himporting : d.importing = c.importing := h.importing
    rw [himporting]
    split
    · exact Together.bind (hrun cmd _ _ _ h₁) fun _ s t h => h.common (common_pure _)
    · exact ⟨.error (.unknownInstruction cmd.name), _, _, rfl, rfl, h₁⟩

theorem statement_together (h : Beside k True s t) {w : String}
    (hcursor : s.cursor = ⟨line?, w :: ws⟩) (hw : isOwnWord w = true ∨ ∃ cmd : Command, w = cmd.name) :
    Together k True (readerFor run).statement (readerFor run').statement s t := by
  obtain ⟨tops, mid, hfresh, hst, hst'⟩ := h.stack
  obtain ⟨src, cur, st, c⟩ := s
  obtain ⟨src', cur', st', d⟩ := t
  obtain rfl : src' = src := h.source
  obtain rfl : cur' = cur := h.cursor trivial
  obtain rfl : cur' = _ := hcursor
  obtain rfl : st = _ := hst
  obtain rfl : st' = _ := hst'
  have opened : ∀ {x y : Step Unit},
      OpensAt (StatementTops w) x y id src' src' ⟨line?, w :: ws⟩ (mid ++ k.below) (mid ++ k.below') c d →
      Together k True x y ⟨src', ⟨line?, w :: ws⟩, atPrompt (mid ++ k.below), c⟩
        ⟨src', ⟨line?, w :: ws⟩, atPrompt (mid ++ k.below'), d⟩ := by
    intro x y hxy
    obtain ⟨res, cur, tops', store, out, htops, hs, ht⟩ := hxy
    rw [Cursor.withRaw_id, Cursor.withRaw_id] at ht
    exact ⟨res, _, _, hs, ht, { h.ran store out with
      source := rfl
      cursor := fun _ => rfl
      stack := ⟨tops', mid, htops.isFresh, rfl, rfl⟩ }⟩
  by_cases hfield : w = ".field"
  · subst hfield
    unfold Together
    rw [outcome_statement_field hfresh, outcome_statement_field hfresh]
    exact opened (opens_field _ _ _ _ _ _ _ _ h.alike)
  · rcases hfresh with rfl | ⟨i, rfl⟩
    · rcases hw with hown | ⟨cmd, rfl⟩
      · exact opened (opensAt_statement hown _ _ _ _ _ _ _ h.alike)
      · exact command_together hrun cmd h
    · have hhead : ∃ ch, w.toList.head? = some ch ∧ ch ≠ '.' := by
        rcases hw with hown | ⟨cmd, rfl⟩
        · exact head_of_isOwnWord hown hfield
        · obtain ⟨ch, hch, hdot, -⟩ := cmd.head_name
          exact ⟨ch, hch, hdot⟩
      obtain ⟨ch, hch, hdot⟩ := hhead
      exact ⟨_, _, _, outcome_statement_behind_field hch hdot _ _ _ _ _ _,
        outcome_statement_behind_field hch hdot _ _ _ _ _ _, h⟩

theorem readLine_together (h : Beside k sameLine s t) :
    Together k sameLine (readerFor run).readLine (readerFor run').readLine s t := by
  have hlength : t.source.lines.length = s.source.lines.length := by rw [h.source]
  have hnext : ∀ (run : String → Step Unit) (s : Session Site Console), outcome (readerFor run).nextLine s
      = outcome ((readerFor run).nextLineWithin (s.source.lines.length + 1)) s := fun _ _ => rfl
  have hmove := @nextLineWithin_together k sameLine s t run run' (s.source.lines.length + 1) h
  unfold Together readLine
  rw [outcome_bind, outcome_bind, hnext, hnext, hlength]
  rcases hmove with ⟨s', t', hs, ht, h'⟩ | ⟨s', t', hs, ht, h', l, hcursor, hl⟩
  · rw [hs, ht]
    exact ⟨_, _, _, rfl, rfl, h'⟩
  · rw [hs, ht]
    refine Together.weaken (α := Unit) (x := do
      if (← currentLine).cleaned.isEmpty then (readerFor run).copyLine else (readerFor run).statement) (y := do
      if (← currentLine).cleaned.isEmpty then (readerFor run').copyLine else (readerFor run').statement) ?_
    have hline : ∀ (r : Session Site Console), r.cursor = s'.cursor → outcome currentLine r = (.ok l, r) := by
      intro r hr
      rw [currentLine, bind_ok _ (outcome_get _), hr, hcursor]
      rfl
    unfold Together
    rw [bind_ok _ (hline s' rfl), bind_ok _ (hline t' (h'.cursor trivial))]
    by_cases hblank : l.cleaned.isEmpty = true
    · rw [if_pos hblank, if_pos hblank]
      exact h'.common (common_pure _)
    · rw [if_neg hblank, if_neg hblank]
      obtain ⟨w, ws, hwords, hw⟩ := hl.resolve_left hblank
      rw [hwords] at hcursor
      exact statement_together hrun h' hcursor hw

theorem readLines_together (n : Nat) (h : Beside k sameLine s t) :
    Together k sameLine ((readerFor run).readLines n) ((readerFor run').readLines n) s t := by
  induction n generalizing s t with
  | zero => exact h.common (common_throw _)
  | succ n ih => exact (readLine_together hrun h).bind fun _ s t h => ih h

theorem readBody_together (h : Beside k sameLine s t) :
    Together k sameLine (readerFor run).readBody (readerFor run').readBody s t := by
  have hlength : t.source.lines.length = s.source.lines.length := by rw [h.source]
  obtain ⟨res, s', t', hs, ht, h'⟩ := readLines_together hrun (s.source.lines.length + 1) h
  unfold Together readBody
  rw [outcome_tryCatch, outcome_tryCatch, bind_ok _ (outcome_get _), bind_ok _ (outcome_get _), hlength, hs, ht]
  cases res with
  | ok _ => exact ⟨.ok _, s', t', rfl, rfl, h'⟩
  | error f =>
    dsimp only
    split
    · exact h'.tell_close
    · split
      · exact h'.common (common_throw _)
      · exact h'.common (common_throw _)

/-! ### Files -/

end

/-- Two consoles that are alike, before they read a file. -/
structure Ready (k : Track) (sameLine : Prop) (s t : Session Site Console) : Prop where
  cursor : sameLine → t.cursor = s.cursor
  below : s.stack = k.below
  below' : t.stack = k.below'
  alike : Alike s.world t.world
  imported : t.world.imported = s.world.imported
  lastLine : k.sameLast → t.world.lastLine = s.world.lastLine
  sound : Sound k s.world

theorem readScript_together (hrun : RunsTogether k run run') (h : Ready k sameLine s t)
    (hscript : IsScript (.ofString text)) :
    Together k sameLine (readScript (readerFor run) text) (readScript (readerFor run') text) s t := by
  have hvisit : Together k sameLine ((readerFor run).visit (.stream text) (some .console))
      ((readerFor run').visit (.stream text) (some .console)) { s with world := { s.world with importing := true } }
      { t with world := { t.world with importing := true } } := by
    have hbody := @readBody_together k sameLine
      ⟨.ofString text, s.cursor, atPrompt s.stack, { s.world with importing := true }⟩
      ⟨.ofString text, t.cursor, atPrompt t.stack, { t.world with importing := true }⟩ run run' hrun
      { source := rfl
        cursor := h.cursor
        stack := ⟨[], [], .inl rfl, by rw [h.below]; rfl, by rw [h.below']; rfl⟩
        alike := { h.alike with }
        imported := h.imported
        importing := rfl
        lastLine := h.lastLine
        sound := ⟨h.sound.once, h.sound.kept, h.sound.few⟩
        script := hscript }
    unfold Together
    exact hbody
  have hdone : ∀ s t, Beside k sameLine s t → Together k sameLine
      (update (fun c => { c with importing := false }) >>= fun _ => modify fun s => { s with source := ⟨[]⟩ })
      (update (fun c => { c with importing := false }) >>= fun _ => modify fun s => { s with source := ⟨[]⟩ }) s t := by
    intro s t h
    refine ⟨.ok (), { s with source := ⟨[]⟩, world := { s.world with importing := false } },
      { t with source := ⟨[]⟩, world := { t.world with importing := false } }, rfl, rfl, ?_⟩
    exact { h with
      source := rfl
      alike := { h.alike with }
      importing := rfl
      sound := ⟨h.sound.once, h.sound.kept, h.sound.few⟩
      script := fun l hl => absurd hl not_mem_nil }
  unfold Together
  exact hvisit.bind fun _ s t h => hdone s t h

/-- There is a script under a path, and it does not count as read. -/
def IsNew (files : Files) (imported : List String) (path : String) : Prop :=
  path ∉ imported ∧ ∃ content, files path = some (.text content)

/-- Two readings of a file end in the same way. If there is a new script, they read it side by side, and it counts
as read. If not, they only use the machine and the printer. -/
def Alongside (k : Track) (sameLine : Prop) (files : Files) (path : String) (x y : Step Unit)
    (s t : Session Site Console) : Prop :=
  ∃ res s' t', outcome x s = (res, s') ∧ outcome y t = (res, t') ∧
    (¬IsNew files s.world.imported path ∧ (∃ w out, s' = ran s w out ∧ t' = ran t w out) ∨
      IsNew files s.world.imported path ∧ path ∈ s'.world.imported ∧ Beside k sameLine s' t')

/-- Files that differ at most in the contents of scripts that count as read. -/
def AgreeBut (k : Track) (files files' : Files) : Prop :=
  ∀ path, files' path = files path ∨ (∃ content content', files path = some (.text content) ∧
    files' path = some (.text content')) ∧ ∀ imported, k.kept imported → path ∈ imported

/-- The property of the files that count as read is kept when a script is opened. -/
def Grows (k : Track) : Prop :=
  ∀ imported path, k.kept imported → path ∈ k.paths → path ∉ imported → k.kept (path :: imported)

variable {files files' : Files}

theorem outcome_importFile_text {content : String} (hfile : files path = some (.text content))
    (hnamed : endsIn scriptEnding path = true) (r : Reader Site Console) (s : Session Site Console) :
    outcome (importFile files r path) s = if s.world.imported.contains path && s.world.readsOnce then (.ok (), s)
        else outcome (readScript r (String.ofList (lineFeeds content.toList)))
          { s with world := { s.world with imported := path :: s.world.imported } } := by
  have hstate : outcome state s = (.ok s.world, s) := rfl
  have hnote : outcome (update fun c => { c with imported := path :: c.imported }) s
      = (.ok (), { s with world := { s.world with imported := path :: s.world.imported } }) := rfl
  rw [importFile, hfile]
  dsimp only
  rw [bind_ok s hstate, hnamed, Bool.not_true, Bool.and_false, if_neg Bool.false_ne_true, if_pos rfl]
  split
  · rfl
  · rw [bind_ok s hnote]

theorem outcome_importFile_other (hfile : files' path = files path)
    (hnone : ∀ content, files path ≠ some (.text content)) (halike : Alike s.world t.world)
    (himported : t.world.imported = s.world.imported) (r r' : Reader Site Console) :
    ∃ res w out, outcome (importFile files r path) s = (res, ran s w out) ∧
      outcome (importFile files' r' path) t = (res, ran t w out) := by
  unfold importFile
  rw [hfile]
  rcases hentry : files path with _ | entry
  · exact common_throw _ s t halike
  · cases entry with
    | missing => exact common_print _ s t halike
    | text content => exact absurd hentry (hnone content)
    | folder =>
      have hstate : ∀ u : Session Site Console, outcome state u = (.ok u.world, u) := fun _ => rfl
      rw [bind_ok t (hstate t), himported, halike.readsOnce]
      have hend : Common (if s.world.imported.contains path && s.world.readsOnce then pure ()
            else if !endsIn classEnding path && !endsIn scriptEnding path then
              print s!"! Unknown file format (unknown suffix) at '{path}'"
            else throw .folder)
          (if s.world.imported.contains path && s.world.readsOnce then pure ()
            else if !endsIn classEnding path && !endsIn scriptEnding path then
              print s!"! Unknown file format (unknown suffix) at '{path}'"
            else throw .folder) :=
        common_ite (fun _ => common_pure _) fun _ => common_ite (fun _ => common_print _) fun _ => common_throw _
      exact hend s t halike

theorem importFile_alongside (hfolder : IsFolder files k.paths) (hagree : AgreeBut k files files') (hgrows : Grows k)
    (hrun : ∀ left kept, left < k.left → (∀ imported, kept imported → k.kept imported) →
      Grows { k with left := left, kept := kept } → RunsTogether { k with left := left, kept := kept } run run')
    (h : Ready k sameLine s t) (path : String) :
    Alongside k sameLine files path (importFile files (readerFor run) path) (importFile files' (readerFor run') path)
      s t := by
  by_cases htext : ∃ content, files path = some (.text content)
  · obtain ⟨content, hcontent⟩ := htext
    have hnamed := hfolder.named path content hcontent
    obtain ⟨content', hcontent', hsame⟩ : ∃ content', files' path = some (.text content') ∧
        (path ∉ s.world.imported → content' = content) := by
      rcases hagree path with heq | ⟨⟨_, content', -, hcontent'⟩, hread⟩
      · exact ⟨content, heq.trans hcontent, fun _ => rfl⟩
      · exact ⟨content', hcontent', fun hnew => absurd (hread _ h.sound.kept) hnew⟩
    unfold Alongside
    rw [outcome_importFile_text hcontent hnamed, outcome_importFile_text hcontent' hnamed, h.imported,
      h.alike.readsOnce, h.sound.once, Bool.and_true]
    by_cases hmem : path ∈ s.world.imported
    · rw [if_pos (contains_iff_mem.mpr hmem), if_pos (contains_iff_mem.mpr hmem)]
      refine ⟨.ok (), s, t, rfl, rfl, .inl ⟨fun hnew => hnew.1 hmem, s.world.store, s.world.output, rfl, ?_⟩⟩
      rw [ran, h.alike.put_eq]
    · rw [if_neg (fun hc => hmem (contains_iff_mem.mp hc)), if_neg (fun hc => hmem (contains_iff_mem.mp hc)),
        hsame hmem]
      have hpath := hfolder.listed path content hcontent
      have hfewer := length_unread_cons hpath hmem
      have hfew := h.sound.few
      have hleft : (unread k.paths (path :: s.world.imported)).length ≤ k.left - 1 := by omega
      -- from here on the file counts as read
      let k₁ : Track := { k with left := k.left - 1, kept := fun imported => k.kept imported ∧ path ∈ imported }
      have hgrows₁ : Grows k₁ := fun imported p hkept hp hnew =>
        ⟨hgrows imported p hkept.1 hp hnew, mem_cons_of_mem _ hkept.2⟩
      have hready : Ready k₁ sameLine { s with world := { s.world with imported := path :: s.world.imported } }
          { t with world := { t.world with imported := path :: s.world.imported } } :=
        { cursor := h.cursor
          below := h.below
          below' := h.below'
          alike := { h.alike with }
          imported := rfl
          lastLine := h.lastLine
          sound := ⟨h.sound.once, ⟨hgrows _ _ h.sound.kept hpath hmem, mem_cons_self⟩, hleft⟩ }
      have hscript : IsScript (scriptSource content) := by
        intro l hl
        have hline := all_eq_true.mp (hfolder.lines path content hcontent) l hl
        obtain ⟨text, rfl, htext⟩ := (Option.any_eq_true _ _).mp hline
        refine ⟨text, rfl, fun hempty => ?_, htext⟩
        rw [hempty] at hl
        exact @Input.empty_notMem_source (.stream (String.ofList (lineFeeds content.toList))) _ rfl hl
      obtain ⟨res, s', t', hs, ht, h'⟩ := readScript_together
        (hrun (k.left - 1) k₁.kept (by omega) (fun _ hkept => hkept.1) hgrows₁) hready hscript
      refine ⟨res, s', t', hs, ht, .inr ⟨⟨hmem, content, hcontent⟩, h'.sound.kept.2, ?_⟩⟩
      exact { h' with sound := ⟨h'.sound.once, h'.sound.kept.1, h'.sound.few.trans (Nat.sub_le _ _)⟩ }
  · have hfile : files' path = files path := by
      rcases hagree path with heq | ⟨⟨content, -, hc, -⟩, -⟩
      · exact heq
      · exact absurd ⟨content, hc⟩ htext
    obtain ⟨res, w, out, hs, ht⟩ := outcome_importFile_other hfile (fun content hc => htext ⟨content, hc⟩) h.alike
      h.imported (readerFor run) (readerFor run')
    exact ⟨res, _, _, hs, ht, .inl ⟨fun hnew => htext hnew.2, w, out, rfl, rfl⟩⟩

theorem runsTogether_of_alongside {r r' : Reader Site Console}
    (hread : ∀ (below below' : Slots Site) (s t : Session Site Console) (path : String),
      Ready { k with below := below, below' := below' } True s t →
      Alongside { k with below := below, below' := below' } True files path (importFile files r path)
        (importFile files' r' path) s t) :
    RunsTogether k (runLine files r) (runLine files' r') := by
  intro cmd rest s t h
  obtain ⟨last, hlast⟩ := outcome_runLine_command cmd rest
  have h₁ : Beside k True { s with world := { s.world with lastLine := last } }
      { t with world := { t.world with lastLine := last } } :=
    { h with
      alike := { h.alike with }
      lastLine := fun _ => rfl
      sound := ⟨h.sound.once, h.sound.kept, h.sound.few⟩ }
  unfold Together
  rw [hlast, hlast]
  by_cases hcmd : cmd = .fetch
  · subst hcmd
    have hready : Ready { k with below := s.stack, below' := t.stack } True
        { s with world := { s.world with lastLine := last } } { t with world := { t.world with lastLine := last } } :=
      { cursor := h₁.cursor
        below := rfl
        below' := rfl
        alike := h₁.alike
        imported := h.imported
        lastLine := h₁.lastLine
        sound := ⟨h.sound.once, h.sound.kept, h.sound.few⟩ }
    obtain ⟨res, s', t', hs, ht, hend⟩ := hread s.stack t.stack _ _ (String.ofList (dropBoth isBlank rest.toList)) hready
    refine ⟨res, s', t', hs, ht, ?_⟩
    rcases hend with ⟨-, w, out, rfl, rfl⟩ | ⟨-, -, h'⟩
    · exact h₁.ran w out
    · obtain ⟨tops, mid, hfresh, hst, hst'⟩ := h'.stack
      obtain ⟨tops₀, mid₀, -, hst₀, hst₀'⟩ := h.stack
      exact { h' with
        stack := ⟨tops, mid ++ (tops₀ ++ .node .console :: mid₀), hfresh, by simp [hst, hst₀], by simp [hst', hst₀']⟩
        sound := ⟨h'.sound.once, h'.sound.kept, h'.sound.few⟩ }
  · exact h₁.common (common_runCommand hcmd _ _ _ _ _)

theorem readers_alongside (hfolder : IsFolder files k.paths) (hagree : AgreeBut k files files') (hgrows : Grows k)
    {n : Nat} (hn : k.left ≤ n) (hm : k.left ≤ m) (h : Ready k sameLine s t) (path : String) :
    Alongside k sameLine files path (importFile files (readerWithin files n) path)
      (importFile files' (readerWithin files' m) path) s t := by
  induction n generalizing k m sameLine s t path with
  | zero =>
    cases m with
    | zero => exact importFile_alongside hfolder hagree hgrows (fun left _ hl => by omega) h path
    | succ m => exact importFile_alongside hfolder hagree hgrows (fun left _ hl => by omega) h path
  | succ n ih =>
    cases m with
    | zero => exact importFile_alongside hfolder hagree hgrows (fun left _ hl => by omega) h path
    | succ m =>
      refine importFile_alongside hfolder hagree hgrows (fun left kept hl hkept hgrows' => ?_) h path
      refine runsTogether_of_alongside fun below below' s t path h => ?_
      have hless : left ≤ n ∧ left ≤ m := by omega
      let k₁ : Track := { k with left := left, kept := kept, below := below, below' := below' }
      have hagree₁ : AgreeBut k₁ files files' :=
        fun p => (hagree p).imp_right fun hp => ⟨hp.1, fun imported himported => hp.2 imported (hkept _ himported)⟩
      exact ih (k := k₁) hfolder hagree₁ hgrows' hless.1 hless.2 h path

theorem Beside.eq (h : Beside k True s t) (hbelow : k.below' = k.below) (hlast : k.sameLast) : t = s := by
  obtain ⟨tops, mid, -, hst, hst'⟩ := h.stack
  have hworld := h.alike.eq h.importing h.imported (h.lastLine hlast)
  rw [hbelow, ← hst] at hst'
  rw [Session.mk.injEq]
  exact ⟨h.source, h.cursor trivial, hst', hworld⟩

end Beside

/-! ### Several consoles -/

/-- A step of whoever works with several consoles, each of which reads a file once. -/
inductive ShellStep where
  | start
  | fetch (shell : Nat) (path : String)

/-- The session that was used last, and all consoles as they were when they were used last. -/
structure Shells where
  session : Session Site Console
  consoles : List Console

/-- One console. -/
def Shells.first : Shells := ⟨Console.start true, [(Console.start true).world]⟩

/-- A console goes on with what all consoles share. -/
def rejoin (s : Session Site Console) (c : Console) : Session Site Console :=
  { s with world := { c with store := s.world.store, imported := s.world.imported } }

/-- The consoles after a step, which may end in a fault. -/
def Shells.step (files : Files) (r : Reader Site Console) (x : Shells) : ShellStep → Shells
  | .start =>
    let s := another true x.session
    ⟨s, x.consoles ++ [s.world]⟩
  | .fetch shell path =>
    match x.consoles[shell]? with
    | none => x
    | some c =>
      let s := (outcome (importFile files r path) (rejoin x.session c)).2
      ⟨s, x.consoles.set shell s.world⟩

/-- The consoles after some steps. -/
def Shells.after (files : Files) (r : Reader Site Console) (steps : List ShellStep) : Shells :=
  steps.foldl (Shells.step files r) .first

section Once

variable {files : Files} {paths : List String} {n : Nat}
variable {s : Session Site Console}

theorem ready_self (honce : s.world.readsOnce = true) (hs : q s.world.imported) :
    Ready ⟨paths, q, paths.length, True, s.stack, s.stack⟩ True s s :=
  { cursor := fun _ => rfl
    below := rfl
    below' := rfl
    alike := .refl _
    imported := rfl
    lastLine := fun _ => rfl
    sound := ⟨honce, hs, length_filter_le _ _⟩ }

/-- What holds of the files that count as read, and goes on to hold when a script is opened, holds behind every
import. -/
theorem kept_importFile (hfolder : IsFolder files paths) (hn : paths.length ≤ n)
    (hq : ∀ imported path, q imported → path ∈ paths → path ∉ imported → q (path :: imported))
    (honce : s.world.readsOnce = true) (hs : q s.world.imported) (path : String) :
    q (outcome (importFile files (readerWithin files n) path) s).2.world.imported ∧
      (outcome (importFile files (readerWithin files n) path) s).2.world.readsOnce = true := by
  let k : Track := ⟨paths, q, paths.length, True, s.stack, s.stack⟩
  have hgrows : Grows k := hq
  have hbut : AgreeBut k files files := fun _ => .inl rfl
  obtain ⟨res, s', t', hs', -, hend⟩ := readers_alongside hfolder hbut hgrows hn hn (ready_self honce hs) path
  rw [hs']
  rcases hend with ⟨-, w, out, rfl, -⟩ | ⟨-, -, h⟩
  · exact ⟨hs, honce⟩
  · exact ⟨h.sound.kept, h.sound.once⟩

/-- At several consoles, each of which reads a file once, no path counts as read twice. -/
structure ReadOnce (paths : List String) (x : Shells) : Prop where
  once : ∀ c ∈ x.consoles, c.readsOnce = true
  nodup : x.session.world.imported.Nodup
  listed : ∀ path ∈ x.session.world.imported, path ∈ paths

theorem make_reads (readsOnce : Bool) (w : Store) (imported : List String) :
    (make readsOnce w imported).readsOnce = readsOnce ∧ (make readsOnce w imported).imported = imported := by
  unfold make
  split <;> exact ⟨rfl, rfl⟩

theorem ReadOnce.step (hfolder : IsFolder files paths) (hn : paths.length ≤ n) {x : Shells} (hx : ReadOnce paths x)
    (a : ShellStep) : ReadOnce paths (x.step files (readerWithin files n) a) := by
  cases a with
  | start =>
    obtain ⟨honce, himported⟩ := make_reads true x.session.world.store x.session.world.imported
    refine ⟨fun c hc => ?_, ?_, ?_⟩
    · rcases mem_append.mp hc with hc | hc
      · exact hx.once c hc
      · obtain rfl := mem_singleton.mp hc
        exact honce
    · show (make _ _ _).imported.Nodup
      rw [himported]
      exact hx.nodup
    · show ∀ path ∈ (make _ _ _).imported, path ∈ paths
      rw [himported]
      exact hx.listed
  | fetch shell path =>
    unfold Shells.step
    dsimp only
    split
    · exact hx
    · rename_i c hc
      have honce : (rejoin x.session c).world.readsOnce = true := hx.once c (mem_of_getElem? hc)
      have hkept := kept_importFile hfolder hn (q := fun imported => imported.Nodup ∧ ∀ p ∈ imported, p ∈ paths)
        (fun imported p h hp hnew => ⟨nodup_cons.mpr ⟨hnew, h.1⟩, forall_mem_cons.mpr ⟨hp, h.2⟩⟩) honce
        ⟨hx.nodup, hx.listed⟩ path
      refine ⟨fun d hd => ?_, hkept.1.1, hkept.1.2⟩
      rcases mem_or_eq_of_mem_set hd with hd | rfl
      · exact hx.once d hd
      · exact hkept.2

theorem ReadOnce.after (hfolder : IsFolder files paths) (hn : paths.length ≤ n) (steps : List ShellStep) :
    ReadOnce paths (.after files (readerWithin files n) steps) := by
  have hrun : ∀ x, ReadOnce paths x → ReadOnce paths (steps.foldl (Shells.step files (readerWithin files n)) x) := by
    induction steps with
    | nil => exact fun x hx => hx
    | cons a steps ih => exact fun x hx => ih _ (hx.step hfolder hn a)
  obtain ⟨honce, himported⟩ := make_reads true .initial []
  apply hrun
  refine ⟨fun c hc => ?_, ?_, ?_⟩
  · obtain rfl := mem_singleton.mp hc
    exact honce
  · show (make _ _ _).imported.Nodup
    exact nodup_nil
  · show ∀ path ∈ (make _ _ _).imported, path ∈ paths
    exact fun _ hp => absurd hp not_mem_nil

end Once

end Console

end Dalvik
