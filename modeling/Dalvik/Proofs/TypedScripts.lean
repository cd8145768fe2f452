import Dalvik.Console.Session
import Dalvik.Proofs.Imports

/-!
# A script and its lines

A script is read by one reader from its first line to its last, while lines that are typed are read one by one. The
two leave the same machine as long as the script goes on. It does not go on behind a line that ends in a fault, nor
behind a line that reads another script, because both are read from one source; and behind the definition of a field
it goes on with further fields only, because the field stays open. So a script does what typing its lines up to such
a line does (`Console.performed`).
-/

namespace Dalvik

open Dalvik.Text Read Reader List Request Command Files Option Bool

variable {text path content : String} {cmd : Command} {tops : Slots Site} {res : Except Fault Unit}
  {xs ls : List String} {s : Session Site Console} {field : Bool}

/-! ### The lines of a script -/

namespace Text

variable {p : Char → Bool}

theorem dropStart_dropBoth (s : List Char) : dropStart p (dropBoth p s) = dropBoth p s := by
  rw [← dropStart_dropEnd]
  exact dropWhile_idempotent _ _

theorem head?_dropBoth (s : List Char) : (dropBoth p s).head? = (dropStart p s).head? := by
  have hnot := head?_dropWhile_not p s
  rw [dropBoth]
  cases hs : dropStart p s with
  | nil => rfl
  | cons c cs =>
    rw [← dropStart, hs] at hnot
    rw [show c :: cs = [] ++ c :: cs from rfl, dropEnd_keep hnot]
    rfl

theorem dropEnd_concat {c : Char} (hc : p c = true) (s : List Char) : dropEnd p (s ++ [c]) = dropEnd p s := by
  rw [dropEnd, dropEnd, reverse_append, reverse_singleton, singleton_append, dropWhile_cons_of_pos hc]

end Text

theorem Line.ofString_trimBoth (s : String) :
    ofString (trimBoth isBlank s) = (ofString s).map fun l => { l with raw := trimBoth isBlank s } := by
  have hend : dropEnd isBlank (trimBoth isBlank s).toList = dropBoth isBlank s.toList := by
    rw [trimBoth, String.toList_ofList, dropBoth, dropEnd_dropEnd]
  unfold ofString
  dsimp only
  rw [hend, dropStart_dropBoth, dropStart_dropEnd]
  cases cutComment (dropBoth isBlank s.toList) with
  | none => cases splitWords " " _ <;> rfl
  | some parts => cases splitWords " " _ <;> rfl

theorem Line.isRemark_trimBoth (s : String) : isRemark (trimBoth isBlank s) = isRemark s := by
  rw [isRemark, isRemark, trimBoth, String.toList_ofList, dropStart_dropBoth, head?_dropBoth]

theorem Source.row_of_mem_cutLines {l acc xs : List Char} (h : l ∈ cutLines (· == '\n') acc xs) (hacc : '\n' ∉ acc) :
    ∃ row, '\n' ∉ row ∧ (l = row ++ ['\n'] ∨ l = row ∧ row ≠ []) := by
  induction xs generalizing acc with
  | nil =>
    unfold cutLines at h
    split at h
    · exact absurd h not_mem_nil
    · rename_i hne
      obtain rfl := mem_singleton.mp h
      exact ⟨acc.reverse, by simpa using hacc, .inr ⟨rfl, by simpa using hne⟩⟩
  | cons x xs ih =>
    unfold cutLines at h
    split at h
    · rename_i hx
      obtain rfl : x = '\n' := by simpa using hx
      rcases mem_cons.mp h with rfl | h
      · exact ⟨acc.reverse, by simpa using hacc, .inl (by simp)⟩
      · exact ih h not_mem_nil
    · rename_i hx
      have hx' : '\n' ≠ x := by
        rintro rfl
        exact hx rfl
      exact ih h (by simpa [hx'] using hacc)

theorem Line.exists_uncommented (t : List Char) :
    ∃ tail, t = uncommented t ++ tail ∧ ∀ c, tail.head? = some c → isBlank c = true ∨ c = '#' := by
  unfold uncommented
  split
  · rename_i hmark
    obtain ⟨front, back, rfl, hfront⟩ := eq_append_cons_of_mem hmark
    refine ⟨(front.reverse.takeWhile isBlank).reverse ++ '#' :: back, ?_, fun c hc => ?_⟩
    · rw [takeWhile_ne_append hfront, dropEnd, ← append_assoc, ← reverse_append, takeWhile_append_dropWhile, reverse_reverse]
    · cases hblanks : (front.reverse.takeWhile isBlank).reverse with
      | nil =>
        rw [hblanks] at hc
        exact .inr (some.inj hc).symm
      | cons e es =>
        rw [hblanks] at hc
        obtain rfl : e = c := some.inj hc
        have hmem : e ∈ front.reverse.takeWhile isBlank := by
          rw [← mem_reverse, hblanks]
          exact mem_cons_self
        exact .inl (mem_takeWhile_imp hmem)
  · exact ⟨[], (append_nil t).symm, by simp⟩

theorem Line.first_word {w : String} {l : Line} {ws : List String} (hl : ofString text = .ok l)
    (hwords : l.words = w :: ws) (hline : '\n' ∉ text.toList) :
    ∃ rest, dropBoth isBlank text.toList = w.toList ++ rest ∧
      ∀ c, rest.head? = some c → isBlank c = true ∨ c = '#' := by
  have hfront : ∃ r, l.cleaned.toList = w.toList ++ r ∧ (r = [] ∨ ∃ r', r = ' ' :: r') := by
    rw [← intercalate_words hl, hwords]
    cases ws with
    | nil => exact ⟨[], by simp, .inl rfl⟩
    | cons u us =>
      exact ⟨' ' :: (" ".intercalate (u :: us)).toList, by simp [String.intercalate_cons_cons], .inr ⟨_, rfl⟩⟩
  obtain ⟨l', hl', hcleaned, -⟩ := ofString_line hline
  obtain rfl := Except.ok.inj (hl.symm.trans hl')
  obtain ⟨r, hr, hspace⟩ := hfront
  obtain ⟨tail, htail, hblank⟩ := exists_uncommented (dropBoth isBlank text.toList)
  refine ⟨r ++ tail, by rw [htail, ← hcleaned, hr, append_assoc], fun c hc => ?_⟩
  rcases hspace with rfl | ⟨r', rfl⟩
  · exact hblank c hc
  · obtain rfl : ' ' = c := some.inj hc
    exact .inl (by decide)

/-! ### Requests -/

namespace Request

theorem not_isCommandChar {c : Char} (hc : isBlank c = true ∨ c = '#') : isCommandChar c = false := by
  rcases hc with hc | rfl
  · have hrange : c.toNat ≤ 0x20 ∨ 0x85 ≤ c.toNat := by
      simp [isBlank, blankRanges] at hc
      omega
    have hchar : isCommandChar c = (decide (c.val ≥ 'A'.val ∧ c.val ≤ 'Z'.val)
        || (decide (c.val ≥ 'a'.val) && decide (c.val ≤ 'z'.val)) || (decide (c.val ≥ '0'.val) && decide (c.val ≤ '9'.val))
        || c == '_') := rfl
    have hunder : c ≠ '_' := by
      rintro rfl
      revert hrange
      decide
    simp only [hchar, or_eq_false_iff, and_eq_false_iff, decide_eq_false_iff_not, ge_iff_le,
      UInt32.le_iff_toNat_le, beq_eq_false_iff_ne]
    refine ⟨⟨⟨?_, ?_⟩, ?_⟩, hunder⟩
    · simp; omega
    · simp; omega
    · simp; omega
  · decide

theorem parse_first_word {w : String} {l : Line} {ws : List String} {ch : Char} (hl : Line.ofString text = .ok l)
    (hwords : l.words = w :: ws) (hline : '\n' ∉ text.toList) (hch : w.toList.head? = some ch) (hexclaim : ch ≠ '!')
    (hquestion : ch ≠ '?') :
    isBlankLine text = false ∧ (trimBoth isBlank text).toList.head? = some ch ∧ ∃ argument,
      parse text = ⟨trimBoth isBlank text, true,
        ofName? (String.ofList (w.toList.takeWhile isCommandChar)), argument⟩ := by
  obtain ⟨rest, hrest, hbehind⟩ := Line.first_word hl hwords hline
  have hlist : (trimBoth isBlank text).toList = w.toList ++ rest := by rw [trimBoth, String.toList_ofList, hrest]
  have hhead : (trimBoth isBlank text).toList.head? = some ch := by
    rw [hlist, head?_append, hch]
    rfl
  refine ⟨?_, hhead, ?_⟩
  · by_contra hblank
    have hall : text.toList.all isBlank = true := by simpa [isBlankLine] using hblank
    have hnil : dropStart isBlank text.toList = [] := dropWhile_eq_nil_iff.mpr (all_eq_true.mp hall)
    rw [trimBoth, dropBoth, hnil] at hhead
    cases hhead
  · have hdrop : dropBoth isBlank (trimBoth isBlank text).toList = (trimBoth isBlank text).toList := by
      rw [trimBoth, String.toList_ofList, dropBoth, dropStart_dropBoth, dropBoth, dropEnd_dropEnd]
    have hsame : parse text = parse (trimBoth isBlank text) := by
      have hcs : dropBoth isBlank (trimBoth isBlank text).toList = dropBoth isBlank text.toList := by
        rw [hdrop, trimBoth, String.toList_ofList]
      rw [parse, parse, hcs]
    have hparse := parse_eq hdrop (by rw [hhead]; simpa using hexclaim) (by rw [hhead]; simpa using hquestion)
    have htake : (w.toList ++ rest).takeWhile isCommandChar = w.toList.takeWhile isCommandChar := by
      rw [takeWhile_append]
      have hnone : rest.takeWhile isCommandChar = [] := by
        cases rest with
        | nil => rfl
        | cons c rest =>
          simp [not_isCommandChar (hbehind c rfl)]
      split
      · rename_i hlen
        rw [hnone, append_nil, ( takeWhile_prefix _).eq_of_length hlen]
      · rfl
    rw [hlist, htake] at hparse
    exact ⟨_, hsame.trans hparse⟩

end Request

namespace Console

/-- A text that is a line with or without a line break behind it. -/
def Written (l raw : String) : Prop :=
  '\n' ∉ l.toList ∧ raw ≠ "" ∧ (raw = l ∨ raw = l ++ "\n")

variable {l raw : String}

theorem Written.dropEnd_eq (h : Written l raw) : dropEnd isBlank raw.toList = dropEnd isBlank l.toList := by
  obtain ⟨-, -, rfl | rfl⟩ := h
  · rfl
  · rw [String.toList_append]
    exact dropEnd_concat (by decide) _

theorem Written.ofString_eq (h : Written l raw) : Line.ofString raw = Line.ofString l := by
  unfold Line.ofString
  rw [h.dropEnd_eq]

theorem Written.isRemark_eq (h : Written l raw) : Line.isRemark raw = Line.isRemark l := by
  rw [← Line.isRemark_trimBoth raw, ← Line.isRemark_trimBoth l, trimBoth, trimBoth, ← dropStart_dropEnd,
    ← dropStart_dropEnd, h.dropEnd_eq]

theorem written_inputLines (text : String) : ∃ raws : List String,
    (Source.ofString text).lines = raws.map some ∧ Forall₂ Written (inputLines text) raws := by
  refine ⟨(Source.cutLines (· == '\n') [] text.toList).map String.ofList, by simp [Source.ofString], ?_⟩
  rw [inputLines, forall₂_map_left_iff, forall₂_map_right_iff, forall₂_same]
  intro l hl
  obtain ⟨row, hrow, rfl | ⟨rfl, hne⟩⟩ := Source.row_of_mem_cutLines hl not_mem_nil
  · refine ⟨by simpa using hrow, by simp, .inr ?_⟩
    simp [String.ofList_append]
  · have hlast : (l.getLast? == some '\n') = false := by
      rw [beq_eq_false_iff_ne]
      exact fun hlast => hrow (mem_of_getLast? hlast)
    rw [hlast]
    exact ⟨by simpa using hrow, by simpa using hne, .inl rfl⟩

/-! ### Lines at the prompt -/

/-- The first word of a line. -/
def firstWord? (l : String) : Option String :=
  match Line.ofString l with
  | .ok line => line.words.head?
  | .error _ => none

/-- Whether a line defines a field. -/
def isFieldLine (l : String) : Bool :=
  firstWord? l == some ".field"

/-- Whether a line is a command. -/
def isCommandLine (l : String) : Bool :=
  (firstWord? l).any fun w => (ofName? w).isSome

/-- Whether a line reads a file. -/
def isImportLine (l : String) : Bool :=
  firstWord? l == some fetch.name

/-- Whether a line can be typed as it stands in a script: it opens with an instruction, a label or the directive of
a field, or it is a command whose argument is its operands. -/
def isPromptLine (l : String) : Bool :=
  !Line.isRemark l && match Line.ofString l with
    | .ok ⟨_, _, _, w :: ws⟩ => isOwnWord w || (ofName? w).isSome &&
        (operandsIn (· == ',') ws).any fun xs => (parse l).argument == trimBoth isBlank (" ".intercalate xs)
    | _ => false

/-- A line at the prompt, taken apart. -/
structure IsPrompt (l : String) (line : Line) (w : String) (ws : List String) : Prop where
  read : Line.ofString l = .ok line
  words : line.words = w :: ws
  remark : Line.isRemark l = false
  kind : isOwnWord w = true ∨ ∃ (cmd : Command) (xs : List String), w = cmd.name ∧
    operandsIn (· == ',') ws = some xs ∧ (parse l).argument = trimBoth isBlank (" ".intercalate xs)

theorem isPrompt_of_isPromptLine {l : String} (h : isPromptLine l = true) : ∃ line w ws, IsPrompt l line w ws := by
  rw [isPromptLine, and_eq_true, not_eq_true'] at h
  obtain ⟨hremark, hkind⟩ := h
  split at hkind
  · rename_i raw cleaned comment? w ws hl
    refine ⟨⟨raw, cleaned, comment?, w :: ws⟩, w, ws, hl, rfl, hremark, ?_⟩
    rcases or_eq_true _ _ |>.mp hkind with hown | hcommand
    · exact .inl hown
    · obtain ⟨hname, harg⟩ := and_eq_true _ _ |>.mp hcommand
      obtain ⟨cmd, hcmd⟩ := isSome_iff_exists.mp hname
      obtain ⟨xs, hxs, harg⟩ := (any_eq_true _ _).mp harg
      have hw := find?_some hcmd
      exact .inr ⟨cmd, xs, (beq_iff_eq.mp hw).symm, hxs, beq_iff_eq.mp harg⟩
  · cases hkind

theorem isKnown_typed {w : String} (hw : Opcode.isKnown w = true) :
    (∃ ch, w.toList.head? = some ch ∧ ch.isLower = true) ∧
      ofName? (String.ofList (w.toList.takeWhile isCommandChar)) = none := by
  have names : ∀ w ∈ Opcode.names ++ Opcode.setNames, (w.toList.head?.any Char.isLower) = true ∧
      (all.all fun cmd => cmd.name.toList != w.toList.takeWhile isCommandChar) = true := by
    decide +kernel
  have hmem : w ∈ Opcode.names ++ Opcode.setNames := by
    simpa [Opcode.isKnown] using hw
  obtain ⟨hlower, hcommands⟩ := names w hmem
  refine ⟨(any_eq_true _ _).mp hlower, find?_eq_none.mpr fun cmd hcmd hname => ?_⟩
  have hne := all_eq_true.mp hcommands cmd hcmd
  have heq := congrArg String.toList (beq_iff_eq.mp hname)
  simp [heq] at hne

theorem isOwnWord_typed {w : String} (hw : isOwnWord w = true) :
    (∃ ch, w.toList.head? = some ch ∧ ch ≠ '!' ∧ ch ≠ '?' ∧ ch ≠ 'E') ∧
      ofName? (String.ofList (w.toList.takeWhile isCommandChar)) = none := by
  by_cases hlabel : w.toList.head? = some ':'
  · refine ⟨⟨':', hlabel, by decide, by decide, by decide⟩, ?_⟩
    obtain ⟨cs, hcs⟩ := head?_eq_some_iff.mp hlabel
    rw [hcs, takeWhile_cons_of_neg (by decide)]
    decide
  · by_cases hfield : w = ".field"
    · subst hfield
      exact ⟨⟨'.', rfl, by decide, by decide, by decide⟩, by decide⟩
    · have hknown : Opcode.isKnown w = true := by simpa [isOwnWord, hlabel, hfield] using hw
      obtain ⟨⟨ch, hch, hlower⟩, hnone⟩ := isKnown_typed hknown
      refine ⟨⟨ch, hch, ?_, ?_, ?_⟩, hnone⟩ <;> (rintro rfl; revert hlower; decide)

namespace IsPrompt

variable {l raw w : String} {line : Line} {ws : List String}

theorem firstWord?_eq (h : IsPrompt l line w ws) : firstWord? l = some w := by
  rw [firstWord?, h.read]
  dsimp only
  rw [h.words]
  rfl

theorem word_ne_empty (h : IsPrompt l line w ws) : w ≠ "" := by
  rintro rfl
  rcases h.kind with hown | ⟨cmd, xs, hname, -⟩
  · obtain ⟨⟨ch, hch, -⟩, -⟩ := isOwnWord_typed hown
    cases hch
  · obtain ⟨-, -, hne, -⟩ := cmd.name_written
    exact hne (by rw [← hname]; rfl)

theorem isFieldLine_command (h : IsPrompt l line cmd.name ws) : isFieldLine l = false := by
  obtain ⟨ch, hch, hdot, -⟩ := cmd.head_name
  rw [isFieldLine, h.firstWord?_eq]
  refine beq_eq_false_iff_ne.mpr fun heq => hdot ?_
  rw [some.inj heq] at hch
  exact (some.inj hch).symm

theorem isCommandLine_own (h : IsPrompt l line w ws) (hown : isOwnWord w = true) : isCommandLine l = false := by
  obtain ⟨-, hnone⟩ := isOwnWord_typed hown
  rw [isCommandLine, h.firstWord?_eq, any_some, isSome_eq_false_iff]
  cases hcmd : ofName? w with
  | none => rfl
  | some cmd =>
    have hname := hcmd
    have hw := find?_some hname
    obtain rfl : cmd.name = w := beq_iff_eq.mp hw
    obtain ⟨hchars, -⟩ := cmd.name_written
    rw [takeWhile_eq_self_iff.mpr (by simpa using hchars), String.ofList_toList, hcmd] at hnone
    cases hnone

theorem outcome_readLine (h : IsPrompt l line w ws) (hwritten : Written l raw) (r : Reader Site Console)
    (rest : Lines) (k : Cursor) (st : Slots Site) (c : Console) :
    outcome r.readLine ⟨⟨some raw :: rest⟩, k, st, c⟩ = outcome r.statement ⟨⟨rest⟩, ⟨some line, w :: ws⟩, st, c⟩ := by
  have hcleaned := Line.cleaned_ne_empty h.read (by rw [h.words]; rfl) h.word_ne_empty
  rw [r.outcome_readLine (by rw [hwritten.isRemark_eq, h.remark]) hwritten.2.1 (by rw [hwritten.ofString_eq, h.read])
    hcleaned, h.words]

end IsPrompt

/-! ### Typing -/

/-- The session after a line was typed. -/
def after (files : Files) (t : Session Site Console) (l : String) : Session Site Console :=
  (outcome (typed files l) t).2

/-- The session after lines were typed. -/
def typing (files : Files) (t : Session Site Console) (ls : List String) : Session Site Console :=
  ls.foldl (after files) t

/-- The consoles have the same machine with the same contents: classes, objects, and frames with their registers and
labels; and they have the same root and the same frame in it. -/
structure SameMachine (c d : Console) : Prop where
  store : d.store = c.store
  vm : d.vm = c.vm
  rootClass : d.rootClass = c.rootClass
  root : d.root = c.root
  frame : d.frame = c.frame

theorem Alike.sameMachine {c d : Console} (h : Alike c d) : SameMachine c d :=
  ⟨h.store, h.vm, h.rootClass, h.root, h.frame⟩

theorem outcome_tell_close (htops : IsFresh tops) (run : String → Step Unit) (src : Source) (k : Cursor)
    (st : Slots Site) (c : Console) :
    outcome ((readerFor run).tell .close) ⟨src, k, tops ++ atPrompt st, c⟩
      = (.ok (), ⟨src, k, tops ++ atPrompt st, c⟩) := by
  rcases htops with rfl | ⟨i, rfl⟩ <;> rfl

theorem outcome_publishComment {tops : Slots Site} (htops : IsFresh tops) (run : String → Step Unit)
    (src : Source) (k : Cursor) (st : Slots Site) (c : Console) :
    ∃ res, outcome (readerFor run).publishComment ⟨src, k, tops ++ atPrompt st, c⟩
      = (res, ⟨src, k, tops ++ atPrompt st, c⟩) ∧ (tops = [] → k.line? ≠ none → res = .ok ()) := by
  obtain ⟨_ | ⟨raw, cleaned, _ | comment, words⟩, pending⟩ := k
  · rcases htops with rfl | ⟨i, rfl⟩
    · exact ⟨_, rfl, fun _ h => absurd rfl h⟩
    · exact ⟨_, rfl, fun _ h => absurd rfl h⟩
  · rcases htops with rfl | ⟨i, rfl⟩ <;> exact ⟨_, rfl, fun _ _ => rfl⟩
  · rcases htops with rfl | ⟨i, rfl⟩
    · exact ⟨_, rfl, fun _ _ => rfl⟩
    · exact ⟨_, rfl, fun h => nomatch h⟩

theorem outcome_report_readBody {run : String → Step Unit} {k k' : Cursor} {st st' : Slots Site} {c c' : Console}
    (htops : IsFresh tops)
    (h : outcome (readerFor run).readLine ⟨⟨[some text]⟩, k, st, c⟩ = (res, ⟨⟨[]⟩, k', tops ++ atPrompt st', c'⟩)) :
    (res = .ok () → outcome (tryCatch (readerFor run).readBody report) ⟨⟨[some text]⟩, k, st, c⟩
      = (.ok (), ⟨⟨[]⟩, k', tops ++ atPrompt st', c'⟩)) ∧
    ∃ out, (outcome (tryCatch (readerFor run).readBody report) ⟨⟨[some text]⟩, k, st, c⟩).2.world
      = { c' with output := out } := by
  cases res with
  | ok _ =>
    have hbody := (outcome_readBody_of_last h).trans (outcome_tell_close htops run _ _ _ _)
    rw [outcome_tryCatch, hbody]
    exact ⟨fun _ => rfl, c'.output, rfl⟩
  | error f =>
    refine ⟨fun hok => (nomatch hok), ?_⟩
    have hlines : outcome (do (readerFor run).readLines ((← get).source.lines.length + 1)) ⟨⟨[some text]⟩, k, st, c⟩
        = (.error f, ⟨⟨[]⟩, k', tops ++ atPrompt st', c'⟩) :=
      (bind_ok _ (outcome_get _)).trans (bind_error _ h)
    have hbody : ∃ res, outcome (readerFor run).readBody ⟨⟨[some text]⟩, k, st, c⟩
        = (res, ⟨⟨[]⟩, k', tops ++ atPrompt st', c'⟩) := by
      rw [readBody, outcome_tryCatch, hlines]
      dsimp only
      split
      · exact ⟨_, outcome_tell_close htops run _ _ _ _⟩
      · split <;> exact ⟨_, rfl⟩
    obtain ⟨res, hbody⟩ := hbody
    rw [outcome_tryCatch, hbody]
    cases res with
    | ok _ => exact ⟨c'.output, rfl⟩
    | error f =>
      dsimp only
      unfold report
      split
      · exact ⟨c'.output, rfl⟩
      · exact ⟨_, rfl⟩

namespace IsPrompt

variable {l raw w : String} {line : Line} {ws : List String}

theorem outcome_typed_own (h : IsPrompt l line w ws) (hline : '\n' ∉ l.toList) (hown : isOwnWord w = true)
    (files : Files) {t : Session Site Console} (hshown : t.world.registers.get? (trimBoth isBlank l) = none) :
    outcome (typed files l) t = outcome (tryCatch (reader files).readBody report)
      ⟨⟨[some (trimBoth isBlank l)]⟩, t.cursor, atPrompt t.stack, { t.world with lastLine := trimBoth isBlank l }⟩ := by
  obtain ⟨⟨ch, hch, hexclaim, hquestion, hmark⟩, hnone⟩ := isOwnWord_typed hown
  obtain ⟨hblank, hhead, argument, hparse⟩ := parse_first_word h.read h.words hline hch hexclaim hquestion
  rw [hnone] at hparse
  have hne : trimBoth isBlank l ≠ "" := by
    intro hempty
    rw [hempty] at hhead
    cases hhead
  have hempty : l.isEmpty = false := by
    rw [String.isEmpty_eq_false_iff]
    rintro rfl
    exact hne rfl
  have hend : (trimBoth isBlank l == endMark) = false := by
    rw [beq_eq_false_iff_ne]
    intro heq
    rw [heq] at hhead
    exact hmark (some.inj hhead).symm
  have hsource : Source.ofString (trimBoth isBlank l) = ⟨[some (trimBoth isBlank l)]⟩ := by
    have hrow : '\n' ∉ (trimBoth isBlank l).toList := by
      rw [trimBoth, String.toList_ofList]
      exact fun hmem => hline (mem_of_mem_dropBoth hmem)
    rw [Source.ofString, Source.cutLines_end hrow, if_neg (by simpa using hne)]
    simp
  let t₁ : Session Site Console := { t with world := { t.world with lastLine := trimBoth isBlank l } }
  have hremember : outcome (update fun c => { c with lastLine := trimBoth isBlank l }) t = (.ok (), t₁) := rfl
  have hframe : outcome frameInfo t₁ = (.ok (t₁.world.store.frame t₁.world.frame), t₁) := rfl
  have hvisit : outcome ((reader files).visit (.text (trimBoth isBlank l)) (some .console)) t₁
      = outcome (reader files).readBody ⟨⟨[some (trimBoth isBlank l)]⟩, t.cursor, atPrompt t.stack, t₁.world⟩ := by
    refine ((reader files).outcome_visit (by simpa [Input.isPresent] using hne) rfl rfl .console t.source t.cursor
      t.stack t₁.world).trans ?_
    rw [hsource]
    rfl
  rw [typed, hempty, if_neg Bool.false_ne_true, runLine, hblank, if_neg Bool.false_ne_true, runRequest, hparse]
  rw [if_pos rfl, hend, if_neg Bool.false_ne_true, bind_ok _ hremember, readTyped, hend,
    if_neg Bool.false_ne_true, bind_ok _ hframe]
  have hnoRegister : (t₁.world.store.frame t₁.world.frame).registers.get? (trimBoth isBlank l) = none := hshown
  rw [hnoRegister]
  rw [outcome_tryCatch, hvisit, ← outcome_tryCatch]

theorem outcome_typed_command (h : IsPrompt l line cmd.name ws) (hline : '\n' ∉ l.toList)
    (harg : (parse l).argument = trimBoth isBlank (" ".intercalate xs)) (files : Files)
    (t : Session Site Console) : ∃ last,
    outcome (typed files l) t = outcome (runCommand files (reader files) (trimBoth isBlank (" ".intercalate xs)) cmd)
      { t with world := { t.world with lastLine := last } } := by
  obtain ⟨hchars, -, hne, hname, -, hexclaim, hquestion⟩ := cmd.name_written
  obtain ⟨ch, cs, hcs⟩ := exists_cons_of_ne_nil hne
  have hch : cmd.name.toList.head? = some ch := by rw [hcs]; rfl
  obtain ⟨hblank, hhead, argument, hparse⟩ := parse_first_word h.read h.words hline hch
    (by rintro rfl; exact hexclaim hch) (by rintro rfl; exact hquestion hch)
  rw [takeWhile_eq_self_iff.mpr (by simpa using hchars), String.ofList_toList, hname] at hparse
  rw [hparse] at harg
  obtain rfl : argument = _ := harg
  have hempty : l.isEmpty = false := by
    rw [String.isEmpty_eq_false_iff]
    rintro rfl
    cases hhead
  refine ⟨if trimBoth isBlank l == endMark then "" else trimBoth isBlank l, ?_⟩
  rw [typed, hempty, if_neg Bool.false_ne_true, runLine, hblank, runRequest, hparse]
  rfl

end IsPrompt

theorem source_of_importFile {files : Files} (hfile : files path = some (.text content))
    (hnamed : endsIn scriptEnding path = true) {r : Reader Site Console} {s' : Session Site Console}
    (hnew : path ∉ s.world.imported) (h : outcome (importFile files r path) s = (.ok (), s')) : s'.source = ⟨[]⟩ := by
  rw [outcome_importFile_text hfile hnamed, if_neg (by simp [hnew])] at h
  obtain ⟨-, s₂, -, h⟩ := outcome_bind_eq_ok _ h
  obtain ⟨-, s₃, -, h⟩ := outcome_bind_eq_ok _ h
  cases h
  rfl

/-! ### A line of a script beside the same line at the prompt -/

/-- Whether a script goes on behind a line at a console: the line ends in no fault, and opens no other script. -/
def goesOn (files : Files) (t : Session Site Console) (l : String) : Bool :=
  let o := outcome (reader files).readLine
    ⟨⟨[some l]⟩, t.cursor, .node .console :: t.stack, { t.world with importing := true }⟩
  o.1.isOk && o.2.world.imported == t.world.imported

/-- What is open behind a line of a script, by whether it defines a field. -/
inductive TopsBehind : Bool → List (Slot Site) → Prop
  | field (i : Nat) : TopsBehind true [.node (.loading (.field i))]
  | nothing : TopsBehind false []

theorem TopsBehind.isFresh (h : TopsBehind field tops) : IsFresh tops := by
  cases h with
  | field i => exact .inr ⟨i, rfl⟩
  | nothing => exact .inl rfl

/-- What a line of a script does at a console, compared with the line being typed at another one. -/
inductive Moves (files : Files) (l : String) (rest : List (Option String)) (st : List (Slot Site)) (c : Console)
    (t : Session Site Console) : Except Fault Unit × Session Site Console → Prop
  | on {k : Cursor} {tops : List (Slot Site)} {d : Console} (hon : goesOn files t l = true)
    (htops : TopsBehind (isFieldLine l) tops) (halike : Alike d (after files t l).world)
    (hkept : d.importing = c.importing ∧ d.imported = c.imported ∧ d.readsOnce = c.readsOnce)
    (himported : (after files t l).world.imported = t.world.imported) :
    Moves files l rest st c t (.ok (), ⟨⟨rest⟩, k, tops ++ .node .console :: st, d⟩)
  | stop {res : Except Fault Unit} {s : Session Site Console} {tops below : List (Slot Site)}
    (hstop : goesOn files t l = false) (hend : (∃ f, res = .error f) ∨ s.source = ⟨[]⟩) (htops : IsFresh tops)
    (hstack : s.stack = tops ++ .node .console :: below) (hsame : SameMachine s.world (after files t l).world) :
    Moves files l rest st c t (res, s)

namespace IsPrompt

variable {files : Files} {l raw w : String} {line : Line} {ws : List String} {rest : Lines}
  {k : Cursor} {st : Slots Site} {c : Console} {t : Session Site Console}

theorem written_self (h : IsPrompt l line w ws) (hline : '\n' ∉ l.toList) : Written l l := by
  refine ⟨hline, ?_, .inl rfl⟩
  rintro rfl
  have hread := h.read
  obtain rfl := Except.ok.inj hread
  exact h.word_ne_empty (cons.inj h.words).1.symm

theorem own_moves (h : IsPrompt l line w ws) (hwritten : Written l raw) (hown : isOwnWord w = true)
    (htops : tops = [] ∨ w = ".field" ∧ IsFresh tops) (halike : Alike c t.world)
    (hshown : t.world.registers.get? (trimBoth isBlank l) = none) :
    Moves files l rest st c t (outcome (reader files).readLine ⟨⟨some raw :: rest⟩, k, tops ++ atPrompt st, c⟩) := by
  obtain ⟨run, hrun⟩ : ∃ run, reader files = readerFor run := ⟨runLine files (readerWithin files 99), rfl⟩
  have hscript : outcome (reader files).readLine ⟨⟨some raw :: rest⟩, k, tops ++ atPrompt st, c⟩
      = outcome (readerFor run).statement ⟨⟨rest⟩, ⟨some line, w :: ws⟩, atPrompt st, c⟩ := by
    rw [h.outcome_readLine hwritten, hrun]
    rcases htops with rfl | ⟨rfl, hfresh⟩
    · rfl
    · rw [outcome_statement_field hfresh]
      exact (@outcome_statement_field run [] (.inl rfl) ⟨rest⟩ (some line) ws st c).symm
  -- the line is typed without the white space around it
  let d : Console := { t.world with lastLine := trimBoth isBlank l }
  obtain ⟨res, k', tops', store, out, hq, hs, ht⟩ := @opensAt_statement run run c d w hown
    (fun _ => trimBoth isBlank l) ⟨rest⟩ ⟨[]⟩ (some line) ws st t.stack { halike with }
  have hread : Line.ofString (trimBoth isBlank l) = .ok { line with raw := trimBoth isBlank l } := by
    rw [Line.ofString_trimBoth, h.read]
    rfl
  have hprompt : IsPrompt (trimBoth isBlank l) { line with raw := trimBoth isBlank l } w ws :=
    ⟨hread, h.words, (Line.isRemark_trimBoth l).trans h.remark, .inl hown⟩
  have hrow : '\n' ∉ (trimBoth isBlank l).toList := by
    rw [trimBoth, String.toList_ofList]
    exact fun hmem => hwritten.1 (mem_of_mem_dropBoth hmem)
  have hline := (hprompt.outcome_readLine (hprompt.written_self hrow) (readerFor run) [] t.cursor
    (atPrompt t.stack) d).trans ht
  have hafter : after files t l = (outcome (tryCatch (readerFor run).readBody report)
      ⟨⟨[some (trimBoth isBlank l)]⟩, t.cursor, atPrompt t.stack, d⟩).2 := by
    rw [after, h.outcome_typed_own hwritten.1 hown files hshown, hrun]
  obtain ⟨htyped, out', hworld⟩ := outcome_report_readBody hq.isFresh hline
  -- and tried for itself
  obtain ⟨res', k₂, tops₂, store₂, out₂, -, hs₂, ht₂⟩ := @opensAt_statement run run c
    { t.world with importing := true } w hown id ⟨rest⟩ ⟨[]⟩ (some line) ws st t.stack { halike with }
  obtain rfl : res' = res := (Prod.mk.inj (hs₂.symm.trans hs)).1
  have htried := (h.outcome_readLine (h.written_self hwritten.1) (readerFor run) [] t.cursor
    (atPrompt t.stack) { t.world with importing := true }).trans ht₂
  have hgoes : goesOn files t l = res'.isOk := by
    rw [goesOn, hrun, htried]
    exact (and_eq_left_iff_imp.mpr fun _ => beq_self_eq_true _)
  rw [hscript, hs]
  cases res' with
  | ok _ =>
    have hfield : TopsBehind (isFieldLine l) tops' := by
      rw [isFieldLine, h.firstWord?_eq]
      by_cases hw : w = ".field"
      · subst hw
        obtain ⟨i, rfl⟩ := hq
        exact .field i
      · have hne : (some w == some ".field") = false := by simpa using hw
        rw [hne]
        rw [StatementTops, if_neg hw] at hq
        obtain rfl := hq
        exact .nothing
    rw [htyped rfl] at hafter
    have hboth : Alike (c.put store out) (after files t l).world := by
      rw [hafter]
      exact { halike.put store out with }
    have himported : (after files t l).world.imported = t.world.imported := by
      rw [hafter]
      rfl
    exact @Moves.on files l rest st c t k' tops' (c.put store out) hgoes hfield hboth ⟨rfl, rfl, rfl⟩ himported
  | error f =>
    refine .stop hgoes (.inl ⟨f, rfl⟩) hq.isFresh rfl ?_
    rw [hafter, hworld]
    exact { (halike.put store out).sameMachine with }

section

variable (h : IsPrompt l line cmd.name ws)

include h

theorem outcome_readLine_command (hxs : operandsIn (· == ',') ws = some xs)
    (files : Files) : ∃ last, ∀ raw rest k st c, Written l raw →
      c.importing = true → outcome (reader files).readLine ⟨⟨some raw :: rest⟩, k, atPrompt st, c⟩
        = outcome (runCommand files (readerWithin files 99) (trimBoth isBlank (" ".intercalate xs)) cmd >>= fun _ =>
            (reader files).publishComment)
          ⟨⟨rest⟩, ⟨some line, []⟩, atPrompt st, { c with lastLine := last }⟩ := by
  obtain ⟨last, hlast⟩ := outcome_runLine_command cmd (" ".intercalate xs)
  refine ⟨last, fun raw rest k st c hwritten himporting => ?_⟩
  rw [h.outcome_readLine hwritten]
  rcases outcome_statement_command cmd (some line) ws with ⟨hnone, -⟩ | ⟨ys, hys, hstatement⟩
  · rw [hxs] at hnone
    cases hnone
  · obtain rfl : xs = ys := some.inj (hxs.symm.trans hys)
    have hrun : ∀ (run : String → Step Unit) (s : Session Site Console), s.world.importing = true →
        outcome (onConsole run (.instruction (.text cmd.name) (.texts xs)) >>= fun _ => (readerFor run).publishComment) s
          = outcome (run (cmd.name ++ " " ++ " ".intercalate xs) >>= fun _ => (readerFor run).publishComment) s := by
      intro run s hs
      rw [outcome_bind, outcome_onConsole_command, if_pos hs, outcome_bind, outcome_bind]
      rcases outcome (run (cmd.name ++ " " ++ " ".intercalate xs)) s with ⟨_ | _, _⟩ <;> rfl
    refine (hstatement (runLine files (readerWithin files 99)) ⟨rest⟩ st c).trans ?_
    rw [hrun _ _ himporting, outcome_bind, hlast, ← outcome_bind]
    rfl

/-- A command that uses the machine and the printer alone, and uses them in the same way in a script, at the prompt
and for itself. -/
theorem ran_moves {arg last last' : String} (hwritten : Written l raw)
    (halike : Alike c t.world) (himporting : c.importing = true)
    (hread : ∀ raw rest k st c, Written l raw → c.importing = true → outcome (reader files).readLine ⟨⟨some raw :: rest⟩, k, atPrompt st, c⟩ = outcome (runCommand files (readerWithin files 99) arg cmd >>= fun _ => (reader files).publishComment) ⟨⟨rest⟩, ⟨some line, []⟩, atPrompt st, { c with lastLine := last }⟩)
    {w w' : Store} {out out' : String}
    (hs : outcome (runCommand files (readerWithin files 99) arg cmd) ⟨⟨rest⟩, ⟨some line, []⟩, atPrompt st, { c with lastLine := last }⟩ = (res, ⟨⟨rest⟩, ⟨some line, []⟩, atPrompt st, { c.put w out with lastLine := last }⟩))
    (ht : outcome (typed files l) t = (res, { t with world := { t.world.put w out with lastLine := last' } }))
    (hu : outcome (runCommand files (readerWithin files 99) arg cmd) ⟨⟨[]⟩, ⟨some line, []⟩, atPrompt t.stack, { t.world with importing := true, lastLine := last }⟩ = (res, ⟨⟨[]⟩, ⟨some line, []⟩, atPrompt t.stack, { t.world.put w' out' with importing := true, lastLine := last }⟩)) :
    Moves files l rest st c t (outcome (reader files).readLine ⟨⟨some raw :: rest⟩, k, atPrompt st, c⟩) := by
  have hcomment : ∀ src st c, outcome (reader files).publishComment ⟨src, ⟨some line, []⟩, atPrompt st, c⟩
        = (.ok (), ⟨src, ⟨some line, []⟩, atPrompt st, c⟩) := by
    intro src st c
    obtain ⟨res, hres, hok⟩ := @outcome_publishComment [] (.inl rfl) (runLine files (readerWithin files 99)) src
      ⟨some line, []⟩ st c
    obtain rfl := hok rfl (by simp)
    exact hres
  have hgoes : goesOn files t l = res.isOk := by
    rw [goesOn, hread l [] t.cursor t.stack { t.world with importing := true } (h.written_self hwritten.1) rfl]
    cases res with
    | ok _ =>
      rw [bind_ok _ hu, hcomment]
      exact and_eq_left_iff_imp.mpr fun _ => beq_self_eq_true _
    | error f =>
      rw [bind_error _ hu]
      rfl
  have hafter : after files t l = { t with world := { t.world.put w out with lastLine := last' } } := by
    rw [after, ht]
  have hboth : Alike { c.put w out with lastLine := last } (after files t l).world := by
    rw [hafter]
    exact { halike.put w out with }
  rw [hread raw rest k st c hwritten himporting]
  cases res with
  | ok _ =>
    have himported : (after files t l).world.imported = t.world.imported := by
      rw [hafter]
      rfl
    have htops : TopsBehind (isFieldLine l) [] := by
      rw [h.isFieldLine_command]
      exact .nothing
    rw [bind_ok _ hs, hcomment]
    exact @Moves.on files l rest st c t ⟨some line, []⟩ [] { c.put w out with lastLine := last } hgoes htops hboth
      ⟨rfl, rfl, rfl⟩ himported
  | error f =>
    rw [bind_error _ hs]
    exact @Moves.stop files l rest st c t (.error f) _ [] st hgoes (.inl ⟨f, rfl⟩) (.inl rfl) rfl hboth.sameMachine

theorem command_moves (hwritten : Written l raw) (hxs : operandsIn (· == ',') ws = some xs)
    (harg : (parse l).argument = trimBoth isBlank (" ".intercalate xs)) (hcmd : cmd ≠ .fetch)
    (halike : Alike c t.world) (himporting : c.importing = true) :
    Moves files l rest st c t (outcome (reader files).readLine ⟨⟨some raw :: rest⟩, k, atPrompt st, c⟩) := by
  obtain ⟨last, hread⟩ := h.outcome_readLine_command hxs files
  obtain ⟨last', htyped⟩ := h.outcome_typed_command hwritten.1 harg files t
  let s₁ : Session Site Console := ⟨⟨rest⟩, ⟨some line, []⟩, atPrompt st, { c with lastLine := last }⟩
  let t₁ : Session Site Console := { t with world := { t.world with lastLine := last' } }
  let u₁ : Session Site Console :=
    ⟨⟨[]⟩, ⟨some line, []⟩, atPrompt t.stack, { t.world with importing := true, lastLine := last }⟩
  obtain ⟨res, w, out, hs, ht⟩ := common_runCommand hcmd (trimBoth isBlank (" ".intercalate xs)) files files
    (readerWithin files 99) (reader files) s₁ t₁ { halike with }
  obtain ⟨res', w', out', hs', hu⟩ := common_runCommand hcmd (trimBoth isBlank (" ".intercalate xs)) files files
    (readerWithin files 99) (readerWithin files 99) s₁ u₁ { halike with }
  obtain rfl : res' = res := (Prod.mk.inj (hs'.symm.trans hs)).1
  exact h.ran_moves hwritten halike himporting hread hs (htyped.trans ht) hu

end

theorem import_moves (h : IsPrompt l line fetch.name ws) (hwritten : Written l raw)
    (hxs : operandsIn (· == ',') ws = some xs)
    (harg : (parse l).argument = trimBoth isBlank (" ".intercalate xs)) {paths : List String}
    (hfolder : IsFolder files paths) (hfew : paths.length < depthLimit) (honce : c.readsOnce = true)
    (himported : t.world.imported = c.imported) (halike : Alike c t.world) (himporting : c.importing = true) :
    Moves files l rest st c t
      (outcome (reader files).readLine ⟨⟨some raw :: rest⟩, k, atPrompt st, c⟩) := by
  obtain ⟨last, hread⟩ := h.outcome_readLine_command hxs files
  obtain ⟨last', htyped⟩ := h.outcome_typed_command hwritten.1 harg files t
  let path := trimBoth isBlank (" ".intercalate xs)
  let s₁ : Session Site Console := ⟨⟨rest⟩, ⟨some line, []⟩, atPrompt st, { c with lastLine := last }⟩
  let t₁ : Session Site Console := { t with world := { t.world with lastLine := last' } }
  let u₁ : Session Site Console :=
    ⟨⟨[]⟩, ⟨some line, []⟩, atPrompt t.stack, { t.world with importing := true, lastLine := last }⟩
  have hlimit : paths.length ≤ 99 := Nat.le_of_lt_succ hfew
  have beside : ∀ (m : Nat) (u : Session Site Console), paths.length ≤ m → Alike c u.world →
      u.world.imported = c.imported → Alongside ⟨paths, fun _ => True, paths.length, False, s₁.stack, u.stack⟩ False
        files path (importFile files (readerWithin files 99) path) (importFile files (readerWithin files m) path) s₁ u := by
    intro m u hm hu hu'
    refine readers_alongside hfolder (fun _ => .inl rfl) (fun _ _ _ _ _ => trivial) hlimit hm ?_ path
    exact {
      cursor := fun hf => hf.elim
      below := rfl
      below' := rfl
      alike := { hu with }
      imported := hu'
      lastLine := fun hf => hf.elim
      sound := ⟨honce, trivial, length_filter_le _ _⟩ }
  obtain ⟨res, s', t', hs, ht, hend⟩ := beside depthLimit t₁ (Nat.le_of_lt hfew) { halike with } himported
  obtain ⟨res', s'', u', hs', hu, hend'⟩ := beside 99 u₁ hlimit { halike with } himported
  obtain ⟨rfl, rfl⟩ : res' = res ∧ s'' = s' := Prod.mk.inj (hs'.symm.trans hs)
  have hafter : after files t l = t' := by
    rw [after, htyped]
    exact congrArg Prod.snd ht
  rcases hend with ⟨hold, w, out, rfl, rfl⟩ | ⟨hnew, hmem, hbeside⟩
  · rcases hend' with ⟨-, w', out', -, rfl⟩ | ⟨hnew, -⟩
    · exact h.ran_moves hwritten halike himporting hread hs (htyped.trans ht) hu
    · exact absurd hnew hold
  · rcases hend' with ⟨hold, -⟩ | ⟨-, -, hbeside'⟩
    · exact absurd hnew hold
    -- the script that was opened is read to its end, and with it the script that opened it
    obtain ⟨hunread, content, hcontent⟩ := hnew
    have hsame : SameMachine s''.world (after files t l).world := hafter ▸ hbeside.alike.sameMachine
    obtain ⟨tops, mid, hfresh, hstack, -⟩ := hbeside.stack
    obtain ⟨tops', mid', hfresh', -, hstack'⟩ := hbeside'.stack
    have quiet : ∀ {tops : Slots Site} {below : Slots Site} {s : Session Site Console}, IsFresh tops →
        s.stack = tops ++ atPrompt below → ∃ res, outcome (reader files).publishComment s = (res, s) := by
      rintro tops below ⟨src, k, st, c⟩ htops hst
      obtain rfl : st = _ := hst
      obtain ⟨res, hres, -⟩ := outcome_publishComment htops (runLine files (readerWithin files 99)) src k below c
      exact ⟨res, hres⟩
    have hstop : goesOn files t l = false := by
      have hopened : ∃ res, outcome (reader files).readLine
          ⟨⟨[some l]⟩, t.cursor, atPrompt t.stack, { t.world with importing := true }⟩ = (res, u') := by
        rw [hread l [] t.cursor t.stack { t.world with importing := true } (h.written_self hwritten.1) rfl]
        cases res' with
        | ok _ =>
          obtain ⟨res, hres⟩ := quiet hfresh' hstack'
          exact ⟨res, (bind_ok _ hu).trans hres⟩
        | error f => exact ⟨.error f, bind_error _ hu⟩
      obtain ⟨res, hres⟩ := hopened
      rw [goesOn, hres, and_eq_false_iff]
      right
      refine beq_eq_false_iff_ne.mpr fun heq => hunread ?_
      have hu' : u'.world.imported = t.world.imported := heq
      rw [hbeside'.imported, himported] at hu'
      rw [← hu']
      exact hmem
    rw [hread raw rest k st c hwritten himporting]
    cases res' with
    | error f =>
      have hline : outcome (importFile files (readerWithin files 99) path >>= fun _ => (reader files).publishComment) s₁
          = (.error f, s'') := bind_error _ hs
      refine hline ▸ ?_
      exact .stop hstop (.inl ⟨f, rfl⟩) hfresh hstack hsame
    | ok _ =>
      obtain ⟨res, hres⟩ := quiet hfresh hstack
      have hsource := source_of_importFile hcontent (hfolder.named path content hcontent) hunread hs
      have hline : outcome (importFile files (readerWithin files 99) path >>= fun _ => (reader files).publishComment) s₁
          = (res, s'') := (bind_ok _ hs).trans hres
      refine hline ▸ ?_
      exact .stop hstop (.inr hsource) hfresh hstack hsame

end IsPrompt

/-! ### Scripts -/

/-- The lines of a script that are performed, if the lines are typed at a console one after another: all of them, up
to the first one behind which the script does not go on, or behind which something else than a field follows a
field. -/
def performed (files : Files) : Bool → Session Site Console → List String → List String
  | _, _, [] => []
  | field, t, l :: ls =>
    if field && !isFieldLine l then []
    else if goesOn files t l then l :: performed files (isFieldLine l) (after files t l) ls
    else [l]

/-- Whether each line that is typed is a command, or names no register at its turn. -/
def unshown (files : Files) : Session Site Console → List String → Bool
  | _, [] => true
  | t, l :: ls =>
    (isCommandLine l || (t.world.registers.get? (trimBoth isBlank l)).isNone) && unshown files (after files t l) ls

/-- Lines may be read at one console and typed at another: they read no files, or only scripts that are there, each
of them once, and the same ones count as read. -/
def MayImport (files : Files) (c d : Console) (ls : List String) : Prop :=
  (∀ l ∈ ls, isImportLine l = false) ∨
    ∃ paths, IsFolder files paths ∧ paths.length < depthLimit ∧ c.readsOnce = true ∧ d.imported = c.imported

section Scripts

variable {files : Files}
variable {c : Console} {t : Session Site Console} {l raw w : String} {ws : List String} {line : Line}

theorem IsPrompt.refused_behind_field (h : IsPrompt l line w ws)
    (hwritten : Written l raw) (hfield : isFieldLine l = false) (rest : Lines) (k : Cursor) (i : Nat)
    (st : Slots Site) (c : Console) :
    ∃ f k', outcome (reader files).readLine ⟨⟨some raw :: rest⟩, k, .node (.loading (.field i)) :: st, c⟩
      = (.error f, ⟨⟨rest⟩, k', .node (.loading (.field i)) :: st, c⟩) := by
  have hhead : ∃ ch, w.toList.head? = some ch ∧ ch ≠ '.' := by
    rcases h.kind with hown | ⟨cmd, xs, rfl, -⟩
    · refine head_of_isOwnWord hown ?_
      rintro rfl
      rw [isFieldLine, h.firstWord?_eq] at hfield
      cases hfield
    · obtain ⟨ch, hch, hdot, -⟩ := cmd.head_name
      exact ⟨ch, hch, hdot⟩
  obtain ⟨ch, hch, hdot⟩ := hhead
  rw [h.outcome_readLine hwritten]
  exact ⟨_, _, outcome_statement_behind_field hch hdot _ _ _ _ _ _⟩

theorem IsPrompt.moves (h : IsPrompt l line w ws)
    (hwritten : Written l raw) (htops : TopsBehind field tops) (hfield : field = true → isFieldLine l = true)
    (halike : Alike c t.world) (himporting : c.importing = true) (himports : MayImport files c t.world (l :: ls))
    (hshown : (isCommandLine l || (t.world.registers.get? (trimBoth isBlank l)).isNone) = true)
    (rest : Lines) (k : Cursor) (st : Slots Site) :
    Moves files l rest st c t (outcome (reader files).readLine ⟨⟨some raw :: rest⟩, k, tops ++ atPrompt st, c⟩) := by
  rcases h.kind with hown | ⟨cmd, xs, rfl, hxs, harg⟩
  · rw [h.isCommandLine_own hown, Bool.false_or, isNone_iff_eq_none] at hshown
    refine h.own_moves hwritten hown ?_ halike hshown
    cases htops with
    | nothing => exact .inl rfl
    | field i =>
      refine .inr ⟨?_, .inr ⟨i, rfl⟩⟩
      have hword := hfield rfl
      rw [isFieldLine, h.firstWord?_eq] at hword
      simpa using hword
  · obtain rfl : field = false := by
      cases field with
      | false => rfl
      | true => exact absurd (hfield rfl) (by rw [h.isFieldLine_command]; decide)
    cases htops
    by_cases hcmd : cmd = .fetch
    · subst hcmd
      rcases himports with hnone | ⟨paths, hfolder, hfew, honce, himported⟩
      · have hline := hnone l mem_cons_self
        rw [isImportLine, h.firstWord?_eq] at hline
        simp at hline
      · exact h.import_moves hwritten hxs harg hfolder hfew honce himported halike himporting
    · exact h.command_moves hwritten hxs harg hcmd halike himporting

theorem readLines_typing {raws : List String} (hwritten : Forall₂ Written ls raws)
    (hprompt : ∀ l ∈ ls, isPromptLine l = true) (htops : TopsBehind field tops) (halike : Alike c t.world)
    (himporting : c.importing = true) (himports : MayImport files c t.world ls)
    (hunshown : unshown files t (performed files field t ls) = true) (k : Cursor) (st : Slots Site) {n : Nat}
    (hn : ls.length < n) :
    ∃ f s' tops' below, outcome ((reader files).readLines n) ⟨⟨raws.map some⟩, k, tops ++ atPrompt st, c⟩
        = (.error f, s') ∧ IsFresh tops' ∧ s'.stack = tops' ++ atPrompt below ∧
      SameMachine s'.world (typing files t (performed files field t ls)).world := by
  induction hwritten generalizing field tops c t k st n with
  | nil =>
    obtain ⟨n, rfl⟩ : ∃ m, n = m + 1 := ⟨n - 1, by omega⟩
    exact ⟨.endOfSource, _, tops, st, rfl, htops.isFresh, rfl, halike.sameMachine⟩
  | @cons l raw ls raws hl _ ih =>
    obtain ⟨n, rfl⟩ : ∃ m, n = m + 1 := ⟨n - 1, by omega⟩
    have hless : ls.length < n := by simpa using hn
    obtain ⟨line, w, ws, hread⟩ := isPrompt_of_isPromptLine (hprompt l mem_cons_self)
    rw [map_cons, readLines]
    rw [performed] at hunshown ⊢
    by_cases hopen : (field && !isFieldLine l) = true
    · -- a field is open and something else follows
      obtain ⟨rfl, hother⟩ := and_eq_true _ _ |>.mp hopen
      cases htops with
      | field i =>
        obtain ⟨f, k', hrefused⟩ := @IsPrompt.refused_behind_field files _ _ _ _ _ hread hl (by simpa using hother)
          (raws.map some) k i (atPrompt st) c
        rw [if_pos hopen]
        exact ⟨f, _, [.node (.loading (.field i))], st, bind_error _ hrefused, .inr ⟨i, rfl⟩, rfl, halike.sameMachine⟩
    · rw [if_neg hopen] at hunshown ⊢
      have hshown : (isCommandLine l || (t.world.registers.get? (trimBoth isBlank l)).isNone) = true := by
        split at hunshown <;> exact (and_eq_true _ _ |>.mp hunshown).1
      have hmoves := hread.moves hl htops (by simpa using hopen) halike himporting himports hshown (raws.map some) k st
      generalize ho : outcome (reader files).readLine _ = o at hmoves
      cases hmoves with
      | @on k' tops' d hon htops' halike' hkept himported =>
        rw [if_pos hon] at hunshown ⊢
        have himports' : MayImport files d (after files t l).world ls := by
          rcases himports with hnone | ⟨paths, hfolder, hfew, honce, hsame⟩
          · exact .inl fun m hm => hnone m (mem_cons_of_mem _ hm)
          · exact .inr ⟨paths, hfolder, hfew, hkept.2.2.trans honce, by rw [himported, hsame, hkept.2.1]⟩
        rw [bind_ok _ ho]
        exact ih (fun m hm => hprompt m (mem_cons_of_mem _ hm)) htops' halike' (hkept.1.trans himporting)
          himports' (and_eq_true _ _ |>.mp hunshown).2 k' st hless
      | @stop res s tops' below hstop hend htops' hstack hsame =>
        rw [if_neg (by simp [hstop])] at hunshown ⊢
        cases res with
        | error f => exact ⟨f, s, tops', below, bind_error _ ho, htops', hstack, hsame⟩
        | ok _ =>
          obtain ⟨src, k', st', d⟩ := s
          rcases hend with ⟨f, hf⟩ | hend
          · cases hf
          · obtain rfl : src = ⟨[]⟩ := hend
            obtain ⟨n, rfl⟩ : ∃ m, n = m + 1 := ⟨n - 1, by omega⟩
            exact ⟨.endOfSource, _, tops', below, bind_ok _ ho, htops', hstack, hsame⟩

/-- The lines of the script in a file. -/
def scriptLines (content : String) : List String :=
  inputLines (String.ofList (lineFeeds content.toList))

/-- The session in which a file counts as read. -/
def noted (path : String) (s : Session Site Console) : Session Site Console :=
  { s with world := { s.world with imported := path :: s.world.imported } }

theorem importFile_typing (hfile : files path = some (.text content)) (hnamed : endsIn scriptEnding path = true)
    (hprompt : ∀ l ∈ scriptLines content, isPromptLine l = true)
    (hnew : path ∉ s.world.imported ∨ s.world.readsOnce = false) (halike : Alike s.world t.world)
    (himports : MayImport files (noted path s).world t.world (scriptLines content))
    (hunshown : unshown files t (performed files false t (scriptLines content)) = true) :
    SameMachine (outcome (importFile files (reader files) path) s).2.world
      (typing files t (performed files false t (scriptLines content))).world := by
  unfold scriptLines at hprompt himports hunshown ⊢
  have hcontains : (s.world.imported.contains path && s.world.readsOnce) = false := by
    rcases hnew with hnew | honce
    · simp [hnew]
    · rw [honce, Bool.and_false]
  obtain ⟨raws, hlines, hwritten⟩ := written_inputLines (String.ofList (lineFeeds content.toList))
  let c : Console := { (noted path s).world with importing := true }
  obtain ⟨f, s', tops, below, hread, htops, hstack, hsame⟩ := readLines_typing hwritten hprompt .nothing
    (show Alike c t.world from { halike with }) rfl (himports.imp_right fun ⟨paths, h⟩ => ⟨paths, h⟩) hunshown s.cursor
    s.stack (Nat.lt_succ_self _)
  have hbody : ∃ res, outcome (reader files).readBody
      ⟨.ofString (String.ofList (lineFeeds content.toList)), s.cursor, atPrompt s.stack, c⟩ = (res, s') := by
    have hlength : (raws.map some).length = (inputLines (String.ofList (lineFeeds content.toList))).length := by
      rw [length_map, hwritten.length_eq]
    have hsource : Source.ofString (String.ofList (lineFeeds content.toList)) = ⟨raws.map some⟩ := by
      rw [← hlines]
    have hread' : outcome ((reader files).readLines ((raws.map some).length + 1))
        ⟨⟨raws.map some⟩, s.cursor, atPrompt s.stack, c⟩ = (.error f, s') := by
      rw [hlength]
      exact hread
    rw [hsource, readBody, outcome_tryCatch, bind_ok _ (outcome_get _), hread']
    dsimp only
    split
    · obtain ⟨src, k, st, d⟩ := s'
      obtain rfl : st = _ := hstack
      exact ⟨_, outcome_tell_close htops (runLine files (readerWithin files 99)) _ _ _ _⟩
    · split <;> exact ⟨_, rfl⟩
  obtain ⟨res, hbody⟩ := hbody
  have hvisit : outcome ((reader files).visit (.stream (String.ofList (lineFeeds content.toList))) (some .console))
      ⟨s.source, s.cursor, s.stack, c⟩ = (res, s') :=
    ((reader files).outcome_visit rfl rfl rfl .console _ _ _ _).trans hbody
  have hset : outcome (update fun c => { c with importing := true }) (noted path s)
      = (.ok (), ⟨s.source, s.cursor, s.stack, c⟩) := rfl
  have hscript : ∃ importing, (outcome (readScript (reader files) (String.ofList (lineFeeds content.toList)))
      (noted path s)).2.world = { s'.world with importing := importing } := by
    rw [readScript, bind_ok _ hset]
    cases res with
    | ok _ =>
      rw [bind_ok _ hvisit]
      exact ⟨false, rfl⟩
    | error f =>
      rw [bind_error _ hvisit]
      exact ⟨s'.world.importing, rfl⟩
  obtain ⟨importing, hscript⟩ := hscript
  have hnoted : { s with world := { s.world with imported := path :: s.world.imported } } = noted path s := rfl
  rw [outcome_importFile_text hfile hnamed, hcontains, if_neg Bool.false_ne_true, hnoted, hscript]
  exact ⟨hsame.store, hsame.vm, hsame.rootClass, hsame.root, hsame.frame⟩

theorem performed_eq_self_iff :
    performed files field t ls = ls ↔ (field = true → ∀ m, ls.head? = some m → isFieldLine m = true) ∧
      ∀ front l m back, ls = front ++ l :: m :: back →
        goesOn files (typing files t front) l = true ∧ (isFieldLine l = true → isFieldLine m = true) := by
  induction ls generalizing field t with
  | nil => simp [performed]
  | cons l ls ih =>
    rw [performed]
    by_cases hopen : (field && !isFieldLine l) = true
    · rw [if_pos hopen]
      refine ⟨fun hnil => (nomatch hnil), fun h => ?_⟩
      obtain ⟨rfl, hother⟩ := and_eq_true _ _ |>.mp hopen
      have hfield := h.1 rfl l rfl
      simp [hfield] at hother
    · rw [if_neg hopen]
      have hhead : field = true → ∀ m, (l :: ls).head? = some m → isFieldLine m = true := by
        rintro rfl m hm
        obtain rfl : l = m := some.inj hm
        simpa using hopen
      by_cases hon : goesOn files t l = true
      · rw [if_pos hon, cons_inj_right, ih]
        constructor
        · rintro ⟨hnext, hrest⟩
          refine ⟨hhead, fun front l' m back heq => ?_⟩
          cases front with
          | nil =>
            obtain ⟨rfl, rfl⟩ := cons.inj heq
            exact ⟨hon, fun hfield => hnext hfield m rfl⟩
          | cons x front =>
            obtain ⟨rfl, rfl⟩ := cons.inj heq
            exact hrest front l' m back rfl
        · rintro ⟨-, hall⟩
          refine ⟨fun hfield m hm => ?_, fun front l' m back heq => ?_⟩
          · obtain ⟨back, rfl⟩ := head?_eq_some_iff.mp hm
            exact (hall [] l m back rfl).2 hfield
          · exact hall (l :: front) l' m back (by rw [heq]; rfl)
      · rw [if_neg hon]
        constructor
        · intro heq
          obtain rfl : [] = ls := (cons.inj heq).2
          refine ⟨hhead, fun front l' m back heq => ?_⟩
          have hlength := congrArg List.length heq
          simp at hlength
          omega
        · rintro ⟨-, hall⟩
          cases ls with
          | nil => rfl
          | cons m back => exact absurd (hall [] l m back rfl).1 hon

/-- **A script does what typing its lines does.** Let the lines of a script be fields, labels, instructions and
commands that can be typed as they stand, and let the script be read at a console that has not read it.

If no line reads a file, then the script leaves the same machine (classes, objects with their fields, and frames with
their registers and labels) as typing the lines that are performed at the same console. If lines read scripts, each of
them once, then it leaves the same machine as typing the performed lines at the same console, where the script itself
counts as read. Both hold as long as no line that is typed is the name of a register at its turn.

The performed lines are all lines exactly if each but the last one ends in no fault and opens no other script at its
turn, and only fields are behind fields. -/
theorem script_is_its_performed_lines {path content : String} (hfile : files path = some (.text content))
    (hnamed : Files.endsIn scriptEnding path = true) (hprompt : ∀ l ∈ scriptLines content, isPromptLine l = true)
    {s : Session Site Console} (hnew : path ∉ s.world.imported ∨ s.world.readsOnce = false) :
    ((∀ l ∈ scriptLines content, isImportLine l = false) →
      unshown files s (performed files false s (scriptLines content)) = true →
      SameMachine (outcome (importFile files (reader files) path) s).2.world
        (typing files s (performed files false s (scriptLines content))).world) ∧
    (∀ paths, IsFolder files paths → paths.length < depthLimit → s.world.readsOnce = true →
      unshown files (noted path s) (performed files false (noted path s) (scriptLines content)) = true →
      SameMachine (outcome (importFile files (reader files) path) s).2.world
        (typing files (noted path s) (performed files false (noted path s) (scriptLines content))).world) ∧
    ∀ t, performed files false t (scriptLines content) = scriptLines content ↔
      ∀ front l m back, scriptLines content = front ++ l :: m :: back →
        goesOn files (typing files t front) l = true ∧ (isFieldLine l = true → isFieldLine m = true) := by
  refine ⟨fun hnone hunshown => ?_, fun paths hfolder hfew honce hunshown => ?_, fun t => ?_⟩
  · exact importFile_typing hfile hnamed hprompt hnew (.refl _) (.inl hnone) hunshown
  · exact importFile_typing hfile hnamed hprompt hnew { Alike.refl s.world with }
      (.inr ⟨paths, hfolder, hfew, honce, rfl⟩) hunshown
  · rw [performed_eq_self_iff]
    exact and_iff_right fun hf => nomatch hf

end Scripts

/-- A script with an instruction, a label, a command and a field, and one that reads itself and another. -/
def tale : Files
  | "a.ssf" => some (.text "const v0, 7\n:here\n  label\n.field public x:I = 3\n")
  | "b.ssf" => some (.text "const v1, 1\nimport b.ssf\nimport c.ssf\n")
  | "c.ssf" => some (.text "del v1\n")
  | _ => some .missing

/-- Reading the scripts does what typing all of their lines does. -/
theorem script_is_its_performed_lines_tale :
    SameMachine (outcome (importFile tale (reader tale) "a.ssf") (start true)).2.world
      (typing tale (start true) ["const v0, 7", ":here", "  label", ".field public x:I = 3"]).world ∧
    SameMachine (outcome (importFile tale (reader tale) "b.ssf") (start true)).2.world
      (typing tale (noted "b.ssf" (start true)) ["const v1, 1", "import b.ssf", "import c.ssf"]).world := by
  constructor
  · have hperformed : performed tale false (start true)
          (scriptLines "const v0, 7\n:here\n  label\n.field public x:I = 3\n")
        = ["const v0, 7", ":here", "  label", ".field public x:I = 3"] := by decide +kernel
    obtain ⟨h, -, -⟩ := @script_is_its_performed_lines tale "a.ssf"
      "const v0, 7\n:here\n  label\n.field public x:I = 3\n" rfl (by decide +kernel) (by decide +kernel) (start true)
      (.inl (by decide +kernel))
    rw [hperformed] at h
    exact h (by decide +kernel) (by decide +kernel)
  · have hperformed : performed tale false (noted "b.ssf" (start true))
          (scriptLines "const v1, 1\nimport b.ssf\nimport c.ssf\n")
        = ["const v1, 1", "import b.ssf", "import c.ssf"] := by decide +kernel
    have hfolder : IsFolder tale ["a.ssf", "b.ssf", "c.ssf"] := by
      refine ⟨fun path content h => ?_, fun path content h => ?_, fun path content h => ?_⟩ <;> unfold tale at h <;>
        split at h <;> cases h <;> decide +kernel
    obtain ⟨-, h, -⟩ := @script_is_its_performed_lines tale "b.ssf" "const v1, 1\nimport b.ssf\nimport c.ssf\n" rfl
      (by decide +kernel) (by decide +kernel) (start true) (.inl (by decide +kernel))
    rw [hperformed] at h
    exact h _ hfolder (by decide) rfl (by decide +kernel)

/-- A script in which an instruction is behind a field. -/
def cutShort : Files
  | "a.ssf" => some (.text ".field public x:I\nconst v0, 1\n")
  | _ => some .missing

/-- An instruction behind a field is performed when it is typed, but not when it stands in a script. -/
theorem instruction_behind_field_lost : (∀ l ∈ scriptLines ".field public x:I\nconst v0, 1\n", isPromptLine l = true) ∧
      (outcome (importFile cutShort (reader cutShort) "a.ssf") (start true)).2.world.registers.get? "v0" = none ∧
      (typing cutShort (start true) (scriptLines ".field public x:I\nconst v0, 1\n")).world.registers.get? "v0"
        = some (.int 1) := by
  decide +kernel

end Console

end Dalvik
