import Dalvik.Proofs.Operands

/-!
# Layouts of operands

The operands of an instruction may stand behind each other with commas, with spaces or with both between them. How a
line is cut into words depends on the layout: operands with nothing but a comma between them are in one word, and a
comma in front of a space is left at the end of a word. The operands that are read do not depend on it
(`Reader.readLine_layout`).
-/

namespace Dalvik

open Dalvik.Text Reader Document List String

/-- What stands between two operands. -/
inductive Separator where
  | comma
  | commaSpace
  | space

/-- Operands behind a first one, each with what stands in front of it. -/
abbrev Layout : Type := List (Separator × String)

namespace Layout

def text : Layout → String
  | [] => ""
  | (.comma, x) :: rest => "," ++ x ++ text rest
  | (.commaSpace, x) :: rest => ", " ++ x ++ text rest
  | (.space, x) :: rest => " " ++ x ++ text rest

/-- The words of a line that goes on with a layout behind `word`. -/
def words (word : String) : Layout → List String
  | [] => [word]
  | (.comma, x) :: rest => words (word ++ "," ++ x) rest
  | (.commaSpace, x) :: rest => (word ++ ",") :: words x rest
  | (.space, x) :: rest => word :: words x rest

variable {word : String} {rest : Layout}

theorem words_ne_nil : words word rest ≠ [] := by
  fun_induction words word rest <;> simp_all

theorem intercalate_words : " ".intercalate (words word rest) = word ++ text rest := by
  fun_induction words word rest with
  | case1 => simp [text]
  | case2 word x rest ih => rw [ih, text, String.append_assoc, String.append_assoc, String.append_assoc]
  | case3 word x rest ih =>
    rw [String.intercalate_cons_of_ne_nil words_ne_nil, ih, text]
    simp [← String.toList_inj]
  | case4 word x rest ih =>
    rw [intercalate_cons_of_ne_nil words_ne_nil, ih, text]
    simp [← toList_inj]

end Layout

/-- Operands that may stand beside others in one word: without white space, marks of comments, commas and quotes. -/
def isPlainOperand (x : String) : Bool :=
  x != "" && x.toList.all fun c => !isBlank c && !oneOf ['#', ',', '"', '\''] c

/-- A word of operands with commas between them. -/
inductive IsCluster : String → List String → Prop
  | single {x : String} (hx : isPlainOperand x = true) : IsCluster x [x]
  | snoc {w x : String} {xs : List String} (h : IsCluster w xs) (hx : isPlainOperand x = true) :
    IsCluster (w ++ "," ++ x) (xs ++ [x])

variable {x w tail : String} {xs : List String}

theorem isPlainOperand_iff : isPlainOperand x = true ↔ x ≠ "" ∧ ∀ c ∈ x.toList,
    isBlank c = false ∧ c ≠ '#' ∧ c ≠ ',' ∧ c ≠ '"' ∧ c ≠ '\'' := by
  simp [isPlainOperand, oneOf]

namespace IsCluster

theorem mem (h : IsCluster w xs) : ∀ c ∈ w.toList, isBlank c = false ∧ c ≠ '#' ∧ c ≠ '"' ∧ c ≠ '\'' := by
  induction h with
  | single hx =>
    intro c hc
    obtain ⟨hblank, hmark, -, hquotes⟩ := (isPlainOperand_iff.mp hx).2 c hc
    exact ⟨hblank, hmark, hquotes⟩
  | snoc h hx ih =>
    intro c hc
    simp only [toList_append, mem_append] at hc
    rcases hc with (hc | hc) | hc
    · exact ih c hc
    · obtain rfl : c = ',' := by simpa using hc
      decide
    · obtain ⟨hblank, hmark, -, hquotes⟩ := (isPlainOperand_iff.mp hx).2 c hc
      exact ⟨hblank, hmark, hquotes⟩

theorem parts_eq (h : IsCluster w xs) : parts [','] w.toList = xs.map toList := by
  have hparts {x : String} (hx : isPlainOperand x = true) : parts [','] x.toList = [x.toList] :=
    cutAt_of_find? (Line.find?_eq_none fun hc => ((isPlainOperand_iff.mp hx).2 _ hc).2.2.1 rfl) []
  induction h with
  | single hx => exact hparts hx
  | @snoc w x xs h hx ih =>
    have htext : (w ++ "," ++ x).toList = w.toList ++ ',' :: x.toList := by simp
    rw [htext, parts, cutAt_break, hparts hx, ← parts, ih]
    simp

theorem getLast?_ne (h : IsCluster w xs) : w ≠ "" ∧ w.toList.getLast? ≠ some ',' := by
  have hlast {x : String} (hx : isPlainOperand x = true) : x ≠ "" ∧ x.toList.getLast? ≠ some ',' :=
    ⟨(isPlainOperand_iff.mp hx).1, fun hc => ((isPlainOperand_iff.mp hx).2 _ (mem_of_getLast? hc)).2.2.1 rfl⟩
  cases h with
  | single hx => exact hlast hx
  | @snoc w x xs h hx =>
    have hne : x.toList ≠ [] := by simpa using (hlast hx).1
    refine ⟨fun hempty => by simpa using congrArg toList hempty, ?_⟩
    rw [toList_append, getLast?_append_of_ne_nil _ hne]
    exact (hlast hx).2

theorem isBare (h : IsCluster w xs) : IsBare w :=
  ⟨h.getLast?_ne.1, fun c hc => ⟨(h.mem c hc).1, (h.mem c hc).2.1⟩, fun hc => (h.mem _ (mem_of_head? hc)).2.2.1 rfl⟩

theorem operandsIn (h : IsCluster w xs) (htail : tail = "" ∨ tail = ",") (ws : List String) :
    operandsIn (· == ',') ((w ++ tail) :: ws) = (operandsIn (· == ',') ws).map (xs ++ ·) := by
  have hquoted : isQuotedWord w.toList = false := by
    rw [isQuotedWord, Bool.or_eq_false_iff, Option.any_eq_false, Option.any_eq_false]
    refine ⟨fun c hc => ?_, fun c hc => ?_⟩
    · simpa [oneOf] using (h.mem c (mem_of_head? hc)).2.2
    · simpa [oneOf] using (h.mem c (mem_of_getLast? hc)).2.2
  exact operandsIn_cons h.getLast?_ne.1 h.getLast?_ne.2 htail (by simp [hquoted, h.parts_eq, Function.comp_def]) ws

end IsCluster

namespace Layout

variable {rest : Layout} (h : IsCluster w xs) (hrest : ∀ p ∈ rest, isPlainOperand p.2 = true)

include h hrest

/-- However operands are laid out, the words of the line are bare. -/
theorem isBare_words : ∀ v ∈ words w rest, IsBare v := by
  fun_induction words w rest generalizing xs with
  | case1 => simpa using h.isBare
  | case2 w x rest ih =>
    obtain ⟨hx, hrest⟩ := forall_mem_cons.mp hrest
    exact ih (h.snoc hx) hrest
  | case3 w x rest ih =>
    obtain ⟨hx, hrest⟩ := forall_mem_cons.mp hrest
    exact forall_mem_cons.mpr ⟨h.isBare.comma, ih (.single hx) hrest⟩
  | case4 w x rest ih =>
    obtain ⟨hx, hrest⟩ := forall_mem_cons.mp hrest
    exact forall_mem_cons.mpr ⟨h.isBare, ih (.single hx) hrest⟩

/-- However operands are laid out, they are found in the words of the line. -/
theorem operandsIn_words : operandsIn (· == ',') (words w rest) = some (xs ++ rest.map (·.2)) := by
  fun_induction words w rest generalizing xs with
  | case1 w => simpa [Reader.operandsIn] using h.operandsIn (.inl rfl) []
  | case2 w x rest ih =>
    obtain ⟨hx, hrest⟩ := forall_mem_cons.mp hrest
    rw [ih (h.snoc hx) hrest]
    simp
  | case3 w x rest ih =>
    obtain ⟨hx, hrest⟩ := forall_mem_cons.mp hrest
    rw [h.operandsIn (.inr rfl), ih (.single hx) hrest]
    rfl
  | case4 w x rest ih =>
    obtain ⟨hx, hrest⟩ := forall_mem_cons.mp hrest
    have hw := h.operandsIn (.inl rfl) (words x rest)
    rw [append_empty] at hw
    rw [hw, ih (.single hx) hrest]
    rfl

end Layout

/-- What is told to a construct is delivered to it by the host, if it is heard there. -/
theorem Reader.outcome_tell_deliver {ν σ : Type} (r : Reader ν σ) (n : ν) (e : Event) (src : Source) (k : Cursor)
    (st : Slots ν) (d : σ) :
    outcome (r.tell e >>= fun _ => r.publishComment) ⟨src, k, .node n :: st, d⟩
      = outcome (if r.host.hears n e.verb then r.host.deliver n e >>= fun _ => r.publishComment else throw .noOperation)
          ⟨src, k, .node n :: st, d⟩ := by
  have htell : outcome (r.tell e >>= fun _ => r.publishComment) ⟨src, k, .node n :: st, d⟩
      = outcome (r.sendTo (.node n) e >>= fun _ => r.publishComment) ⟨src, k, .node n :: st, d⟩ := by
    rw [tell, send, bind_assoc, bind_assoc]
    rfl
  rw [htell]
  split
  · next hears => rw [r.sendTo_node hears]
  · next hears =>
    have hrefused : r.hears (.node n) e.verb = false := Bool.eq_false_iff.mpr hears
    rw [sendTo, require, hrefused]
    rfl

/-- How operands are laid out does not matter. With any white space around it, a line of an instruction that has no
statement of its own leads to one call of whoever listens to the method, with exactly these operands; it fails if no
instructions are heard there. -/
theorem Reader.readLine_layout {ν σ : Type} {r : Reader ν σ} {n : ν} (hmethod : r.hasShape (.node n) .method = true)
    (hannot : r.hasShape (.node n) .annot = false) {name : String} (hname : isInstructionName name = true)
    {rest : Layout} (hall : ∀ y ∈ x :: rest.map (·.2), isPlainOperand y = true) {pre post : List Char}
    (hpre : ∀ c ∈ pre, isBlank c = true) (hpost : ∀ c ∈ post, isBlank c = true) (ls : Lines) (k : Cursor)
    (st : Slots ν) (d : σ) :
    ∃ line, line.comment? = none ∧ outcome r.readLine
        ⟨⟨some (ofList (pre ++ (name ++ " " ++ x ++ rest.text).toList ++ post)) :: ls⟩, k, .node n :: st, d⟩
      = outcome (if r.host.hears n .instruction then
            r.host.deliver n (.instruction (.text name) (.texts (x :: rest.map (·.2)))) >>= fun _ => r.publishComment
          else throw .noOperation) ⟨⟨ls⟩, ⟨some line, []⟩, .node n :: st, d⟩ := by
  simp only [isInstructionName, Bool.and_eq_true, decide_eq_true_eq, bne_iff_ne, Bool.not_eq_true'] at hname
  obtain ⟨⟨⟨⟨hbare, hopening⟩, hgoto⟩, hinvoke⟩, hreturn⟩ := hname
  obtain ⟨hx, hrest⟩ := forall_mem_cons.mp hall
  rw [forall_mem_map] at hrest
  have hcluster := IsCluster.single hx
  have hwords : IsWording (name :: rest.words x) :=
    isWording_of_bare (forall_mem_cons.mpr ⟨hbare, rest.isBare_words hcluster hrest⟩)
  have htext : name ++ " " ++ x ++ rest.text = " ".intercalate (name :: rest.words x) := by
    rw [String.intercalate_cons_of_ne_nil Layout.words_ne_nil, Layout.intercalate_words, String.append_assoc]
  obtain ⟨hremark, raw, hline⟩ := Line.shows_of_wording hwords hpre hpost
  have hcleaned : " ".intercalate (name :: rest.words x) ≠ "" := by
    rw [ne_eq, ← String.toList_eq_nil_iff]
    exact hwords.toList_ne_nil
  have hne : ofList (pre ++ (" ".intercalate (name :: rest.words x)).toList ++ post) ≠ "" := by
    rw [ne_eq, ← toList_eq_nil_iff, toList_ofList]
    simp only [append_eq_nil_iff, hwords.toList_ne_nil, and_false, false_and, not_false_eq_true]
  refine ⟨lineOf raw (name :: rest.words x), rfl, ?_⟩
  rw [htext, r.outcome_readLine hremark hne hline hcleaned,
    outcome_statement_operands hannot hmethod hbare.1 hopening hinvoke hgoto (rest.operandsIn_words hcluster hrest),
    Event.ofOperands, if_neg (Bool.eq_false_iff.mp hreturn), r.outcome_tell_deliver]
  rfl

/-- The recorder of a method notes just this call. -/
theorem Reader.readLine_layout_mixed :
    isInstructionName "mul-int" = true ∧ (∀ y ∈ ["c", "a", "b"], isPlainOperand y = true) ∧
    ∃ line, line.comment? = none ∧ outcome Desk.reader.readLine
        ⟨⟨[some "\tmul-int c,a, b\n"]⟩, ⟨none, []⟩, [.node (.recorder .method "m")], .empty []⟩
      = (.ok (), ⟨⟨[]⟩, ⟨some line, []⟩, [.node (.recorder .method "m")], { Desk.empty [] with
            notes := [.heard "m" (.instruction (.text "mul-int") (.texts ["c", "a", "b"])) none] }⟩) := by
  refine ⟨by decide, by decide, ?_⟩
  obtain ⟨line, hline, hread⟩ := @readLine_layout "c" _ _ Desk.reader (.recorder .method "m") rfl rfl "mul-int" (by decide)
    [(.comma, "a"), (.commaSpace, "b")] (by decide) ['\t'] ['\n'] (by decide) (by decide) [] ⟨none, []⟩ [] (.empty [])
  refine ⟨line, hline, hread.trans ?_⟩
  have hears : Desk.reader.host.hears (.recorder .method "m") .instruction = true := rfl
  rw [if_pos hears]
  refine (bind_ok _ (Desk.outcome_deliver_recorder ..)).trans ?_
  rw [publishComment, outcome_bind, Read.outcome_currentLine]
  dsimp only
  rw [hline]
  rfl

end Dalvik
