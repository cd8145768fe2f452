import Mathlib.Data.List.Forall2
import Mathlib.Data.List.TakeWhile
import Dalvik.Proofs.Effects
import Dalvik.Proofs.Scripts

/-!
# The properties of an annotation

The body of an annotation is a list of properties: values, lists of values, constants of enumerations and
annotations inside the annotation. `Properties` is such a body as it stands in a source. What a reader tells of it
(`Properties.heard`) is compared with what the source says (`Properties.script`): a value is told as it stands, a
list is cut at its commas up to the first closing brace, and a constant and an inner annotation are told under the
rest of their line instead of their name. The main statement is `Properties.reads_heard`: a body whose texts hold no
comment mark, and whose values hold no opening brace, is read to its end with exactly these calls.
-/

namespace Dalvik

open Dalvik.Text Reader Option Listing Line Read Scan

variable {l : String} {s : List Char} {ws : List (List Char)} {c : Char}

/-! ### Lines that carry a text -/

namespace Line

/-- A line carries a text, with any white space around it. -/
def Carries (l t : String) : Prop :=
  ∃ pre post : List Char, (∀ c ∈ pre, isBlank c = true) ∧ (∀ c ∈ post, isBlank c = true) ∧
    l = String.ofList (pre ++ t.toList ++ post)

/-- A text that white space around it does not touch, and that is no comment. -/
structure IsTrim (t : String) : Prop where
  head : ∃ c, t.toList.head? = some c ∧ isBlank c = false ∧ c ≠ '#'
  last : ∀ c, t.toList.getLast? = some c → isBlank c = false

theorem IsTrim.ne_nil {t : String} (h : IsTrim t) : t.toList ≠ [] := by
  obtain ⟨c, hc, -⟩ := h.head
  intro hnil
  simp [hnil] at hc

theorem Carries.trimmed {t : String} (h : Carries l t) (ht : IsTrim t) :
    isRemark l = false ∧ l ≠ "" ∧ dropStart isBlank (dropEnd isBlank l.toList) = t.toList := by
  obtain ⟨pre, post, hpre, hpost, rfl⟩ := h
  obtain ⟨c, hc, hblank, hmark⟩ := ht.head
  have hhead : ∀ rest : List Char, (t.toList ++ rest).head? = some c := by
    intro rest
    rw [List.head?_append, hc, some_or]
  have hend : dropEnd isBlank (pre ++ t.toList ++ post) = pre ++ t.toList := by
    refine dropEnd_append hpost fun e he => ht.last e ?_
    rwa [List.getLast?_append, List.getLast?_eq_some_getLast ht.ne_nil, some_or,
      ← List.getLast?_eq_some_getLast ht.ne_nil] at he
  refine ⟨?_, fun hempty => ?_, ?_⟩
  · rw [isRemark, String.toList_ofList, List.append_assoc, dropStart_append hpre, hhead]
    · simpa using hmark
    · intro e he
      rw [hhead] at he
      exact some.inj he ▸ hblank
  · have hnil := congrArg String.toList hempty
    rw [String.toList_ofList] at hnil
    have := List.append_eq_nil_iff.mp (List.append_eq_nil_iff.mp hnil).1
    exact ht.ne_nil this.2
  · rw [String.toList_ofList, hend]
    refine dropStart_append hpre fun e he => ?_
    rw [hc] at he
    exact some.inj he ▸ hblank

variable {q : Scan}

theorem cutWords_first (h : cutWords [' '] q s = .ok ws) (hq : q.word.getLast? = some c) :
    ∃ w rest, ws = w :: rest ∧ w.head? = some c := by
  obtain ⟨w, rest, rfl, tail, rfl⟩ := cutWords_head h
  exact ⟨_, rest, rfl, by simp [current, hq]⟩

theorem cutWords_open_iff (hopen : q.word.getLast? = some '"') (hquoted : q.quoted = true)
    (hpassed : 2 ≤ q.passed) (s : List Char) :
    cutWords [' '] q s = .ok [q.current ++ s] ↔ occurs ['"', ' '] (q.before :: s) = false := by
  induction s generalizing q with
  | nil => simp [cutWords, occurs, find?]
  | cons c s ih =>
    have hkeep := @ih (q.keep true c) (by simp [keep, List.getLast?_cons, hopen]) rfl (Nat.le_succ_of_le hpassed)
    rw [show (q.keep true c).current ++ s = q.current ++ c :: s by simp [current, keep]] at hkeep
    rw [cutWords]
    by_cases hc : c = ' '
    · subst hc
      rw [if_pos (by simp)]
      by_cases hb : q.before = '"'
      · have hcloses : q.closes = true := by simp [closes, hpassed, hb, hquoted]
        obtain ⟨ws, hws⟩ := @cutWords_ok [' '] (by simp) (q.cut ' ') s
        rw [if_pos hcloses, hws]
        simp [Except.map, occurs, find?, hb]
      · have hcloses : q.closes = false := by simp [closes, hb]
        rw [hcloses, if_neg (by decide), if_pos (by simp [Scan.opening, hopen]), hkeep]
        simp [occurs, find?, keep, Ne.symm hb]
    · rw [if_neg (by simp [Ne.symm hc]), hquoted, hkeep]
      simp [occurs, find?, keep, Ne.symm hc]

theorem cutWords_quote_iff (hopen : q.word.getLast? = some '"') (hquoted : q.quoted = false)
    (hpassed : 1 ≤ q.passed) (s : List Char) :
    cutWords [' '] q s = .ok [q.current ++ s] ↔ occurs ['"', ' '] (s.dropWhile (· != ' ')) = false := by
  induction s generalizing q with
  | nil => simp [cutWords, occurs, find?]
  | cons c s ih =>
    have hlast : ∀ b, (q.keep b c).word.getLast? = some '"' := by simp [keep, List.getLast?_cons, hopen]
    have hcurrent : ∀ b, (q.keep b c).current ++ s = q.current ++ c :: s := by simp [current, keep]
    rw [cutWords]
    by_cases hc : c = ' '
    · subst hc
      have hkeep := @cutWords_open_iff (q.keep true ' ') (hlast _) rfl (Nat.succ_le_succ hpassed) s
      rw [hcurrent] at hkeep
      rw [if_pos (by simp), if_neg (by simp [closes, hquoted]), if_pos (by simp [Scan.opening, hopen]), hkeep]
      rfl
    · have hkeep := @ih (q.keep false c) (hlast _) rfl (Nat.le_succ_of_le hpassed)
      rw [hcurrent] at hkeep
      rw [if_neg (by simp [Ne.symm hc]), hquoted, hkeep, List.dropWhile_cons_of_pos (by simp [hc])]

/-- A text that opens with a name and an equals sign: they are cut off, and the third word begins where the rest
does. -/
theorem splitWords_named {name : String} (hname : IsBare name) {tail : String} {c : Char}
    (hc : tail.toList.head? = some c) (hspace : c ≠ ' ') :
    ∃ w ws, w.toList.head? = some c ∧ splitWords " " (name ++ " = " ++ tail) = .ok (name :: "=" :: w :: ws) := by
  obtain ⟨cs, hcs⟩ : ∃ cs, tail.toList = c :: cs := by
    cases h : tail.toList with
    | nil => simp [h] at hc
    | cons e cs => exact ⟨cs, by simpa [h] using hc⟩
  obtain ⟨q₁, hq₁, hcut₁⟩ := @cutWords_word .start ⟨rfl, rfl⟩ name hname ("=".toList ++ ' ' :: c :: cs)
  obtain ⟨q₂, hq₂, hcut₂⟩ := @cutWords_word q₁ hq₁ "=" (by decide) (c :: cs)
  obtain ⟨ws, hws⟩ := @cutWords_ok [' '] (by simp) (q₂.keep q₂.quoted c) cs
  obtain ⟨w, ws, rfl, hhead⟩ := cutWords_first hws (c := c) (by simp [keep, hq₂.1])
  have hstep : cutWords [' '] q₂ (c :: cs) = .ok (w :: ws) := by
    rw [cutWords, if_neg (by simp [Ne.symm hspace]), hws]
  refine ⟨String.ofList w, ws.map String.ofList, by simpa using hhead, ?_⟩
  have htext : (name ++ " = " ++ tail).toList = name.toList ++ ' ' :: ("=".toList ++ ' ' :: c :: cs) := by
    simp [hcs]
  rw [splitWords, htext, show " ".toList = [' '] from rfl, hcut₁, hcut₂, hstep]
  simp [Except.map]

theorem Carries.shows {t : String} (h : Carries l t) (ht : IsTrim t) (hmark : '#' ∉ t.toList) {ws : List String}
    (hws : splitWords " " t = .ok ws) : Shows l ws ∧ " ".intercalate ws = t := by
  obtain ⟨hremark, -, htrim⟩ := h.trimmed ht
  have hcut : cutComment t.toList = none := by rw [cutComment, find?_eq_none hmark]
  have hline : ofString l = .ok ⟨String.ofList (dropEnd isBlank l.toList), t, none, ws⟩ := by
    simp only [ofString, htrim, hcut, String.ofList_toList, hws]
    rfl
  have hjoin : " ".intercalate ws = t := intercalate_words hline
  exact ⟨⟨hremark, _, by rw [hline, hjoin]⟩, hjoin⟩

theorem isTrim_named {name tail : String} (hname : IsBare name) (hc : tail.toList.head? = some c)
    (hlast : ∀ c, tail.toList.getLast? = some c → isBlank c = false) : IsTrim (name ++ " = " ++ tail) := by
  refine ⟨⟨name.toList.head hname.toList_ne_nil, ?_, hname.2.1 _ (List.head_mem _)⟩, fun e he => hlast e ?_⟩
  · simp [List.head?_append, List.head?_eq_some_head hname.toList_ne_nil]
  · have hne : tail.toList ≠ [] := by
      intro hnil
      simp [hnil] at hc
    rwa [String.toList_append, List.getLast?_append, List.getLast?_eq_some_getLast hne, some_or,
      ← List.getLast?_eq_some_getLast hne] at he

end Line

/-! ### Properties -/

namespace Properties

/-- A word, or a text in quotes. -/
inductive Scalar where
  | word (s : String) (h : IsBare s)
  | quote (s : String) (h : '\n' ∉ s.toList)

/-- An item as it is written. -/
def Scalar.text : Scalar → String
  | word s _ => s
  | quote s _ => inQuotes s

/-- A value that stands alone: neither a directive nor a list. -/
def Scalar.IsValue (v : Scalar) : Prop :=
  v.text.toList.head? ≠ some '.' ∧ v.text.toList.head? ≠ some '\x7b'

/-- No quote with a space behind it follows a space, as it does behind an escaped quote: a line is cut there. -/
def Scalar.IsWhole (v : Scalar) : Prop :=
  occurs ['"', ' '] (v.text.toList.dropWhile (· != ' ')) = false

theorem Scalar.ends (x : Scalar) : (∃ c, x.text.toList.head? = some c ∧ isBlank c = false ∧ c ≠ '#') ∧
    ∀ c, x.text.toList.getLast? = some c → isBlank c = false := by
  cases x with
  | word s hs =>
    have hhead := List.head?_eq_some_head hs.toList_ne_nil
    exact ⟨⟨_, hhead, hs.2.1 _ (List.mem_of_head? hhead)⟩, fun c hc => (hs.2.1 c (List.mem_of_getLast? hc)).1⟩
  | quote s hs =>
    refine ⟨⟨'"', by simp [Scalar.text, inQuotes], by decide⟩, fun c hc => ?_⟩
    have hlast : (inQuotes s).toList.getLast? = some '"' := by
      rw [inQuotes, String.toList_append, List.getLast?_append]
      rfl
    rw [Scalar.text, hlast] at hc
    obtain rfl := some.inj hc
    decide

theorem Scalar.break_not_mem (x : Scalar) : '\n' ∉ x.text.toList := by
  cases x with
  | word s hs => exact fun hmem => absurd (hs.2.1 _ hmem).1 (by decide)
  | quote s hs => simp [Scalar.text, inQuotes, hs]

/-- Names of constants: names of fields without an angle bracket. -/
def isConstantName (s : String) : Bool :=
  Document.isFieldName s && !s.toList.contains '>'

end Properties

open Document Properties in
/-- The body of an annotation in a source: properties, one after another. -/
inductive Properties where
  | done
  | value (name : { s : String // isEntryName s = true }) (v : { v : Scalar // v.IsValue }) (rest : Properties)
  | list (name : { s : String // isEntryName s = true }) (left right : Nat) (items : List Scalar) (rest : Properties)
  | constant (name : { s : String // isEntryName s = true }) (owner : TypeName)
      (const : { s : String // isConstantName s = true }) (type : TypeName) (rest : Properties)
  | nested (name : { s : String // isEntryName s = true }) (flags : List { k : String // Access.isKeyword k = true })
      (type : TypeName) (body rest : Properties)

namespace Properties

/-- A list as it is written. -/
def braces (left right : Nat) (xs : List String) : String :=
  String.ofList ('\x7b' :: (List.replicate left ' ' ++ (", ".intercalate xs).toList ++ List.replicate right ' ')
    ++ ['\x7d'])

/-- What a reader finds in a list: what stands between commas, up to the first closing brace. -/
def members (left right : Nat) (xs : List String) : List String :=
  (parts [','] ((List.replicate left ' ' ++ (", ".intercalate xs).toList ++ List.replicate right ' ').takeWhile
    (· != '\x7d'))).map fun p => String.ofList (dropBoth isBlank p)

/-- What stands behind the name of a constant. -/
def constantWords (owner const type : String) : List String :=
  ["=", directive .enumConst, owner ++ "->" ++ (const ++ ":" ++ type)]

/-- What stands behind the name of an inner annotation. -/
def nestedWords (flags : List String) (type : String) : List String :=
  "=" :: directive .subAnnot :: (flags ++ [type])

/-- The end of an inner annotation. -/
def endWords : List String :=
  [directive .close, Keyword.subAnnot.text]

/-- The lines of a body, without the white space around them. -/
def texts : Properties → List String
  | done => []
  | value name v rest => (name.1 ++ " = " ++ v.1.text) :: rest.texts
  | list name left right items rest => (name.1 ++ " = " ++ braces left right (items.map (·.text))) :: rest.texts
  | constant name owner const type rest =>
    " ".intercalate (name.1 :: constantWords owner.1 const.1 type.1) :: rest.texts
  | nested name flags type body rest =>
    " ".intercalate (name.1 :: nestedWords (flags.map (·.1)) type.1)
      :: (body.texts ++ " ".intercalate endWords :: rest.texts)

/-- The calls that a body stands for. -/
def script : Properties → Script
  | done => .done
  | value name v rest => .tell (.value (.text name.1) (.text v.1.text)) rest.script
  | list name _ _ items rest => .tell (.array (.text name.1) (.texts (items.map (·.text)))) rest.script
  | constant name owner const type rest =>
    .tell (.enumConst (.text name.1) (.text owner.1) (.text const.1) (.text type.1)) rest.script
  | nested name flags type body rest =>
    .nest (.subAnnot (.text name.1) (.int (Access.flags (flags.map (·.1)))) (.text type.1)) body.script rest.script

/-- The calls that a reader makes: a list is what its line is cut into, and constants and inner annotations are
named by the rest of their line. -/
def heard : Properties → Script
  | done => .done
  | value name v rest => .tell (.value (.text name.1) (.text v.1.text)) rest.heard
  | list name left right items rest =>
    .tell (.array (.text name.1) (.texts (members left right (items.map (·.text))))) rest.heard
  | constant _ owner const type rest =>
    .tell (.enumConst (.text (" " ++ " ".intercalate (constantWords owner.1 const.1 type.1))) (.text owner.1)
      (.text const.1) (.text type.1)) rest.heard
  | nested _ flags type body rest =>
    .nest (.subAnnot (.text (" " ++ " ".intercalate (nestedWords (flags.map (·.1)) type.1)))
      (.int (Access.flags (flags.map (·.1)))) (.text type.1)) body.heard rest.heard

/-- No text is cut off by a comment, and no value is taken for a list or cut into words. -/
def Legible : Properties → Prop
  | done => True
  | value _ v rest => ('#' ∉ v.1.text.toList ∧ '\x7b' ∉ v.1.text.toList ∧ v.1.IsWhole) ∧ rest.Legible
  | list _ _ _ items rest => (∀ x ∈ items, '#' ∉ x.text.toList) ∧ rest.Legible
  | constant _ _ _ _ rest => rest.Legible
  | nested _ _ _ body rest => body.Legible ∧ rest.Legible

end Properties

/-! ### One line at a time -/

namespace Text

theorem between_takeWhile {a b : Char} (hab : b ≠ a) {front inside : List Char} (ha : a ∉ front) (hb : b ∉ front)
    (rest : List Char) :
    between a b (front ++ a :: (inside ++ b :: rest)) = inside.takeWhile (· != b) := by
  have hfree : b ∉ inside.takeWhile (· != b) := by
    intro hmem
    simpa using List.all_eq_true.mp List.all_takeWhile b hmem
  have hsplit := List.takeWhile_append_dropWhile (p := (· != b)) (l := inside)
  cases hdrop : inside.dropWhile (· != b) with
  | nil =>
    rw [hdrop, List.append_nil] at hsplit
    rw [hsplit] at hfree ⊢
    exact between_append hab ha hb hfree rest
  | cons e more =>
    have he : e = b := by
      have := List.head_dropWhile_not (· != b) (by rw [hdrop]; simp)
      simpa [hdrop] using this
    have htext : inside ++ b :: rest = inside.takeWhile (· != b) ++ b :: (more ++ b :: rest) := by
      conv_lhs => rw [← hsplit, hdrop, he]
      simp
    rw [htext]
    exact between_append hab ha hb hfree _

theorem fromFirst_append {c : Char} {front : List Char} (h : c ∉ front) (rest : List Char) :
    fromFirst c (front ++ c :: rest) = c :: rest := by
  rw [fromFirst, find?_append h]
  exact List.drop_left

theorem occurs_arrow {s : List Char} (h : '>' ∉ s) : occurs ['-', '>'] s = false := by
  induction s with
  | nil => rfl
  | cons c s ih =>
    have hrest : '>' ∉ s := fun hmem => h (.tail _ hmem)
    have hnot : ['-', '>'].isPrefixOf (c :: s) = false := by
      cases s with
      | nil => simp [List.isPrefixOf]
      | cons e s =>
        have : '>' ≠ e := by rintro rfl; exact hrest (.head _)
        simp [List.isPrefixOf, this]
    have := ih hrest
    simp only [occurs, isSome_eq_false_iff, isNone_iff_eq_none] at this
    simp [occurs, find?, hnot, this]

end Text

namespace Desk

open Document Properties

variable {label raw name : String} {st : Slots Listener} {d : Desk} {ws : List String} {st' : Slots Listener}
  {owner const type : String} {l : String} {d' : Desk} {flags : List String} {left right : Nat}
  {xs : List String}

section

variable (hname : isEntryName name = true)

include hname

theorem ends_list {w : String} (hw : w.toList.head? = some '\x7b')
    (hjoin : " ".intercalate (name :: "=" :: w :: ws) = name ++ " = " ++ braces left right xs) :
    Ends raw (name :: "=" :: w :: ws) (name :: "=" :: w :: ws) (taped .annot label st) d
      reader.statement (taped .annot label st)
      (d.hear label (.array (.text name) (.texts (members left right xs)))) := by
  obtain ⟨-, hopen, hclose⟩ := entryName_cases hname
  have htext : (" ".intercalate (name :: "=" :: w :: ws)).toList = (name ++ " = ").toList ++ '\x7b'
      :: ((List.replicate left ' ' ++ (", ".intercalate xs).toList ++ List.replicate right ' ') ++ '\x7d' :: []) := by
    rw [hjoin]
    simp [braces]
  have hfront : '\x7b' ∉ (name ++ " = ").toList ∧ '\x7d' ∉ (name ++ " = ").toList := by
    simp [hopen, hclose]
  have hbetween : between '\x7b' '\x7d' (" ".intercalate (name :: "=" :: w :: ws)).toList
      = (List.replicate left ' ' ++ (", ".intercalate xs).toList ++ List.replicate right ' ').takeWhile
        (· != '\x7d') := by
    rw [htext]
    exact between_takeWhile (by decide) hfront.1 hfront.2 []
  have hcontains : (" ".intercalate (name :: "=" :: w :: ws)).toList.contains '\x7b' = true ∧
      (" ".intercalate (name :: "=" :: w :: ws)).toList.contains '\x7d' = true := by
    rw [htext]
    simp
  have hmuted : Slot.isMuted .annot (Slot.node (Listener.recorder .annot label)) = false := rfl
  have hread : Ends raw (name :: "=" :: w :: ws) (w :: ws) (taped .annot label st) d
      (reader.plainValue name) (taped .annot label st)
      (d.hear label (.array (.text name) (.texts (members left right xs)))) := by
    refine .bind (fun src => rfl) (.bind (fun src => outcome_cleaned ..) ?_)
    simp only [hmuted, hcontains.1, hcontains.2, Bool.false_eq_true, if_false, if_true]
    refine .braced hbetween (.bind (a := false) (fun src => rfl) ?_)
    exact .of_outcome fun src => outcome_tell src _ st d rfl
  intro src
  rw [outcome_statement_value hname hw (by decide)]
  exact hread src

theorem ends_named (kw : Keyword) {dir : Directive} {ws pending : List String}
    (hplain : kw ≠ .implements ∧ kw ≠ .classDef)
    (hdir : Directive.ofName? kw.text = some dir) (hsimple : dir ≠ .value ∧ dir ≠ .directive)
    (h : Ends raw ws (directive kw :: pending) (taped .annot label st) d (reader.simpleDirective dir) st' d') :
    Ends raw ws (name :: "=" :: directive kw :: pending) (taped .annot label st) d reader.statement st' d' := by
  intro src
  rw [outcome_statement_entry hname]
  unfold Reader.value
  rw [bind_ok _ (outcome_nextWord ..), bind_ok _ (outcome_nextWord ..), bind_ok _ (outcome_peekWord ..),
    bind_ok _ (outcome_firstChar (isBare_directive kw).2 _), if_pos (by decide)]
  rw [outcome_directive_simple src st d kw hplain hdir hsimple (.inl rfl)]
  exact h src

theorem fromFirst_wording (hws : ws ≠ []) :
    String.ofList (fromFirst ' ' (" ".intercalate (name :: ws)).toList) = " " ++ " ".intercalate ws := by
  have htext : (" ".intercalate (name :: ws)).toList = name.toList ++ ' ' :: (" ".intercalate ws).toList := by
    rw [String.intercalate_cons_of_ne_nil hws]
    simp
  rw [htext, fromFirst_append (entryName_cases hname).1.space_not_mem, ← String.toList_inj]
  simp

theorem ends_constant (howner : isTypeName owner = true)
    (hconst : isConstantName const = true) (htype : isTypeName type = true) :
    Ends raw (name :: constantWords owner const type) (name :: constantWords owner const type)
      (taped .annot label st) d reader.statement (taped .annot label st)
      (d.hear label (.enumConst (.text (" " ++ " ".intercalate (constantWords owner const type))) (.text owner)
        (.text const) (.text type))) := by
  simp only [isConstantName, Bool.and_eq_true, Bool.not_eq_true', List.contains_eq_mem, decide_eq_false_iff_not]
    at hconst
  obtain ⟨hfield, hbracket⟩ := hconst
  have hcolon : ':' ∉ const.toList := by
    simp only [isFieldName, Bool.and_eq_true, List.all_eq_true, bne_iff_ne] at hfield
    exact fun hmem => (hfield.1.1.1 _ hmem).2 rfl
  have hmarks : ∀ {t : String}, isTypeName t = true → ':' ∉ t.toList ∧ '>' ∉ t.toList := fun ht =>
    ⟨fun hmem => (not_mem_typeName ht hmem).2 (by decide), fun hmem => (not_mem_typeName ht hmem).2 (by decide)⟩
  have harrow : occurs ['-', '>'] (const ++ ":" ++ type).toList = false :=
    occurs_arrow (by simp [hbracket, (hmarks htype).2])
  refine ends_named hname .enumConst (by decide) rfl (by decide) (.atLineEnd ?_)
  refine .bind (fun src => outcome_cleaned ..) ?_
  dsimp only
  rw [fromFirst_wording hname (by simp [constantWords])]
  refine .passKeyword .enumConst (.bind (fun src => outcome_peekWord ..) ?_)
  refine .attempt (halves_arrow (hmarks howner).2 harrow)
    (.checkDescriptor (Descriptor.isDescriptor_typeName howner) ?_)
  refine .attempt (halves_colon hcolon (hmarks htype).1) (.checkDescriptor (Descriptor.isDescriptor_typeName htype) ?_)
  rw [Opened.plainName_fieldName hfield]
  refine .bind (fun src => outcome_top ..) ?_
  exact .of_outcome fun src => outcome_tell src _ st d rfl

theorem ends_nested (hflags : ∀ k ∈ flags, Access.isKeyword k = true) {type : String} (htype : isTypeName type = true)
    (hd : d.declined = []) :
    Ends raw (name :: nestedWords flags type) (name :: nestedWords flags type)
      (taped .annot label st) d reader.statement
      (.node (.recorder .annot (Construct.subAnnot.label d)) :: taped .annot label st)
      (d.hear label (.subAnnot (.text (" " ++ " ".intercalate (nestedWords flags type)))
        (.int (Access.flags flags)) (.text type))) := by
  refine ends_named hname .subAnnot (by decide) rfl (by decide) (.atLineEnd (.passKeyword .subAnnot ?_))
  refine .bind (fun src => outcome_cleaned ..) ?_
  dsimp only
  rw [fromFirst_wording hname (by simp [nestedWords])]
  refine .accessFlags hflags (isKeyword_typeName htype) (.bind (fun src => outcome_peekWord ..) ?_)
  refine .checkDescriptor (Descriptor.isDescriptor_typeName htype) (.bind (fun src => outcome_top ..) ?_)
  have hopens : Listener.opens Verb.subAnnot = some (Construct.subAnnot.sort, .annot) := rfl
  exact .open (e := .subAnnot _ _ _) rfl hopens hd (.of_outcome fun src => rfl)

end

theorem ends_endWords :
    Ends raw endWords endWords (taped .annot label st) d reader.statement st (d.hear label .close) :=
  .close (by decide) rfl fun src k => outcome_sendTo src k st d rfl

theorem takes_carries {l t : String}
    (hl : Carries l t) (ht : IsTrim t) (hmark : '#' ∉ t.toList) (hws : splitWords " " t = .ok ws)
    (h : " ".intercalate ws = t → ∀ raw, Ends raw ws ws st d reader.statement st' d') :
    reader.Takes [l] st d st' d' := by
  intro rest k
  obtain ⟨⟨hremark, raw, hline⟩, hjoin⟩ := hl.shows ht hmark hws
  have hcleaned : " ".intercalate ws ≠ "" := by
    rw [hjoin]
    exact fun hempty => ht.ne_nil (by simp [hempty])
  obtain ⟨k', hread⟩ := h hjoin raw ⟨rest⟩
  exact ⟨k', (reader.outcome_readLine hremark (hl.trimmed ht).2.1 hline hcleaned rest k st d).trans hread⟩

theorem isTrim_wording (h : IsWording ws) : IsTrim (" ".intercalate ws) := by
  obtain ⟨hhead, hlast, -⟩ := h.ends
  exact ⟨⟨_, List.head?_eq_some_head h.toList_ne_nil, hhead _ (List.head?_eq_some_head h.toList_ne_nil)⟩, hlast⟩

theorem takes_wording (h : IsWording ws) (hl : Carries l (" ".intercalate ws))
    (hread : ∀ raw, Ends raw ws ws st d reader.statement st' d') : reader.Takes [l] st d st' d' := by
  have hwords : splitWords " " (" ".intercalate ws) = .ok ws := by
    have hcut := @cutWords_wording ws h .start ⟨rfl, rfl⟩
    rw [splitWords, String.toList_intercalate]
    simp only [show " ".toList = [' '] from rfl]
    rw [hcut]
    simp [Except.map, Function.comp_def]
  exact takes_carries hl (isTrim_wording h) h.ends.2.2.1 hwords fun _ => hread

theorem splitWords_value_iff (hname : IsBare name) (v : Scalar) :
    splitWords " " (name ++ " = " ++ v.text) = .ok [name, "=", v.text] ↔ v.IsWhole := by
  obtain ⟨q₁, hq₁, hcut₁⟩ := @cutWords_word .start ⟨rfl, rfl⟩ name hname ("=".toList ++ ' ' :: v.text.toList)
  obtain ⟨q₂, hq₂, hcut₂⟩ := @cutWords_word q₁ hq₁ "=" (by decide) v.text.toList
  have htext : (name ++ " = " ++ v.text).toList = name.toList ++ ' ' :: ("=".toList ++ ' ' :: v.text.toList) := by
    simp
  have hwhole : cutWords [' '] q₂ v.text.toList = .ok [v.text.toList] ↔ v.IsWhole := by
    cases v with
    | word s hs =>
      have hspace : (s.toList.dropWhile (· != ' ')) = [] := by
        rw [List.dropWhile_eq_nil_iff]
        intro c hc
        rw [bne_iff_ne]
        rintro rfl
        exact hs.space_not_mem hc
      simp only [Scalar.IsWhole, Scalar.text, hspace, cutWords_last hq₂ hs.space_not_mem]
      decide
    | quote s hs =>
      have hquote : (Scalar.quote s hs).text.toList = '"' :: (s.toList ++ ['"']) := by simp [Scalar.text, inQuotes]
      have hfirst := @cutWords_quote_iff (q₂.keep q₂.quoted '"') (by simp [keep, hq₂.1])
        (by simp [keep, hq₂.2]) (by simp [keep]) (s.toList ++ ['"'])
      rw [Scalar.IsWhole, hquote, cutWords, List.dropWhile_cons_of_pos (by decide)]
      simpa [current, keep, hq₂.1] using hfirst
  rw [← hwhole, splitWords, htext, show " ".toList = [' '] from rfl, hcut₁, hcut₂]
  obtain ⟨ws, hws⟩ := @cutWords_ok [' '] (by simp) q₂ v.text.toList
  rw [hws]
  constructor
  · intro h
    obtain ⟨w, rfl⟩ : ∃ w, ws = [w] := by
      have hlength := congrArg List.length (Except.ok.inj h)
      exact List.length_eq_one_iff.mp (by simpa using hlength)
    have hw : String.ofList w = v.text := by simpa using Except.ok.inj h
    rw [← hw, String.toList_ofList]
  · intro h
    obtain rfl := Except.ok.inj h
    simp [Except.map]

section

variable (hname : isEntryName name = true)

include hname

theorem takes_value {v : Scalar} (hv : v.IsValue)
    (hmark : '#' ∉ v.text.toList) (hbrace : '\x7b' ∉ v.text.toList) (hwhole : v.IsWhole)
    (hl : Carries l (name ++ " = " ++ v.text)) :
    reader.Takes [l] (taped .annot label st) d (taped .annot label st)
      (d.hear label (.value (.text name) (.text v.text))) := by
  have hbare := (entryName_cases hname).1
  obtain ⟨⟨c, hc, -⟩, hlast⟩ := v.ends
  have hfree : '#' ∉ (name ++ " = " ++ v.text).toList := by simp [hbare.mark_not_mem, hmark]
  have hdot : c ≠ '.' := by
    rintro rfl
    exact hv.1 hc
  exact takes_carries hl (isTrim_named hbare hc hlast) hfree ((splitWords_value_iff hbare v).mpr hwhole)
    fun _ raw => ends_value hname hc hdot hbrace

theorem isTrim_list (left right : Nat) (xs : List String) : IsTrim (name ++ " = " ++ braces left right xs) := by
  have hbrace : (braces left right xs).toList.head? = some '\x7b' := by simp [braces]
  refine isTrim_named (entryName_cases hname).1 hbrace fun c hc => ?_
  rw [braces, String.toList_ofList, List.getLast?_concat] at hc
  obtain rfl := some.inj hc
  decide

theorem takes_list (hmark : ∀ x ∈ xs, '#' ∉ x.toList) (hl : Carries l (name ++ " = " ++ braces left right xs)) :
    reader.Takes [l] (taped .annot label st) d (taped .annot label st)
      (d.hear label (.array (.text name) (.texts (members left right xs)))) := by
  have hbare := (entryName_cases hname).1
  have hfree : '#' ∉ (name ++ " = " ++ braces left right xs).toList := by
    simpa [braces, hbare.mark_not_mem] using not_mem_intercalate_comma (by decide) (by decide) hmark
  have hbrace : (braces left right xs).toList.head? = some '\x7b' := by simp [braces]
  obtain ⟨w, ws, hw, hwords⟩ := splitWords_named hbare hbrace (by decide)
  exact takes_carries hl (isTrim_list hname left right xs) hfree hwords fun hjoin raw => ends_list hname hw hjoin

theorem isWording_constant
    (howner : isTypeName owner = true) (hconst : isConstantName const = true) (htype : isTypeName type = true) :
    IsWording (name :: constantWords owner const type) := by
  have hconst := Bool.and_eq_true _ _ ▸ hconst
  have htarget := Opened.isBare_fieldName hconst.1 htype
  have harrow : '>' ∉ (const ++ ":" ++ type).toList := by
    have htype : '>' ∉ type.toList := fun hmem => (not_mem_typeName htype hmem).2 (by decide)
    have hconst : '>' ∉ const.toList := by simpa using hconst.2
    simp [hconst, htype]
  have hcallee : isCallee (const ++ ":" ++ type) = true := by
    rw [isCallee, occurs_arrow harrow, Bool.not_false, Bool.and_true, List.all_eq_true]
    exact fun c hc => by simpa using htarget.2.1 c hc
  exact ⟨(entryName_cases hname).1, by decide, (isBare_directive _).1, .inl (Told.isBare_target howner hcallee)⟩

theorem isWording_nested
    (hflags : ∀ k ∈ flags, Access.isKeyword k = true) {type : String} (htype : isTypeName type = true) :
    IsWording (name :: nestedWords flags type) := by
  have htail : IsWording (directive .subAnnot :: (flags ++ [type])) :=
    isWording_heading hflags .subAnnot (.inl (isBare_typeName htype))
  exact .cons (entryName_cases hname).1 (.cons (by decide) htail)

/-! ### Whole bodies -/

end

/-- Texts on lines of their own are read as calls, by a construct that is recorded. -/
def ReadsAs (ts : List String) (sc : Script) (shape : Shape) (label : String) (st : List (Slot Listener))
    (d : Desk) : Prop :=
  ∃ d', outcome (sc.drive (.recorder shape label)) d = (.ok (), d') ∧ d'.declined = [] ∧
    ∀ ls, List.Forall₂ Carries ls ts → ∀ rest k, ∃ k',
      reader.Reads ⟨⟨ls.map some ++ rest⟩, k, .node (.recorder shape label) :: st, d⟩
        ⟨⟨rest⟩, k', .node (.recorder shape label) :: st, d'⟩

namespace ReadsAs

variable {t : String} {ts us : List String} {sc body : Script} {e : Event} {shape : Shape}

theorem done (hd : d.declined = []) : ReadsAs [] .done shape label st d := by
  refine ⟨d, rfl, hd, fun ls hls rest k => ⟨k, ?_⟩⟩
  cases hls
  exact .refl _

theorem tell (he : shape.hears e.verb = true) (hline : ∀ l, Carries l t → reader.Takes [l] (taped shape label st) d
      (taped shape label st) (d.hear label e))
    (h : ReadsAs ts sc shape label st (d.hear label e)) : ReadsAs (t :: ts) (.tell e sc) shape label st d := by
  obtain ⟨d', hdrive, hd', hreads⟩ := h
  refine ⟨d', ?_, hd', fun ls hls rest k => ?_⟩
  · rw [Script.drive, bind_ok _ (outcome_visit_recorder d he)]
    exact hdrive
  · obtain ⟨l, ls, hl, htail, rfl⟩ := List.forall₂_cons_right_iff.mp hls
    obtain ⟨k₁, hread⟩ := hline l hl (ls.map some ++ rest) k
    obtain ⟨k₂, hmore⟩ := hreads ls htail rest k₁
    exact ⟨k₂, .line hread hmore⟩

theorem nest (hd : d.declined = []) (he : shape.hears e.verb = true) {c : Construct}
    (hopens : Listener.opens e.verb = some (c.sort, .annot)) {stop : String}
    (hline : ∀ l, Carries l t → reader.Takes [l] (taped shape label st) d
      (.node (.recorder .annot (c.label d)) :: taped shape label st) (d.hear label e))
    (hbody : ReadsAs us body .annot (c.label d) (taped shape label st) (d.hear label e))
    (hstop : ∀ l, Carries l stop → ∀ inner d, reader.Takes [l]
      (.node (.recorder .annot inner) :: taped shape label st) d
      (taped shape label st) (d.hear inner .close))
    (hrest : ∀ d, d.declined = [] → ReadsAs ts sc shape label st d) :
    ReadsAs (t :: (us ++ stop :: ts)) (.nest e body sc) shape label st d := by
  obtain ⟨d₁, hdrive, hd₁, hreads⟩ := hbody
  obtain ⟨d₂, hdrive₂, hd₂, hreads₂⟩ := hrest (d₁.hear (c.label d) .close) (by simp [hd₁])
  refine ⟨d₂, ?_, hd₂, fun ls hls rest k => ?_⟩
  · rw [Script.drive, bind_ok _ (outcome_visit_recorder d he), handedOver_of_opens hopens hd]
    rw [Construct.label] at hdrive hdrive₂
    rw [bind_ok _ hdrive]
    exact hdrive₂
  · obtain ⟨l, ls, hl, htail, rfl⟩ := List.forall₂_cons_right_iff.mp hls
    have hfront := List.forall₂_take_append ls us (stop :: ts) htail
    have hback := List.forall₂_drop_append ls us (stop :: ts) htail
    obtain ⟨m, ms, hm, hms, hsplit⟩ := List.forall₂_cons_right_iff.mp hback
    have hlines : ls.map some ++ rest = (ls.take us.length).map some ++ (some m :: (ms.map some ++ rest)) := by
      conv_lhs => rw [← List.take_append_drop us.length ls, hsplit]
      simp
    obtain ⟨k₁, hread⟩ := hline l hl (ls.map some ++ rest) k
    obtain ⟨k₂, hinside⟩ := hreads _ hfront (some m :: (ms.map some ++ rest)) k₁
    obtain ⟨k₃, hend⟩ := hstop m hm (c.label d) d₁ (ms.map some ++ rest) k₂
    obtain ⟨k₄, hmore⟩ := hreads₂ ms hms rest k₃
    rw [hlines] at hread
    rw [List.map_cons, List.cons_append, hlines]
    exact ⟨k₄, .line hread (hinside.trans (.line hend hmore))⟩

end ReadsAs

end Desk

open Desk in
theorem Properties.reads_heard {b : Properties} (hb : b.Legible) (label : String) (st : Slots Listener) {d : Desk}
    (hd : d.declined = []) : ReadsAs b.texts b.heard .annot label st d := by
  induction b generalizing label st d with
  | done => exact .done hd
  | value name v rest ih =>
    exact .tell rfl (fun l hl => takes_value name.2 v.2 hb.1.1 hb.1.2.1 hb.1.2.2 hl) (ih hb.2 label st (by simp [hd]))
  | list name left right items rest ih =>
    have hmark : ∀ x ∈ items.map (·.text), '#' ∉ x.toList := List.forall_mem_map.mpr hb.1
    exact .tell rfl (fun l hl => takes_list name.2 hmark hl) (ih hb.2 label st (by simp [hd]))
  | constant name owner const type rest ih =>
    exact .tell rfl (fun l hl => takes_wording (isWording_constant name.2 owner.2 const.2 type.2) hl fun raw =>
      ends_constant name.2 owner.2 const.2 type.2) (ih hb label st (by simp [hd]))
  | nested name flags type body rest ihbody ihrest =>
    have hflags : ∀ k ∈ flags.map (·.1), Access.isKeyword k = true := List.forall_mem_map.mpr fun x _ => x.2
    have hend : IsWording endWords := ⟨(isBare_directive _).1, .inl (by decide)⟩
    refine .nest (c := .subAnnot) hd rfl rfl (fun l hl => takes_wording (isWording_nested name.2 hflags type.2) hl
      fun raw => ends_nested name.2 hflags type.2 hd) (ihbody hb.1 _ _ (by simp [hd])) ?_ fun d hd => ihrest hb.2 label st hd
    exact fun l hl inner d => takes_wording hend hl fun raw => ends_endWords

end Dalvik
