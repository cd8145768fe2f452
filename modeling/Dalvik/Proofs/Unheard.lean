import Dalvik.Proofs.Headings
import Dalvik.Proofs.Muted

/-!
# The lines of a construct that nobody listens to

The lines inside a declined method and inside the annotations of such a method, and what reading does with each kind
of them: a statement or a value on one line, a payload, a list over several lines, and the headings and ends of
annotations. `Unheard.Body` is the grammar of such lines. Reading crosses a body (`Unheard.Body.crosses`) and keeps the
lines that `Unheard.Body.copies` names, which are all but the comments and the ends of lists.
-/

namespace Dalvik

open Dalvik.Text Reader Read Line List Listing

variable {text head stop : String} {rows ws : List String} {k : Construct} {shape : Shape}

namespace Unheard

variable {ν σ : Type} {r : Reader ν σ}

/-! ### Statements -/

/-- A statement of a method on one line. -/
inductive IsStatement (l : Line) : Prop
  | blank : l.cleaned = "" → IsStatement l
  | plain {v : String} {vs : List String} {c : Char} : l.words = v :: vs → v.toList.head? = some c → c ≠ '.' →
      IsStatement l
  | directive {kw : Keyword} {vs : List String} :
      kw ∈ [Keyword.param, .catching, .catchingAll, .localVar, .prologue, .restart] →
      l.words = directive kw :: vs → IsStatement l
  | number {kw : Keyword} {v : String} {vs : List String} : kw ∈ [Keyword.line, .registers, .locals] →
      l.words = directive kw :: v :: vs → IsStatement l
  | finish {kw : Keyword} {vs : List String} : kw ∈ [Keyword.param, .localVar] →
      l.words = directive .close :: vs → l.words.getLast? = some kw.text → IsStatement l

section Statements

variable {keep : String → Slot ν → σ → σ} (h : r.Keeps keep) (src : Source) (st : Slots ν) (w : σ)

include h

theorem outcome_unlessMuted (l : Line) (ws : List String) (body : Read ν σ Unit) :
    outcome (r.unlessMuted body) ⟨src, ⟨some l, ws⟩, .blank .method :: st, w⟩
      = (.ok (), ⟨src, ⟨some l, ws⟩, .blank .method :: st, keep l.raw (.blank .method) w⟩) :=
  h.outcome_copyLine l ws src st w (.blank .method)

theorem takes_statement (hplain : IsPlain text) (hs : IsStatement (ofText text)) :
    r.Takes [text] (.blank .method :: st) w (.blank .method :: st) (keep (ofText text).raw (.blank .method) w) := by
  intro rest k
  rw [map_singleton, singleton_append]
  have hfield : r.hasShape (.blank .method) .field = false := rfl
  cases hs with
  | blank hblank => exact ⟨_, h.outcome_readLine_blank rest k st w _ hplain hblank⟩
  | @plain v vs c hwords hv hdot =>
    rw [outcome_readLine_words rest k _ w hplain hwords hv]
    by_cases hcolon : c = ':'
    · subst hcolon
      rw [outcome_statement_label _ vs _ _ hv, label, bind_ok _ (outcome_peekWord ..)]
      exact ⟨_, outcome_unlessMuted h _ st w _ _ _⟩
    · rw [outcome_statement_plain _ vs _ _ hv hdot hcolon]
      exact ⟨_, outcome_unlessMuted h _ st w _ _ _⟩
  | @directive kw vs hkw hwords =>
    rw [outcome_readLine_words rest k _ w hplain hwords (isBare_directive kw).2]
    simp only [mem_cons, not_mem_nil, or_false] at hkw
    rcases hkw with rfl | rfl | rfl | rfl | rfl | rfl
    all_goals
      rw [outcome_statement_simple _ st w _ (by decide) rfl (by decide) (.inl hfield)]
      exact ⟨_, outcome_unlessMuted h _ st w _ _ _⟩
  | @number kw v vs hkw hwords =>
    have hnumbered : ∀ verb event, outcome (r.numbered kw verb event) ⟨⟨rest⟩, ⟨some (ofText text),
          directive kw :: v :: vs⟩, .blank .method :: st, w⟩
        = (.ok (), ⟨⟨rest⟩, ⟨some (ofText text), v :: vs⟩, .blank .method :: st,
            keep (ofText text).raw (.blank .method) w⟩) := by
      intro verb event
      have hmuted : (Slot.blank Shape.method : Slot ν).isMuted .method = true := rfl
      rw [numbered, bind_ok _ (outcome_top ..)]
      simp only [hmuted, if_true]
      rw [bind_ok _ (outcome_passKeyword ..)]
      exact h.outcome_copyLine _ _ _ st w _
    rw [outcome_readLine_words rest k _ w hplain hwords (isBare_directive kw).2]
    simp only [mem_cons, not_mem_nil, or_false] at hkw
    rcases hkw with rfl | rfl | rfl
    all_goals
      rw [outcome_statement_simple _ st w _ (by decide) rfl (by decide) (.inl hfield)]
      exact ⟨_, hnumbered _ _⟩
  | @finish kw vs hkw hwords hlast =>
    rw [outcome_readLine_words rest k _ w hplain hwords (isBare_directive _).2,
      outcome_statement_simple _ st w .close (by decide) rfl (by decide) (.inl hfield)]
    change ∃ k', outcome r.close _ = _
    rw [close, bind_ok _ (outcome_lastWord _ _ _ _ hlast)]
    simp only [mem_cons, not_mem_nil, or_false] at hkw
    rcases hkw with rfl | rfl
    all_goals
      exact ⟨_, h.outcome_copyLine _ _ _ st w _⟩

end Statements

/-! ### Payloads -/

/-- The first line of a payload, and its rows. -/
inductive IsPayload (head : Line) (rows : List String) : Prop
  | array {width : String} {ws : List String} : head.words = directive .arrayData :: width :: ws →
      Rows IsArrayRow rows → IsPayload head rows
  | packed {first : String} {ws : List String} : head.words = directive .packedSwitch :: first :: ws →
      Rows IsPackedRow rows → IsPayload head rows
  | sparse {ws : List String} : head.words = directive .sparseSwitch :: ws → Rows IsSparseRow rows → IsPayload head rows

section Payloads

variable {keep : String → Slot ν → σ → σ} (h : r.Keeps keep) (st : Slots ν) (w : σ)

theorem outcome_methodMuted (src : Source) (k : Cursor) :
    outcome methodMuted ⟨src, k, .blank .method :: st, w⟩ = (.ok true, ⟨src, k, .blank .method :: st, w⟩) :=
  rfl

theorem outcome_payloadBound (ls : Lines) (k : Cursor) (st : Slots ν) :
    outcome payloadBound ⟨⟨ls⟩, k, st, w⟩ = (.ok (ls.length + 1), ⟨⟨ls⟩, k, st, w⟩) :=
  rfl

include h

theorem takes_payload (hhead : IsPlain head) (hpayload : IsPayload (ofText head) rows)
    (hplain : IsPlain stop) (hstop : IsStop (ofText stop)) :
    r.Takes (head :: (rows ++ [stop])) (.blank .method :: st) w (.blank .method :: st)
      (keepAll keep (keptLines (.blank .method) (head :: (rows ++ [stop]))) w) := by
  intro rest k
  have hfield : r.hasShape (.blank .method) .field = false := rfl
  have hlines : (head :: (rows ++ [stop])).map some ++ rest = some head :: (rows.map some ++ some stop :: rest) := by simp
  rw [hlines, keptLines_plain _ hhead, keepAll_cons]
  cases hpayload with
  | @array width ws hwords hrows =>
    obtain ⟨mid, k₁, k₂, vs, hmid, hnext, hloop⟩ := (h.loops_array hplain hstop).crosses hplain hrows rest st ()
      ⟨some (ofText head), width :: ws⟩ (keep (ofText head).raw (.blank .method) w)
    refine ⟨k₂, ?_⟩
    rw [outcome_readLine_words _ k _ w hhead hwords (isBare_directive _).2,
      outcome_statement_simple _ st w .arrayData (by decide) rfl (by decide) (.inl hfield)]
    change outcome r.arrayData _ = _
    rw [arrayData, bind_ok _ (outcome_methodMuted ..), bind_ok _ (outcome_nextWord ..),
      bind_ok _ (outcome_peekWord ..), bind_ok _ (h.outcome_payloadHead ..), bind_ok _ (outcome_payloadBound ..),
      arrayValues_eq, bind_assoc, bind_ok _ hnext, bind_ok _ (hloop _ (by omega)),
      bind_ok _ (outcome_methodMuted ..), if_pos rfl, outcome_pure]
  | @packed first ws hwords hrows =>
    obtain ⟨mid, k₁, k₂, labels, hmid, hnext, hloop⟩ := (h.loops_packed hplain hstop).crosses hplain hrows rest st ()
      ⟨some (ofText head), first :: ws⟩ (keep (ofText head).raw (.blank .method) w)
    refine ⟨k₂, ?_⟩
    rw [outcome_readLine_words _ k _ w hhead hwords (isBare_directive _).2,
      outcome_statement_simple _ st w .packedSwitch (by decide) rfl (by decide) (.inl hfield)]
    change outcome r.packedSwitch _ = _
    rw [packedSwitch, bind_ok _ (outcome_methodMuted ..), bind_ok _ (outcome_nextWord ..),
      bind_ok _ (outcome_peekWord ..), bind_ok _ (h.outcome_payloadHead ..), bind_ok _ hnext,
      bind_ok _ (outcome_payloadBound ..), bind_ok _ (hloop _ (by omega)), bind_ok _ (outcome_methodMuted ..),
      if_pos rfl, outcome_pure]
  | @sparse ws hwords hrows =>
    obtain ⟨mid, k₁, k₂, bs, hmid, hnext, hloop⟩ := (h.loops_sparse hplain hstop).crosses hplain hrows rest st []
      ⟨some (ofText head), ws⟩ (keep (ofText head).raw (.blank .method) w)
    refine ⟨k₂, ?_⟩
    rw [outcome_readLine_words _ k _ w hhead hwords (isBare_directive _).2,
      outcome_statement_simple _ st w .sparseSwitch (by decide) rfl (by decide) (.inl hfield)]
    change outcome r.sparseSwitch _ = _
    rw [sparseSwitch, bind_ok _ (outcome_methodMuted ..), bind_ok _ (outcome_nextWord ..),
      bind_ok _ (h.outcome_payloadHead ..), bind_ok _ (outcome_payloadBound ..), sparseBranches_eq, bind_assoc,
      bind_ok _ hnext, bind_ok _ (hloop _ (by omega)), bind_ok _ (outcome_methodMuted ..), if_pos rfl,
      outcome_pure]

end Payloads

/-! ### Annotations -/

/-- A line with a name and an equals sign in front of the words of a value. -/
def Names (l : Line) (vs : List String) : Prop :=
  ∃ name eq a, l.words = name :: eq :: vs ∧ name.toList.head? = some a ∧ a ≠ '.' ∧ a ≠ ':'

/-- A line with a value that is no directive. -/
def NamesPlain (l : Line) : Prop :=
  ∃ v vs c, Names l (v :: vs) ∧ v.toList.head? = some c ∧ c ≠ '.'

/-- The words of the heading of an annotation. -/
def IsHeading (kw : Keyword) (ws : List String) : Prop :=
  ∃ flags type more, ws = directive kw :: (flags ++ type :: more) ∧ (∀ f ∈ flags, Access.isKeyword f = true) ∧
    Access.isKeyword type = false ∧ Descriptor.isDescriptor type = true

/-- A line of an annotation that is read on its own. -/
inductive IsEntry (l : Line) : Prop
  | blank : l.cleaned = "" → IsEntry l
  | value : NamesPlain l → ('\x7b' ∈ l.cleaned.toList → '\x7d' ∈ l.cleaned.toList) → IsEntry l
  | constant {word owner constant name type : String} {ws : List String} :
      Names l (directive .enumConst :: word :: ws) → halves "->" word = .ok (owner, constant) →
      halves ":" constant = .ok (name, type) → Descriptor.isDescriptor owner = true →
      Descriptor.isDescriptor type = true → IsEntry l

/-- A line with a value that goes on over the next lines. -/
def OpensList (l : Line) : Prop :=
  NamesPlain l ∧ '\x7b' ∈ l.cleaned.toList ∧ '\x7d' ∉ l.cleaned.toList

section Annotations

variable {keep : String → Slot ν → σ → σ} (st : Slots ν) (w : σ)

theorem outcome_annotMuted (src : Source) (k : Cursor) :
    outcome annotMuted ⟨src, k, .blank .annot :: st, w⟩ = (.ok true, ⟨src, k, .blank .annot :: st, w⟩) :=
  rfl

theorem outcome_readLine_names {v : String} {vs : List String} {c : Char} (hplain : IsPlain text)
    (hnames : Names (ofText text) (v :: vs)) (hv : v.toList.head? = some c) (rest : Lines)
    (k : Cursor) :
    ∃ name n, outcome r.readLine ⟨⟨some text :: rest⟩, k, .blank .annot :: st, w⟩
      = outcome (if c == '.' then r.directive (n + 1) else r.plainValue name)
          ⟨⟨rest⟩, ⟨some (ofText text), v :: vs⟩, .blank .annot :: st, w⟩ := by
  obtain ⟨name, eq, a, hwords, ha, hdot, hcolon⟩ := hnames
  -- What is left of the bound of the line behind the name and the equals sign.
  refine ⟨name, 2 * vs.length + 6, ?_⟩
  have hannot : r.hasShape (.blank .annot) .annot = true := rfl
  have hbound : 2 * (name :: eq :: v :: vs).length + 2 = 2 * vs.length + 7 + 1 := by
    simp only [length_cons]
    omega
  rw [outcome_readLine_words rest k _ w hplain hwords ha, outcome_statement_plain _ _ _ _ ha hdot hcolon, hannot,
    if_pos rfl, hbound]
  unfold value
  rw [bind_ok _ (outcome_nextWord ..), bind_ok _ (outcome_nextWord ..),
    bind_ok _ (outcome_peekWord ..), bind_ok _ (outcome_firstChar hv _)]

theorem outcome_readLine_plainValue (hplain : IsPlain text) (hnames : NamesPlain (ofText text))
    (rest : Lines) (k : Cursor) :
    ∃ name ws, outcome r.readLine ⟨⟨some text :: rest⟩, k, .blank .annot :: st, w⟩
      = outcome (r.plainValue name) ⟨⟨rest⟩, ⟨some (ofText text), ws⟩, .blank .annot :: st, w⟩ := by
  obtain ⟨v, vs, c, hnames, hv, hdot⟩ := hnames
  obtain ⟨name, n, hread⟩ := outcome_readLine_names st w hplain hnames hv rest k
  refine ⟨name, v :: vs, hread.trans ?_⟩
  rw [if_neg (by simpa using hdot)]

theorem outcome_readLine_namedDirective (kw : Keyword) {dir : Directive} (hkw : kw ≠ .implements ∧ kw ≠ .classDef)
    (hdir : Directive.ofName? kw.text = some dir) (hsimple : dir ≠ .value ∧ dir ≠ .directive)
    (hplain : IsPlain text) (hnames : Names (ofText text) (directive kw :: ws))
    (rest : Lines) (k : Cursor) :
    outcome r.readLine ⟨⟨some text :: rest⟩, k, .blank .annot :: st, w⟩ = outcome (r.simpleDirective dir)
          ⟨⟨rest⟩, ⟨some (ofText text), directive kw :: ws⟩, .blank .annot :: st, w⟩ := by
  obtain ⟨name, n, hread⟩ := outcome_readLine_names st w hplain hnames (isBare_directive kw).2 rest k
  rw [hread, if_pos (by decide), outcome_directive_simple _ st w kw hkw hdir hsimple (.inl rfl)]

variable (h : r.Keeps keep)

include h

theorem takes_entry (hplain : IsPlain text) (hentry : IsEntry (ofText text)) :
    r.Takes [text] (.blank .annot :: st) w (.blank .annot :: st) (keep (ofText text).raw (.blank .annot) w) := by
  intro rest k
  rw [map_singleton, singleton_append]
  cases hentry with
  | blank hblank => exact ⟨_, h.outcome_readLine_blank rest k st w _ hplain hblank⟩
  | value hnames hbraces =>
    obtain ⟨name, ws, hread⟩ := outcome_readLine_plainValue st w hplain hnames rest k
    refine ⟨⟨some (ofText text), ws⟩, hread.trans ?_⟩
    rw [plainValue, bind_ok _ (outcome_annotMuted ..), bind_ok _ (outcome_cleaned ..), if_pos rfl,
      bind_ok _ (h.outcome_copyLine ..)]
    by_cases hopen : '\x7b' ∈ (ofText text).cleaned.toList
    · rw [if_pos (contains_iff_mem.mpr hopen), if_pos (contains_iff_mem.mpr (hbraces hopen))]
      rfl
    · rw [if_neg (by simpa using hopen), bind_ok _ (outcome_annotMuted ..), if_pos rfl, outcome_pure]
  | @constant word owner constant name type ws hnames hword hconstant howner htype =>
    have hmuted : (Slot.blank Shape.annot : Slot ν).isMuted .annot = true := rfl
    refine ⟨⟨some (ofText text), word :: ws⟩, ?_⟩
    rw [outcome_readLine_namedDirective st w .enumConst (by decide) rfl (by decide) hplain hnames]
    change outcome r.enumConst _ = _
    rw [enumConst, atLineEnd, outcome_tryCatch, bind_ok _ (outcome_cleaned ..),
      bind_ok _ (outcome_passKeyword ..), bind_ok _ (outcome_peekWord ..), hword,
      bind_ok _ (outcome_attempt _ _)]
    dsimp only
    rw [checkDescriptor_eq howner, pure_bind, hconstant, bind_ok _ (outcome_attempt _ _)]
    rw [checkDescriptor_eq htype, pure_bind, bind_ok _ (outcome_top ..), hmuted, if_pos rfl,
      h.outcome_copyLine]

theorem takes_lines (hhead : IsPlain head) (hopens : OpensList (ofText head)) (hrows : Rows IsItem rows)
    (hplain : IsPlain stop) (hstop : EndsList (ofText stop)) :
    r.Takes (head :: (rows ++ [stop])) (.blank .annot :: st) w (.blank .annot :: st)
      (keepAll keep (keptLines (.blank .annot) (head :: rows)) w) := by
  intro rest k
  rw [map_cons, map_append, cons_append, append_assoc]
  have hitems : Rows (fun l => l.words ≠ [] ∧ IsItem l) rows := fun l hl =>
    (hrows l hl).imp id fun h => ⟨h.1, words_ne_nil (Desk.ofString_ofText l), h.2⟩
  obtain ⟨hnames, hopen, hclose⟩ := hopens
  obtain ⟨name, ws, hread⟩ := outcome_readLine_plainValue st w hhead hnames (rows.map some ++ some stop :: rest) k
  obtain ⟨mid, k₁, k₂, values, hmid, hnext, hvalues⟩ := (h.loops_listed hstop).crosses hplain hitems rest st ()
    ⟨some (ofText head), ws⟩ (keep (ofText head).raw (.blank .annot) w)
  rw [append_nil] at hvalues
  refine ⟨k₂, hread.trans ?_⟩
  rw [plainValue, bind_ok _ (outcome_annotMuted ..), bind_ok _ (outcome_cleaned ..), if_pos rfl,
    bind_ok _ (h.outcome_copyLine ..), if_pos (contains_iff_mem.mpr hopen),
    if_neg (by simpa using hclose), keptLines_plain _ hhead, keepAll_cons]
  rw [bind_ok _ (outcome_publishComment_blank ..), bind_ok _ hnext,
    bind_ok _ (outcome_payloadBound ..), bind_ok _ (hvalues _ (by omega)),
    bind_ok _ (outcome_annotMuted ..), if_pos rfl, outcome_pure]

theorem takes_annot (hplain : IsPlain text) (hheading : IsHeading .annot (ofText text).words) :
    r.Takes [text] (.blank .method :: st) w (.blank .annot :: .blank .method :: st)
      (keep (ofText text).raw (.blank .annot) w) := by
  intro rest k
  obtain ⟨flags, type, more, hwords, hflags, htype, hdescriptor⟩ := hheading
  refine ⟨⟨some (ofText text), type :: more⟩, ?_⟩
  rw [map_singleton, singleton_append, outcome_readLine_words rest k _ w hplain hwords (isBare_directive _).2,
    outcome_statement_simple _ st w .annot (by decide) rfl (by decide) (.inl rfl)]
  change outcome r.annot _ = _
  rw [annot, atLineEnd, outcome_tryCatch, bind_ok _ (outcome_passKeyword ..),
    bind_ok _ (outcome_accessFlags hflags htype ..), bind_ok _ (outcome_peekWord ..),
    checkDescriptor_eq hdescriptor, pure_bind, bind_ok _ (outcome_top ..)]
  simp only [Slot.isAbsent, Bool.false_eq_true, if_false]
  rw [send, bind_assoc, bind_ok _ (outcome_top ..), bind_ok _ (outcome_sendTo_blank rfl _)]
  simp only [Slot.orBlank, Option.isSome]
  rw [h.outcome_openWith]

theorem takes_subAnnot (hplain : IsPlain text) (hnames : Names (ofText text) ws) (hheading : IsHeading .subAnnot ws) :
    r.Takes [text] (.blank .annot :: st) w (.blank .annot :: .blank .annot :: st)
      (keep (ofText text).raw (.blank .annot) w) := by
  intro rest k
  obtain ⟨flags, type, more, rfl, hflags, htype, hdescriptor⟩ := hheading
  have hmuted : (Slot.blank Shape.annot : Slot ν).isMuted .annot = true := rfl
  refine ⟨⟨some (ofText text), type :: more⟩, ?_⟩
  rw [map_singleton, singleton_append, outcome_readLine_namedDirective st w .subAnnot (by decide) rfl (by decide) hplain hnames]
  change outcome r.subAnnot _ = _
  rw [subAnnot, atLineEnd, outcome_tryCatch, bind_ok _ (outcome_passKeyword ..),
    bind_ok _ (outcome_cleaned ..), bind_ok _ (outcome_accessFlags hflags htype ..),
    bind_ok _ (outcome_peekWord ..), checkDescriptor_eq hdescriptor, pure_bind,
    bind_ok _ (outcome_top ..), hmuted, if_pos rfl, h.outcome_openWith]

end Annotations

/-! ### Ends -/

/-- A line that closes the innermost construct. -/
def Closes (l : Line) : Prop :=
  ∃ ws v, l.words = directive .close :: ws ∧ l.words.getLast? = some v ∧
    v ≠ Keyword.localVar.text ∧ v ≠ Keyword.param.text

theorem closes_of_isEnd (h : Desk.IsEnd k text) : Closes (ofText text) := by
  obtain ⟨ws, hwords⟩ := List.head?_eq_some_iff.mp h.opening
  exact ⟨ws, k.closing.text, hwords, h.closing, by cases k <;> decide⟩

theorem takes_closes {keep : String → Slot ν → σ → σ} (h : r.Keeps keep) (hplain : IsPlain text)
    (hcloses : Closes (ofText text)) (shape : Shape) (slot : Slot ν) (st : Slots ν) (w : σ) :
    r.Takes [text] (.blank shape :: slot :: st) w (slot :: st) (keep (ofText text).raw slot w) := by
  intro rest k
  obtain ⟨ws, v, hwords, hlast, hlocal, hparam⟩ := hcloses
  refine ⟨⟨some (ofText text), directive .close :: ws⟩, ?_⟩
  rw [map_singleton, singleton_append, outcome_readLine_words rest k _ w hplain hwords (isBare_directive _).2,
    outcome_statement_simple _ (slot :: st) w .close (by decide) rfl (by decide) (.inr (.inr rfl))]
  change outcome r.close _ = _
  rw [close, bind_ok _ (outcome_lastWord _ _ _ _ hlast), if_neg (by simp [hlocal, hparam])]
  exact h.outcome_copyLine _ _ _ st w slot

/-! ### Bodies -/

/-- A line that is read on its own, in a method or in an annotation. -/
inductive IsSingle : Shape → Line → Prop
  | statement {l : Line} : IsStatement l → IsSingle .method l
  | entry {l : Line} : IsEntry l → IsSingle .annot l

/-- Lines that are read at one go: a payload in a method, a list in an annotation. -/
inductive IsBlock : Shape → String → List String → String → Prop
  | payload {head stop : String} {rows : List String} : IsPlain head → IsPayload (ofText head) rows →
      IsPlain stop → IsStop (ofText stop) → IsBlock .method head rows stop
  | list {head stop : String} {rows : List String} : IsPlain head → OpensList (ofText head) →
      Rows IsItem rows → IsPlain stop → EndsList (ofText stop) → IsBlock .annot head rows stop

/-- The heading of an annotation, in a method or in an annotation. -/
inductive Opens : Shape → Construct → Line → Prop
  | annot {l : Line} : IsHeading .annot l.words → Opens .method .annot l
  | subAnnot {l : Line} {ws : List String} : Names l ws → IsHeading .subAnnot ws → Opens .annot .subAnnot l

/-- The lines inside a method or an annotation. -/
inductive Body : Shape → Type
  | done {shape : Shape} : Body shape
  | remark {shape : Shape} (text : String) (remark : isRemark text = true) (rest : Body shape) : Body shape
  | line {shape : Shape} (text : String) (plain : IsPlain text) (single : IsSingle shape (ofText text))
      (rest : Body shape) : Body shape
  | block {shape : Shape} (head : String) (rows : List String) (stop : String) (block : IsBlock shape head rows stop)
      (rest : Body shape) : Body shape
  | nested {shape : Shape} {k : Construct} (head : String) (inner : Body .annot) (stop : String)
      (plain : IsPlain head) (opens : Opens shape k (ofText head)) (ends : Desk.IsEnd k stop)
      (rest : Body shape) : Body shape

/-- The last line of a payload is kept, that of a list is not. -/
def keptStop (shape : Shape) (stop : String) : List String :=
  if shape = .method then [stop] else []

namespace Body

/-- The lines of a body. -/
def lines {shape : Shape} : Body shape → List String
  | done => []
  | remark text _ rest | line text _ _ rest => text :: rest.lines
  | block head rows stop _ rest => head :: (rows ++ stop :: rest.lines)
  | nested head inner stop _ _ _ rest => head :: (inner.lines ++ stop :: rest.lines)

/-- The lines of a body that are kept, each with the construct that it is met in: the heading of an annotation belongs
to the annotation, its end to what is around it. -/
def copies {shape : Shape} : Body shape → List (String × Slot ν)
  | done => []
  | remark _ _ rest => rest.copies
  | line text _ _ rest => ((ofText text).raw, .blank shape) :: rest.copies
  | block head rows stop _ rest => keptLines (.blank shape) (head :: (rows ++ keptStop shape stop)) ++ rest.copies
  | nested head inner stop _ _ _ rest =>
    ((ofText head).raw, .blank .annot) :: (inner.copies ++ ((ofText stop).raw, .blank shape) :: rest.copies)

/-- The number of lists that run over several lines. -/
def lists {shape : Shape} : Body shape → Nat
  | done => 0
  | remark _ _ rest | line _ _ _ rest => rest.lists
  | block _ _ _ _ rest => (if shape = .method then 0 else 1) + rest.lists
  | nested _ inner _ _ _ _ rest => inner.lists + rest.lists

end Body

section Bodies

variable {keep : String → Slot ν → σ → σ} (h : r.Keeps keep)

include h

theorem crosses_line (hplain : IsPlain text) (hsingle : IsSingle shape (ofText text)) (st : Slots ν) (w : σ) :
    r.Crosses [text] (.blank shape :: st) w (.blank shape :: st) (keep (ofText text).raw (.blank shape) w) := by
  cases hsingle with
  | statement hs => exact .of_takes (takes_statement h st w hplain hs)
  | entry hs => exact .of_takes (takes_entry st w h hplain hs)

theorem crosses_block (hblock : IsBlock shape head rows stop) (st : Slots ν) (w : σ) :
    r.Crosses (head :: (rows ++ [stop])) (.blank shape :: st) w (.blank shape :: st)
      (keepAll keep (keptLines (.blank shape) (head :: (rows ++ keptStop shape stop))) w) := by
  cases hblock with
  | payload hhead hpayload hplain hstop => exact .of_takes (takes_payload h st w hhead hpayload hplain hstop)
  | list hhead hopens hrows hplain hstop =>
    have hkept : keptStop .annot stop = [] := rfl
    rw [hkept, append_nil]
    exact .of_takes (takes_lines st w h hhead hopens hrows hplain hstop)

theorem crosses_opens (hplain : IsPlain head) (hopens : Opens shape k (ofText head)) (st : Slots ν) (w : σ) :
    r.Crosses [head] (.blank shape :: st) w (.blank .annot :: .blank shape :: st)
      (keep (ofText head).raw (.blank .annot) w) := by
  cases hopens with
  | annot hheading => exact .of_takes (takes_annot st w h hplain hheading)
  | subAnnot hnames hheading => exact .of_takes (takes_subAnnot st w h hplain hnames hheading)

theorem Body.crosses (b : Body shape) (st : Slots ν) (w : σ) :
    r.Crosses b.lines (.blank shape :: st) w (.blank shape :: st) (keepAll keep b.copies w) := by
  -- The stack grows inside annotations, so it is any stack below the blank of the body.
  induction b generalizing st w with
  | done => exact .nil _ w
  | @remark shape text hremark rest ih =>
    exact (Crosses.remark hremark shape st w).append (ih st w)
  | line text hplain hsingle rest ih =>
    rw [Body.copies, keepAll_cons]
    exact (crosses_line h hplain hsingle st w).append (ih st _)
  | @block shape head rows stop hblock rest ih =>
    have hlines : (Body.block head rows stop hblock rest).lines = head :: (rows ++ [stop]) ++ rest.lines := by
      simp [Body.lines]
    rw [hlines, Body.copies, keepAll_append]
    exact (crosses_block h hblock st w).append (ih st _)
  | @nested shape k head inner stop hplain hopens hend rest ih ih' =>
    have hstop : ∀ w, r.Crosses [stop] (.blank .annot :: .blank shape :: st) w (.blank shape :: st)
        (keep (ofText stop).raw (.blank shape) w) := fun w =>
      .of_takes (takes_closes h hend.plain (closes_of_isEnd hend) .annot (.blank shape) st w)
    rw [Body.copies, keepAll_cons, keepAll_append, keepAll_cons]
    exact (crosses_opens h hplain hopens st w).append ((ih _ _).append ((hstop _).append (ih' st _)))

end Bodies

end Unheard

end Dalvik
