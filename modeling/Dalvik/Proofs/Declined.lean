import Dalvik.Proofs.Audience
import Dalvik.Proofs.Unheard

/-!
# Declined methods

A class that is told of a method may hand over nobody for it. The method is then kept line by line, by whoever keeps
the lines that nobody listens to. `Unheard.Method` is a method from its heading to its end, and `Unheard.Method.copies`
are the lines of it that are kept: not the ends of lists that run over several lines, and all others but the comments
(`Unheard.Method.copies_eq_iff`). This is what an audience gets to see of the method, and all that it gets to see
(`Audience.declined_method_kept_iff`).
-/

namespace Dalvik

open Dalvik.Text Reader Read List Line Listing

variable {l stop text : String} {shape : Shape}

namespace Unheard

variable {ν σ : Type} {r : Reader ν σ}
variable {w w' : σ} {field? : Option (Slot ν)}

/-! ### Lines without comments -/

/-- The lines that are no comments, without the blanks behind them. -/
def verbatim (ls : List String) : List String :=
  (ls.filter fun l => !isRemark l).map (trimEnd Text.isBlank)

theorem verbatim_append (ls ls' : List String) : verbatim (ls ++ ls') = verbatim ls ++ verbatim ls' := by
  simp [verbatim]

theorem verbatim_remark (hl : isRemark l = true) (ls : List String) : verbatim (l :: ls) = verbatim ls := by
  simp [verbatim, hl]

theorem verbatim_plain (hl : IsPlain l) (ls : List String) : verbatim (l :: ls) = (ofText l).raw :: verbatim ls := by
  simp [verbatim, hl.not_remark, raw_eq (Desk.ofString_ofText l)]

theorem map_fst_keptLines (slot : Slot ν) (ls : List String) : (keptLines slot ls).map (·.1) = verbatim ls := by
  induction ls with
  | nil => rfl
  | cons l ls ih =>
    by_cases hl : isRemark l = true
    · rw [keptLines_remark slot hl, verbatim_remark hl, ih]
    · simpa [keptLines, verbatim, raw_eq (Desk.ofString_ofText l)] using ih

theorem IsBlock.plain_stop {head : String} {rows : List String} (h : IsBlock shape head rows stop) : IsPlain stop := by
  cases h with
  | payload _ _ hplain _ => exact hplain
  | list _ _ _ hplain _ => exact hplain

namespace Body

theorem sublist_copies (b : Body shape) :
    ((b.copies : List (String × Slot ν)).map (·.1)).Sublist (verbatim b.lines) := by
  induction b with
  | done => exact .slnil
  | remark text hremark rest ih =>
    rw [lines, verbatim_remark hremark]
    exact ih
  | line text hplain _ rest ih =>
    rw [lines, verbatim_plain hplain, copies]
    simp only [map_cons]
    exact ih.cons_cons _
  | @block shape head rows stop hblock rest ih =>
    have hlines : (Body.block head rows stop hblock rest).lines = head :: (rows ++ [stop]) ++ rest.lines := by
      simp [lines]
    have hkept : (keptStop shape stop).Sublist [stop] := by
      unfold keptStop
      split
      · exact .refl _
      · exact nil_sublist _
    rw [hlines, copies, map_append, map_fst_keptLines, verbatim_append]
    refine .append ?_ ih
    exact ((((List.Sublist.refl rows).append hkept).cons_cons head).filter _).map _
  | nested head inner stop hplain _ hend rest ih ih' =>
    rw [lines, copies, verbatim_plain hplain, verbatim_append, verbatim_plain hend.plain]
    simp only [map_cons, map_append]
    exact (ih.append (ih'.cons_cons _)).cons_cons _

theorem length_copies (b : Body shape) :
    (b.copies : List (String × Slot ν)).length + b.lists = (verbatim b.lines).length := by
  induction b with
  | done => rfl
  | remark text hremark rest ih =>
    rw [lines, verbatim_remark hremark]
    exact ih
  | line text hplain _ rest ih =>
    rw [lines, verbatim_plain hplain, copies, lists, length_cons, length_cons]
    omega
  | @block shape head rows stop hblock rest ih =>
    have hlines : (Body.block head rows stop hblock rest).lines = (head :: rows) ++ (stop :: rest.lines) := by
      simp [lines]
    have hkept : (verbatim (keptStop shape stop)).length + (if shape = .method then 0 else 1) = 1 := by
      unfold keptStop
      split
      · rw [verbatim_plain hblock.plain_stop]
        rfl
      · rfl
    have hrows : (keptLines (.blank shape : Slot ν) (head :: (rows ++ keptStop shape stop))).length
        = (verbatim (head :: rows)).length + (verbatim (keptStop shape stop)).length := by
      rw [← length_map (fun c : String × Slot ν => c.1), map_fst_keptLines, ← cons_append, verbatim_append,
        length_append]
    rw [hlines, copies, lists, verbatim_append, verbatim_plain hblock.plain_stop, length_append,
      length_append, length_cons]
    omega
  | nested head inner stop hplain _ hend rest ih ih' =>
    rw [lines, copies, lists, verbatim_plain hplain, verbatim_append, verbatim_plain hend.plain]
    simp only [length_cons, length_append]
    omega

end Body

/-! ### Lines that leave a method -/

/-- The end of a local variable that names its register. -/
def EndsLocal (l : Line) : Prop :=
  ∃ register, l.words = [directive .close, Keyword.localVar.text, register] ∧
    register ≠ Keyword.localVar.text ∧ register ≠ Keyword.param.text

theorem closes_of_endsLocal {l : Line} (h : EndsLocal l) : Closes l := by
  obtain ⟨register, hwords, hlocal, hparam⟩ := h
  exact ⟨_, register, hwords, by rw [hwords]; rfl, hlocal, hparam⟩

/-- A line that opens with a word, and is neither a directive nor a label. -/
def OpensWith (l : Line) (word : String) : Prop :=
  ∃ ws c, l.words = word :: ws ∧ word.toList.head? = some c ∧ c ≠ '.' ∧ c ≠ ':'

/-! ### Methods -/

/-- The heading of a method, and the event that it is told with. -/
def IsMethod (l : Line) (e : Event) : Prop :=
  ∃ flags word more type sig name parameters result,
    l.words = directive .method :: (flags ++ word :: more) ∧ (∀ f ∈ flags, Access.isKeyword f = true) ∧
    Access.isKeyword word = false ∧ Descriptor.ofString word = .ok type ∧ type.signature? = some sig ∧
    sig.name = .ok name ∧ sig.parameterTypes = .ok parameters ∧ sig.returnType = .ok result ∧
    e = .method (.text name) (.int (Access.flags flags)) (.texts (parameters.map (·.text))) (.text result.text)

/-- A method from its heading to its end. -/
structure Method where
  heading : String
  event : Event
  body : Body .method
  stop : String
  plain : IsPlain heading
  opens : IsMethod (ofText heading) event
  ends : Desk.IsEnd .method stop

namespace Method

/-- The heading and the body of a method, and a line that follows them. -/
def linesTo (m : Method) (stop : String) : List String :=
  m.heading :: (m.body.lines ++ [stop])

/-- The lines of a method. -/
def lines (m : Method) : List String :=
  m.linesTo m.stop

/-- What is kept of a method of a class up to a line that leaves it, each line with the construct that it is met in. -/
def copiesTo (m : Method) (stop : String) (n : ν) : List (String × Slot ν) :=
  ((ofText m.heading).raw, .blank .method) :: (m.body.copies ++ [((ofText stop).raw, .node n)])

/-- What is kept of a method of a class. -/
def copies (m : Method) (n : ν) : List (String × Slot ν) :=
  m.copiesTo m.stop n

theorem sublist_copies (m : Method) (n : ν) : ((m.copies n).map (·.1)).Sublist (verbatim m.lines) := by
  rw [lines, linesTo, copies, copiesTo, verbatim_plain m.plain, verbatim_append, verbatim_plain m.ends.plain]
  simp only [map_cons, map_append]
  exact (m.body.sublist_copies.append (.refl _)).cons_cons _

theorem copies_eq_iff (m : Method) (n : ν) : (m.copies n).map (·.1) = verbatim m.lines ↔ m.body.lists = 0 := by
  have hlength : ((m.copies n).map (·.1)).length + m.body.lists = (verbatim m.lines).length := by
    have hbody := m.body.length_copies (ν := ν)
    rw [lines, linesTo, copies, copiesTo, verbatim_plain m.plain, verbatim_append, verbatim_plain m.ends.plain]
    simp only [length_map, length_cons, length_append, length_nil, verbatim, filter_nil, map_nil] at hbody ⊢
    omega
  constructor
  · intro heq
    rw [heq] at hlength
    omega
  · intro hlists
    -- In their order and as many: nothing is missing.
    exact (m.sublist_copies n).eq_of_length (by omega)

end Method

section Reading

variable {keep : String → Slot ν → σ → σ} (h : r.Keeps keep) {n : ν} (hfield : r.hasShape (.node n) .field = false)

include hfield in
theorem outcome_statement_leaving {slot : Slot ν} (hslot : r.hasShape slot .field = true) (src : Source)
    (line? : Option Line) (ws : List String) (st : Slots ν) (w : σ) :
    outcome r.statement ⟨src, ⟨line?, directive .method :: ws⟩, slot :: .node n :: st, w⟩
      = outcome r.statement ⟨src, ⟨line?, directive .method :: ws⟩, .node n :: st, w⟩ := by
  have hleave : outcome (r.leaveField Keyword.method.text)
      ⟨src, ⟨line?, directive .method :: ws⟩, slot :: .node n :: st, w⟩
      = (.ok (), ⟨src, ⟨line?, directive .method :: ws⟩, .node n :: st, w⟩) := by
    rw [leaveField, bind_ok _ (outcome_top ..), hslot, if_pos (by decide)]
    rfl
  rw [outcome_statement_directive _ ws src line? (isBare_directive _).2,
    outcome_statement_directive _ ws src line? (isBare_directive _).2]
  unfold Reader.directive
  rw [bind_ok _ (outcome_peekWord ..), bind_ok _ (outcome_peekWord ..), directive_name,
    bind_ok _ hleave, bind_ok _ (outcome_leaveField r (.inl hfield) src _ st w)]

include h hfield

theorem takes_method {e : Event} (hplain : IsPlain text) (hmethod : IsMethod (ofText text) e)
    (hears : r.host.hears n .method = true)
    (hdecline : ∀ src k st, outcome (r.host.deliver n e) ⟨src, k, st, w⟩ = (.ok none, ⟨src, k, st, w'⟩))
    (hopen : ∀ slot ∈ field?, r.hasShape slot .field = true) (st : Slots ν) :
    r.Takes [text] (field?.toList ++ .node n :: st) w (.blank .method :: .node n :: st)
      (keep (ofText text).raw (.blank .method) w') := by
  intro rest k
  obtain ⟨flags, word, more, type, sig, name, parameters, result, hwords, hflags, hword, htype, hsig, hname,
    hparameters, hresult, rfl⟩ := hmethod
  have hrequire : r.require (.node n) .method = pure () := by
    have hhears : r.hears (.node n) .method = true := hears
    rw [require, if_pos hhears]
  refine ⟨⟨some (ofText text), word :: more⟩, ?_⟩
  rw [map_singleton, singleton_append, outcome_readLine_words rest k _ w hplain hwords (isBare_directive _).2]
  -- A field without an end is still open here, and is left without a word.
  have hstatement : outcome r.statement ⟨⟨rest⟩, ⟨some (ofText text),
        directive .method :: (flags ++ word :: more)⟩, field?.toList ++ .node n :: st, w⟩
      = outcome r.method ⟨⟨rest⟩, ⟨some (ofText text), directive .method :: (flags ++ word :: more)⟩,
        .node n :: st, w⟩ := by
    cases field? with
    | none => exact outcome_statement_simple _ st w .method (by decide) rfl (by decide) (.inl hfield) _ _
    | some slot =>
      rw [Option.toList_some, singleton_append, outcome_statement_leaving hfield (hopen slot rfl)]
      exact outcome_statement_simple _ st w .method (by decide) rfl (by decide) (.inl hfield) _ _
  rw [hstatement, method, atLineEnd, outcome_tryCatch, bind_ok _ (outcome_passKeyword ..),
    bind_ok _ (outcome_accessFlags hflags hword ..), bind_ok _ (outcome_peekWord ..), htype,
    bind_ok _ (outcome_attempt _ _), hsig]
  rw [bind_ok _ (outcome_top ..)]
  simp only [Slot.isAbsent, Bool.false_eq_true, if_false, hrequire, pure_bind, hname, hparameters, hresult]
  rw [bind_ok _ (outcome_attempt _ _), bind_ok _ (outcome_attempt _ _),
    bind_ok _ (outcome_attempt _ _), send, bind_assoc, bind_ok _ (outcome_top ..),
    sendTo_node r hears, bind_ok _ (hdecline ..)]
  simp only [Slot.orBlank, Option.isSome]
  rw [h.outcome_openWith]

theorem Method.reads (m : Method) (hears : r.host.hears n .method = true)
    (hdecline : ∀ src k st, outcome (r.host.deliver n m.event) ⟨src, k, st, w⟩ = (.ok none, ⟨src, k, st, w'⟩))
    (hopen : ∀ slot ∈ field?, r.hasShape slot .field = true) (hplain : IsPlain stop)
    (hcloses : Closes (ofText stop)) (st : Slots ν) (rest : Lines) (k : Cursor) :
    ∃ k', r.Reads ⟨⟨(m.linesTo stop).map some ++ rest⟩, k, field?.toList ++ .node n :: st, w⟩
      ⟨⟨rest⟩, k', .node n :: st, keepAll keep (m.copiesTo stop n) w'⟩ := by
  obtain ⟨k₁, hheading⟩ := takes_method h hfield m.plain m.opens hears hdecline hopen st
    (m.body.lines.map some ++ some stop :: rest) k
  obtain ⟨k', hbody⟩ := (m.body.crosses h (.node n :: st) (keep (ofText m.heading).raw (.blank .method) w')).reads
    (takes_closes h hplain hcloses .method (.node n) st _) rest k₁
  refine ⟨k', ?_⟩
  rw [linesTo, copiesTo, map_cons, map_append, map_cons, map_nil, cons_append,
    append_assoc, keepAll_cons, keepAll_append, keepAll_cons]
  exact .line hheading hbody

end Reading

end Unheard

namespace Audience

open Unheard

variable {ν σ : Type} {A : Audience ν σ} {keep : String → Slot ν → ExceptT Fault (StateM σ) Unit}
  (cs : List (String × Slot ν))

/-- Who keeps lines never fails. -/
def Keeper (keep : String → Slot ν → ExceptT Fault (StateM σ) Unit) : Prop :=
  ∀ line slot own, (outcome (keep line slot) own).1 = .ok ()

/-- What lines that are kept one after another do to an audience. -/
def keptBy (keep : String → Slot ν → ExceptT Fault (StateM σ) Unit) (cs : List (String × Slot ν)) (own : σ) : σ :=
  keepAll (fun line slot own => (outcome (keep line slot) own).2) cs own

theorem keeps_reader (hkeep? : A.keep? = some keep) (hkeep : Keeper keep) (o : Options) :
    (A.reader o).Keeps fun line slot w => { w with own := (outcome (keep line slot) w.own).2 } := by
  refine ⟨fun line slot => act (keep line slot), ?_, fun line slot s => ?_⟩
  · change A.keep?.map _ = _
    rw [hkeep?]
    rfl
  · rw [outcome_act, hkeep]

theorem keepAll_reader (w : Attendance ν σ) :
    keepAll (fun line slot (w : Attendance ν σ) => { w with own := (outcome (keep line slot) w.own).2 }) cs w
      = { w with own := keptBy keep cs w.own } := by
  induction cs generalizing w with
  | nil => rfl
  | cons c cs ih => exact ih _

theorem outcome_readLine_instruction {n : ν} (hclass : ∀ shape, A.hasShape n shape = true → shape = .classDef)
    {word : String} (hplain : IsPlain text) (hopens : OpensWith (ofText text) word) (o : Options)
    (rest : Lines) (k : Cursor) (st : Slots ν) (w : Attendance ν σ) :
    (outcome (A.reader o).readLine ⟨⟨some text :: rest⟩, k, .node n :: st, w⟩).1 = .error (.invalidStatement word) := by
  obtain ⟨ws, c, hwords, hc, hdot, hcolon⟩ := hopens
  have hno : ∀ shape, shape ≠ .classDef → ¬ (A.reader o).hasShape (.node n) shape = true :=
    fun shape hne htrue => hne (hclass shape htrue)
  rw [outcome_readLine_words rest k _ w hplain hwords hc, outcome_statement_plain _ ws _ _ hc hdot hcolon,
    if_neg (hno .annot (by decide)), if_neg (hno .method (by decide))]
  rfl

/-- A method that a class declines is kept line by line, and nobody is called for it but the class that declines it. The
lines that are kept are lines of the method in their order, and they are all lines but the comments exactly when no list
of an annotation runs over several lines. The end of a local variable that names its register leaves the method: what
follows it is read as lines of the class, which has no instructions. -/
theorem declined_method_kept_iff (hkeep? : A.keep? = some keep) (hkeep : Keeper keep) {n : ν}
    (hears : A.hears n .method = true) (hclass : ∀ shape, A.hasShape n shape = true → shape = .classDef) (m : Method)
    {w : Attendance ν σ} {own : σ} (hdecline : outcome (A.answer n m.event) w.own = (.ok none, own)) (o : Options)
    {field? : Option (Slot ν)} (hopen : ∀ slot ∈ field?, (A.reader o).hasShape slot .field = true)
    (st : List (Slot ν)) (rest : List (Option String)) (k : Cursor) :
    (∃ k', (A.reader o).Reads ⟨⟨m.lines.map some ++ rest⟩, k, field?.toList ++ .node n :: st, w⟩
        ⟨⟨rest⟩, k', .node n :: st, ⟨keptBy keep (m.copies n) own, w.calls ++ [(n, m.event)]⟩⟩) ∧
      ((m.copies n).map (·.1)).Sublist (verbatim m.lines) ∧
      ((m.copies n).map (·.1) = verbatim m.lines ↔ m.body.lists = 0) ∧
      ∀ text, IsPlain text → EndsLocal (ofText text) →
        (∃ k', (A.reader o).Reads ⟨⟨(m.linesTo text).map some ++ rest⟩, k, field?.toList ++ .node n :: st, w⟩
          ⟨⟨rest⟩, k', .node n :: st, ⟨keptBy keep (m.copiesTo text n) own, w.calls ++ [(n, m.event)]⟩⟩) ∧
        ∀ next word, IsPlain next → OpensWith (ofText next) word → ∀ k w,
          (outcome (A.reader o).readLine ⟨⟨some next :: rest⟩, k, .node n :: st, w⟩).1
            = .error (.invalidStatement word) := by
  have hkeeps := keeps_reader hkeep? hkeep o
  have hfield : (A.reader o).hasShape (.node n) .field = false := by
    rw [← Bool.not_eq_true]
    intro htrue
    cases hclass .field htrue
  have hdeliver : ∀ src k st, outcome ((A.reader o).host.deliver n m.event) ⟨src, k, st, w⟩
      = (.ok none, ⟨src, k, st, ⟨own, w.calls ++ [(n, m.event)]⟩⟩) := by
    intro src k st
    rw [A.outcome_deliver, hdecline]
  refine ⟨?_, m.sublist_copies n, m.copies_eq_iff n, fun text hplain hlocal => ⟨?_, ?_⟩⟩
  · obtain ⟨k', hreads⟩ := m.reads hkeeps hfield hears hdeliver hopen m.ends.plain (closes_of_isEnd m.ends) st rest k
    rw [keepAll_reader] at hreads
    exact ⟨k', hreads⟩
  · obtain ⟨k', hreads⟩ := m.reads hkeeps hfield hears hdeliver hopen hplain (closes_of_endsLocal hlocal) st rest k
    rw [keepAll_reader] at hreads
    exact ⟨k', hreads⟩
  · intro next word hnext hopens k w
    exact outcome_readLine_instruction hclass hnext hopens o rest k st w

/-- An audience of a class that declines everything, and writes down the lines that it is handed. -/
def declining : Audience Unit (List String) where
  hears _ _ := true
  hasShape _ shape := shape == .classDef
  answer _ _ := pure none
  keep? := some fun line _ => modify fun own => own ++ [line]

theorem keptBy_append (own : List String) :
    keptBy (fun line _ => modify fun own : List String => own ++ [line]) cs own = own ++ cs.map (·.1) := by
  induction cs generalizing own with
  | nil => exact (append_nil own).symm
  | cons c cs ih => exact (ih (own ++ [c.1])).trans (append_assoc own [c.1] _)

/-- The lines of an annotation with a list and an annotation inside. -/
def taggedEntries : Body .annot :=
  .line "    xs = \x7b 1, 2 \x7d\n" ⟨by decide, by decide +kernel⟩
    (.entry (.value ⟨"\x7b", ["1,", "2", "\x7d"], '\x7b', ⟨"xs", "=", 'x', by decide +kernel, by decide⟩, by decide⟩
      fun _ => by decide +kernel))
  (.nested "    s = .subannotation LC;\n" (.line "      e = .enum LD;->E:LD;\n" ⟨by decide, by decide +kernel⟩
      (.entry (@IsEntry.constant _ "LD;->E:LD;" "LD;" "E:LD;" "E" "LD;" [] ⟨"e", "=", 'e', by decide +kernel, by decide⟩
        (by decide +kernel) (by decide +kernel) (by decide +kernel) (by decide +kernel))) .done)
    "    .end subannotation\n" ⟨by decide, by decide +kernel⟩
    (.subAnnot ⟨"s", "=", 's', by decide +kernel, by decide⟩
      ⟨[], "LC;", [], rfl, by decide, by decide, by decide +kernel⟩)
    ⟨⟨by decide, by decide +kernel⟩, by decide +kernel, by decide +kernel⟩
  .done)

theorem rows_taggedData : Rows IsArrayRow ["    0x7ft\n"] := by
  intro l hl
  obtain rfl : l = "    0x7ft\n" := by simpa using hl
  exact .inr ⟨⟨by decide, by decide +kernel⟩, "0x7ft", [], .int 127, by decide +kernel, by decide, by decide,
    by decide +kernel⟩

/-- A method with an annotation, a comment and a payload. -/
def tagged : Method where
  heading := ".method public static a(I)V \n"
  event := .method (.text "a") (.int 9) (.texts ["I"]) (.text "V")
  body :=
    .nested "  .annotation runtime LB;\n" taggedEntries "  .end annotation\n" ⟨by decide, by decide +kernel⟩
      (.annot ⟨["runtime"], "LB;", [], by decide +kernel, by decide, by decide, by decide +kernel⟩)
      ⟨⟨by decide, by decide +kernel⟩, by decide +kernel, by decide +kernel⟩
    (.remark "  # data\n" (by decide +kernel)
    (.block "  .array-data 1\n" ["    0x7ft\n"] "  .end array-data\n"
      (.payload ⟨by decide, by decide +kernel⟩ (@IsPayload.array _ _ "1" [] (by decide +kernel) rows_taggedData)
        ⟨by decide, by decide +kernel⟩ ⟨["array-data"], by decide +kernel⟩)
    (.line "  return-void\n" ⟨by decide, by decide +kernel⟩
      (.statement (@IsStatement.plain _ "return-void" [] 'r' (by decide +kernel) (by decide) (by decide)))
    .done)))
  stop := ".end method\n"
  plain := ⟨by decide, by decide +kernel⟩
  opens := ⟨["public", "static"], "a(I)V", [], ⟨"a(I)V", .method, 0⟩, ⟨"a(I)V"⟩, "a", [⟨"I", .primitive, 0⟩],
    ⟨"V", .primitive, 0⟩, by decide +kernel, by decide, by decide, by decide +kernel, by decide +kernel,
    by decide +kernel, by decide +kernel, by decide +kernel, rfl⟩
  ends := ⟨⟨by decide, by decide +kernel⟩, by decide +kernel, by decide +kernel⟩

theorem declining_keeps_tagged :
    ∃ k', (declining.reader .standard).Reads ⟨⟨tagged.lines.map some⟩, .start, [.blank .field, .node ()], ⟨[], []⟩⟩
        ⟨⟨[]⟩, k', [.node ()], ⟨verbatim tagged.lines, [((), tagged.event)]⟩⟩ ∧
      verbatim tagged.lines = [".method public static a(I)V", "  .annotation runtime LB;", "    xs = \x7b 1, 2 \x7d",
        "    s = .subannotation LC;", "      e = .enum LD;->E:LD;", "    .end subannotation", "  .end annotation",
        "  .array-data 1", "    0x7ft", "  .end array-data", "  return-void", ".end method"] := by
  have hkeep : Keeper fun line (_ : Slot Unit) => (modify fun own : List String => own ++ [line]) := fun _ _ _ => rfl
  have hclass : ∀ shape, declining.hasShape () shape = true → shape = .classDef := by
    intro shape hshape
    exact eq_of_beq hshape
  have hdecline : outcome (declining.answer () tagged.event) [] = (.ok none, []) := rfl
  have hopen : ∀ slot ∈ some (Slot.blank Shape.field : Slot Unit),
      (declining.reader .standard).hasShape slot .field = true := by
    rintro _ ⟨⟩
    rfl
  obtain ⟨⟨k', hreads⟩, -, hall, -⟩ :=
    declined_method_kept_iff (w := ⟨[], []⟩) rfl hkeep rfl hclass tagged hdecline .standard hopen [] [] .start
  have hcopies : (tagged.copies ()).map (·.1) = verbatim tagged.lines := hall.mpr rfl
  rw [keptBy_append, hcopies] at hreads
  exact ⟨k', hreads, by decide +kernel⟩

end Audience

/-- The lines that were copied, in order. -/
def Desk.copiedLines (d : Desk) : List String :=
  d.notes.reverse.filterMap fun
    | .copied line _ => some line
    | _ => none

/-- The end of a list is lost: the line behind the last value is not kept. -/
theorem Desk.visit_loses_end_of_list :
    (outcome ((recording .standard true).visit (.text (".class public LA;\n.method public a()V\n"
        ++ ".annotation runtime LB;\nx = \x7b\n1\n\x7d\n.end annotation\n.end method\n"))
        (some (.recorder .classDef "class#0")))
      ⟨⟨[]⟩, .start, [], .empty ["method"]⟩).2.world.copiedLines
      = [".method public a()V", ".annotation runtime LB;", "x = \x7b", "1", ".end annotation", ".end method"] := by
  decide +kernel

end Dalvik
