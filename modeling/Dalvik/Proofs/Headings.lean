import Dalvik.Proofs.Operands

/-!
# Details, headings and ends of constructs

A call that opens a construct is written as a heading. The heading has to be read as the same call, and the
construct that it opens becomes the innermost one (`Desk.Opened`); the statement that ends the construct
leaves it again (`Desk.conveys_close`). Access flags stand in front of everything else, as the keywords of
their bits. The details of a class are statements (`Desk.Told.detail`), and the heading of the class itself
is read before the body of the source (`Desk.outcome_openClass`).
-/

namespace Dalvik

open Dalvik.Text Reader Listing Access Signature Listener List Descriptor Read

variable {w name sort : String} {rest pending : List String} {pre cs : List Char} {e : Event} {inner shape : Shape}

theorem isKeyword_typeName {s : String} (h : isTypeName s = true) : isKeyword s = false := by
  have hlast : ∃ c, s.toList.getLast? = some c ∧ c ∈ ';' :: primitives := by
    obtain ⟨n, core, hs, ⟨c, hc, rfl⟩ | ⟨body, rfl, -⟩⟩ := exists_of_isTypeName h
    · exact ⟨c, by rw [hs, getLast?_concat], mem_cons_of_mem _ hc⟩
    · refine ⟨';', ?_, mem_cons_self⟩
      rw [hs, ← cons_append, ← append_assoc, getLast?_concat]
  obtain ⟨c, hc, hmem⟩ := hlast
  have hall : ∀ k ∈ keywords, ∀ c ∈ ';' :: primitives, k.toList.getLast? ≠ some c := by decide
  rw [isKeyword, contains_eq_mem, decide_eq_false_iff_not]
  exact fun hk => hall s hk c hmem hc

namespace Reader

variable {ν σ : Type} {ks : List String} (hks : ∀ k ∈ ks, isKeyword k = true)

include hks

theorem outcome_accessFlags (hw : isKeyword w = false) (rest : List String) (src : Source) (line? : Option Line)
    (st : Slots ν) (d : σ) :
    outcome (accessFlags : Read ν σ Datum) ⟨src, ⟨line?, ks ++ w :: rest⟩, st, d⟩
      = (.ok (.int (flags ks)), ⟨src, ⟨line?, w :: rest⟩, st, d⟩) := by
  rw [accessFlags, outcome_bind, outcome_get]
  dsimp only
  rw [splitAccess_append hks hw rest]
  rfl

theorem Ends.accessFlags {raw : String} {ws : List String} {st st' : Slots ν} {d d' : σ}
    {k : Datum → Read ν σ Unit} (hw : isKeyword w = false)
    (hk : Ends raw ws (w :: rest) st d (k (.int (flags ks))) st' d') :
    Ends raw ws (ks ++ w :: rest) st d (accessFlags >>= k) st' d' :=
  .bind (fun src => outcome_accessFlags hks hw rest src _ st d) hk

theorem isWording_heading (kw : Keyword) {ws : List String} (h : IsWording ws) :
    IsWording (Listing.directive kw :: (ks ++ ws)) := by
  refine .cons (isBare_directive kw).1 ?_
  have hbare : ∀ x ∈ ks, IsBare x := fun x hx => isBare_of_isKeyword (hks x hx)
  clear hks
  revert hbare
  induction ks with
  | nil => exact fun _ => h
  | cons x xs ih => exact fun hbare => .cons (hbare x mem_cons_self) (ih fun y hy => hbare y (.tail _ hy))

variable {r : Reader ν σ} {n : ν} {raw : String} {ws : List String} {st st' : Slots ν} {d d' : σ}

theorem Ends.method {result : String} {types : List String} (hname : isMethodName name = true)
    (htypes : ∀ t ∈ types, isTypeName t = true) (hresult : isTypeName result = true)
    (hfield : r.hasShape (.node n) .field = false) (hears : r.host.hears n .method = true)
    (h : Ends raw ws [written name types result] (.node n :: st) d (r.send (.method (.text name) (.int (flags ks)) (.texts types) (.text result)) >>= fun node? => r.openWith (.orBlank .method node?) node?.isSome) st' d') :
    Ends raw ws (Listing.directive .method :: (ks ++ [written name types result])) (.node n :: st) d
      r.statement st' d' := by
  obtain ⟨dim, hdescriptor⟩ := ofString_written hname htypes hresult
  have hname' := isSignatureName_of_isMethodName hname
  obtain ⟨hopen, hclose⟩ := paren_not_mem hname'
  have htypes' := fun t ht => isSignatureType_of_isTypeName (htypes t ht)
  obtain ⟨ds, hparameters, hds⟩ := parameterTypes_written hopen hclose htypes' result
  obtain ⟨x, hreturn, hx⟩ := returnType_written hclose htypes' (isSignatureType_of_isTypeName hresult)
  have hread : (⟨written name types result⟩ : Signature).name = .ok name :=
    @name_written name none (by simp) hname' types result
  refine .directive .method (by decide) rfl (by decide) (.inl hfield) (.atLineEnd ?_)
  refine .passKeyword .method (.accessFlags hks (isKeyword_written name types result) ?_)
  refine .bind (fun src => outcome_peekWord ..) (.attempt hdescriptor ?_)
  have hrequire : r.require (.node n) .method = pure () := by
    have : r.hears (.node n) .method = true := hears
    rw [require, if_pos this]
  refine .bind (fun src => outcome_top ..) ?_
  simp only [Slot.isAbsent, Bool.false_eq_true, if_false, hrequire, pure_bind]
  refine .attempt hread (.attempt hparameters (.attempt hreturn ?_))
  rw [hds, hx]
  exact h

theorem outcome_openClass (hname : isTypeName name = true) {rest : List Char} (hpre : ∀ c ∈ pre, c = ' ')
    (hcs : Follows (row pre (Listing.directive .classDef :: (ks ++ [name])) []) cs rest)
    (hsend : ∀ src k, outcome (r.send (.classDef (.text name) (.int (flags ks)))) ⟨src, k, st, d⟩ = (.ok none, ⟨src, k, st, d'⟩))
    (k : Cursor) :
    ∃ k', outcome r.openClass ⟨.ofChars cs, k, st, d⟩ = (.ok (), ⟨.ofChars rest, k', st, d'⟩) := by
  have hwords : IsWording (Listing.directive .classDef :: (ks ++ [name])) :=
    isWording_heading hks .classDef (.inl (isBare_typeName hname))
  obtain ⟨raw, hnext⟩ := outcome_nextLine_row r hwords hpre (by simp) hcs k st d
  have hcheck : r.checkDescriptor name = pure () := by
    simp [checkDescriptor, isDescriptor_typeName hname]
  have hheader : outcome (r.classHeader false)
      ⟨.ofChars rest, ⟨some (lineOf raw (Listing.directive .classDef :: (ks ++ [name]))),
        Listing.directive .classDef :: (ks ++ [name])⟩, st, d⟩
      = (.ok none, ⟨.ofChars rest, ⟨some (lineOf raw (Listing.directive .classDef :: (ks ++ [name]))), [name]⟩,
          st, d'⟩) := by
    rw [classHeader, atLineEnd, outcome_tryCatch, bind_ok _ (outcome_passKeyword ..),
      bind_ok _ (outcome_accessFlags hks (isKeyword_typeName hname) ..),
      bind_ok _ (outcome_peekWord ..), hcheck, pure_bind, if_neg (by decide),
      bind_ok _ (hsend _ _)]
    rfl
  have hreached : outcome (tryCatch (do r.nextLine; pure true) fun f =>
      if f = .endOfSource then
        if r.options.validate then throw .expectedClass else pure false
      else throw f) ⟨.ofChars cs, k, st, d⟩
      = (.ok true, ⟨.ofChars rest, ⟨some (lineOf raw (Listing.directive .classDef :: (ks ++ [name]))),
        Listing.directive .classDef :: (ks ++ [name])⟩, st, d⟩) := by
    rw [outcome_tryCatch, bind_ok _ hnext]
    rfl
  refine ⟨⟨some (lineOf raw (Listing.directive .classDef :: (ks ++ [name]))), [name]⟩, ?_⟩
  rw [openClass, bind_ok _ hreached, if_pos rfl, bind_ok _ hheader]
  rfl

omit hks

theorem Ends.close {word : String} {node? : Option ν} (hword : word ≠ Keyword.localVar.text ∧ word ≠ Keyword.param.text)
    (hlast : ws.getLast? = some word)
    (hsend : ∀ src k, outcome (r.sendTo (.node n) .close) ⟨src, k, st, d⟩ = (.ok node?, ⟨src, k, st, d'⟩)) :
    Ends raw ws (Listing.directive .close :: pending) (.node n :: st) d r.statement st d' := by
  refine .directive .close (by decide) rfl (by decide) (.inr (.inr rfl)) (.lastWord hlast ?_)
  rw [if_neg (by simpa using hword)]
  refine .bind (fun src => outcome_pop ..) (.bind (fun src => hsend src _) ?_)
  exact .of_outcome fun src => outcome_pure _ _

end Reader

theorem Document.isKeyword_names (flags : Flags) : ∀ k ∈ names flags.val, isKeyword k = true :=
  fun _ hk => isKeyword_of_mem_names hk

theorem Reader.Ends.flags {ν σ : Type} (flags : Document.Flags) {raw : String} {ws : List String}
    {st st' : Slots ν} {d d' : σ} {k : Datum → Read ν σ Unit} (hw : isKeyword w = false)
    (hk : Ends raw ws (w :: rest) st d (k (.int flags.val)) st' d') :
    Ends raw ws (names flags.val ++ w :: rest) st d (Reader.accessFlags >>= k) st' d' :=
  .accessFlags (Document.isKeyword_names flags) hw (by rw [flags_names flags.lt]; exact hk)

namespace Desk

open Document

section Access

variable (flags : Flags)

/-- The words of a heading: a directive, access flags and more words. -/
abbrev headingWords (kw : Keyword) (ws : List String) : List String :=
  directive kw :: (names flags.val ++ ws)

theorem intercalate_heading (kw : Keyword) {ws : List String} (h : ws ≠ []) : " ".intercalate (headingWords flags kw ws)
      = directive kw ++ " " ++ " ".intercalate (names flags.val) ++ " " ++ " ".intercalate ws := by
  have hnames := names_ne_nil flags.lt flags.ne_zero
  rw [headingWords, ← cons_append, String.intercalate_append_of_ne_nil (by simp) h,
    String.intercalate_cons_of_ne_nil hnames]

end Access

/-- A call that opens a construct, and that is written as a heading which is read as the same call. -/
structure Opened (shape inner : Shape) (sort : String) (e : Event) : Prop where
  hears : shape.hears e.verb = true
  opens : opens e.verb = some (sort, inner)
  written : ∀ indent, ∃ h, heading shape indent e = .ok (some h) ∧ h.shape = inner ∧
    h.closing = closingOf inner ∧ ∀ pre : List Char, (∀ c ∈ pre, c = ' ') → ∀ label st (d : Desk),
      d.declined = [] → reader.Conveys (pre ++ h.text.toList) (.node (.recorder shape label) :: st) d
        (.node (.recorder inner s!"{sort}#{d.recorders}") :: .node (.recorder shape label) :: st) (d.hear label e)

theorem handedOver_of_opens (h : opens e.verb = some (sort, inner)) {d : Desk} (hd : d.declined = []) :
    handedOver d e = .recorder inner s!"{sort}#{d.recorders}" := by
  simp [handedOver, h, hd]

end Desk

theorem Reader.Ends.open {raw label : String} {ws : List String} {st : Slots Listener} {d : Desk}
    (he : shape.hears e.verb = true) (ho : opens e.verb = some (sort, inner)) (hd : d.declined = [])
    {k : Option Listener → Read Listener Desk Unit}
    (hk : Ends raw ws pending (taped shape label st) (d.hear label e) (k (some (.recorder inner s!"{sort}#{d.recorders}"))) (.node (.recorder inner s!"{sort}#{d.recorders}") :: taped shape label st) (d.hear label e)) :
    Ends raw ws pending (taped shape label st) d (Desk.reader.send e >>= k)
      (.node (.recorder inner s!"{sort}#{d.recorders}") :: taped shape label st)
      (d.hear label e) := by
  refine .bind (fun src => Desk.outcome_send src _ st d he) ?_
  rw [Desk.handedOver_of_opens ho hd]
  exact hk

namespace Desk

open Document

namespace Opened

theorem annot (hears : shape.hears .annot = true) (a : Annotation) :
    Opened shape .annot "annotation" (.annot (.int a.flags.val) (.text a.type)) := by
  refine ⟨hears, rfl, fun indent => ⟨_, rfl, rfl, rfl, fun pre hpre label st d hd => ?_⟩⟩
  have hwords : IsWording [a.type.1] := .inl (isBare_typeName a.type.2)
  have hrow : IsRow (directive .annot ++ " " ++ " ".intercalate (names a.flags.val) ++ " "
      ++ a.type.1).toList (headingWords a.flags .annot [a.type.1]) :=
    isRow_of_eq (isWording_heading (isKeyword_names a.flags) .annot hwords) (by rw [intercalate_heading _ _ (by simp)]; simp)
  refine hrow.conveys reader_copy? hpre fun raw => ?_
  refine .directive .annot (by decide) rfl (by decide) (.inr (.inl rfl)) (.atLineEnd ?_)
  refine .passKeyword .annot (.flags a.flags ?_ ?_)
  · exact isKeyword_typeName a.type.2
  refine .bind (fun src => outcome_peekWord ..) (.checkDescriptor (isDescriptor_typeName a.type.2) ?_)
  exact .open hears rfl hd (.of_outcome fun src => rfl)

/-- The words of the value of a field. -/
def valueWords : Option (Word IsBare fun _ => True) → List String
  | some v => ["=", v.text]
  | none => []

theorem isBare_fieldName (hname : isFieldName name = true) {type : String} (htype : isTypeName type = true) :
    IsBare (name ++ ":" ++ type) := by
  simp only [isFieldName, Bool.and_eq_true, all_eq_true, bne_iff_ne, Bool.not_eq_true'] at hname
  obtain ⟨⟨⟨hchars, hquote⟩, -⟩, -⟩ := hname
  refine ⟨fun hempty => ?_, fun c hc => ?_, ?_⟩
  · have := congrArg String.toList hempty
    simp at this
  · simp only [String.toList_append, mem_append] at hc
    rcases hc with (hc | hc) | hc
    · exact (hchars c hc).1
    · obtain rfl : c = ':' := by simpa using hc
      decide
    · exact (isBare_typeName htype).2.1 c hc
  · cases hn : name.toList with
    | nil => simp [hn]
    | cons c cs => simpa [hn] using hquote

theorem plainName_fieldName (hname : isFieldName name = true) : plainName name = name := by
  simp only [isFieldName, Bool.and_eq_true, bne_iff_ne] at hname
  obtain ⟨⟨-, hopen⟩, hclose⟩ := hname
  have hend : ∀ c, name.toList.getLast? = some c → (c == '>') = false := by
    intro c hc
    rw [hc] at hclose
    simpa using hclose
  have hstart : ∀ c, name.toList.head? = some c → (c == '<') = false := by
    intro c hc
    rw [hc] at hopen
    simpa using hopen
  rw [plainName, trimEnd, Line.dropEnd_eq_self hend, String.ofList_toList, trimStart,
    Line.dropStart_eq_self hstart, String.ofList_toList]

theorem isKeyword_fieldName (name type : String) : isKeyword (name ++ ":" ++ type) = false := by
  have hall : ∀ k ∈ keywords, ':' ∉ k.toList := by decide
  rw [isKeyword, contains_eq_mem, decide_eq_false_iff_not]
  exact fun hmem => hall _ hmem (by simp)

theorem field (flags : Flags) (name : { s : String // isFieldName s = true }) (type : TypeName)
    (value? : Option (Word IsBare fun _ => True)) :
    Opened .classDef .field "field" (.field (.text name) (.int flags.val) (.text type) (some (fieldValue value?))) := by
  obtain ⟨name, hname⟩ := name
  obtain ⟨type, htype⟩ := type
  have hcolon : ':' ∉ name.toList ∧ ':' ∉ type.toList := by
    simp only [isFieldName, Bool.and_eq_true, all_eq_true, bne_iff_ne] at hname
    exact ⟨fun hmem => (hname.1.1.1 _ hmem).2 rfl, fun hmem => (not_mem_typeName htype hmem).2 (by decide)⟩
  have hwords : IsWording ((name ++ ":" ++ type) :: valueWords value?) := by
    have hbare := isBare_fieldName hname htype
    match value? with
    | none => exact .inl hbare
    | some (.plain v hv) => exact ⟨hbare, by decide, .inl hv⟩
    | some (.quote v hv) => exact ⟨hbare, by decide, .inr ⟨v, "", hv.1, .inl rfl, by simp [Word.text]⟩⟩
  have htext : (if (fieldValue value?).holds then directive .field ++ " "
        ++ " ".intercalate (names flags.val) ++ " " ++ name ++ ":" ++ type ++ " = " ++ (fieldValue value?).plain
      else directive .field ++ " " ++ " ".intercalate (names flags.val) ++ " " ++ name ++ ":" ++ type)
      = " ".intercalate (headingWords flags .field ((name ++ ":" ++ type) :: valueWords value?)) := by
    rw [intercalate_heading _ _ (by simp), ← String.toList_inj]
    match value? with
    | none => simp [fieldValue, Datum.holds, valueWords]
    | some (.plain v hv) => simp [fieldValue, Datum.holds, Datum.plain, valueWords, Word.text, hv.1]
    | some (.quote v hv) => simp [fieldValue, Datum.holds, Datum.plain, valueWords, Word.text, inQuotes]
  refine ⟨rfl, rfl, fun indent => ⟨_, rfl, rfl, rfl, fun pre hpre label st d hd => ?_⟩⟩
  refine (isRow_of_eq (isWording_heading (isKeyword_names flags) .field hwords) (congrArg _ htext)).conveys reader_copy? hpre fun raw => ?_
  refine .directive .field (by decide) rfl (by decide) (.inl rfl) (.atLineEnd ?_)
  refine .passKeyword .field (.flags flags (isKeyword_fieldName name type) ?_)
  refine .bind (fun src => outcome_nextWord ..) (.attempt (halves_colon hcolon.1 hcolon.2)
    (.checkDescriptor (isDescriptor_typeName htype) (.bind (fun src => outcome_hasWord ..) ?_)))
  cases value? with
  | none =>
    refine .bind (fun src => outcome_pure _ _) (.bind (fun src => outcome_top ..) ?_)
    rw [plainName_fieldName hname]
    exact .open rfl rfl hd (.of_outcome fun src => rfl)
  | some v =>
    have hlast : (headingWords flags .field ((name ++ ":" ++ type) :: valueWords (some v))).getLast? = some v.text := by
      rw [headingWords, ← cons_append, getLast?_append]
      rfl
    refine .lastWord hlast (.bind (fun src => outcome_pure _ _) (.bind (fun src => outcome_top ..) ?_))
    rw [plainName_fieldName hname]
    exact .open rfl rfl hd (.of_outcome fun src => rfl)

theorem intercalate_empty (xs : List String) : "".intercalate xs = String.join xs := by
  induction xs with
  | nil => rfl
  | cons x xs ih =>
    cases xs with
    | nil => simp
    | cons y ys => rw [String.intercalate_cons_cons, ih]; simp

theorem method (flags : Flags) (name : { s : String // Signature.isMethodName s = true })
    (parameters : List TypeName) (result : TypeName) :
    Opened .classDef .method "method"
      (.method (.text name) (.int flags.val) (.texts (parameters.map (·.1))) (.text result)) := by
  obtain ⟨name, hname⟩ := name
  obtain ⟨result, hresult⟩ := result
  obtain ⟨types, htypes⟩ : ∃ types, parameters.map (·.1) = types := ⟨_, rfl⟩
  have hall : ∀ t ∈ types, isTypeName t = true := by
    intro t ht
    rw [← htypes] at ht
    obtain ⟨x, -, rfl⟩ := mem_map.mp ht
    exact x.2
  rw [htypes]
  have hwords : IsWording [Signature.written name types result] := .inl (Signature.isBare_written hname hall hresult)
  have hheading : ∀ indent, heading .classDef indent
      (.method (.text name) (.int flags.val) (.texts types) (.text result))
        = .ok (some ⟨.method, indent, .method, directive .method ++ " "
          ++ " ".intercalate (names flags.val) ++ " " ++ name ++ "(" ++ "".intercalate types ++ ")"
          ++ result⟩) := by
    intro indent
    rw [heading, joined_texts]
    rfl
  have hrow : IsRow (directive .method ++ " " ++ " ".intercalate (names flags.val) ++ " " ++ name
      ++ "(" ++ "".intercalate types ++ ")" ++ result).toList
        (headingWords flags .method [Signature.written name types result]) := by
    refine isRow_of_eq (isWording_heading (isKeyword_names flags) .method hwords) ?_
    rw [intercalate_heading _ _ (by simp), intercalate_empty]
    simp [Signature.written]
  have hflags := flags_names flags.lt
  refine ⟨rfl, rfl, fun indent => ⟨_, hheading indent, rfl, rfl, fun pre hpre label st d hd => ?_⟩⟩
  refine hrow.conveys reader_copy? hpre fun raw => ?_
  refine .method (isKeyword_names flags) hname hall hresult rfl rfl ?_
  rw [hflags]
  exact .open rfl rfl hd (.of_outcome fun src => rfl)

end Opened

theorem conveys_close {inner : Shape} (hinner : inner ≠ .classDef) :
    ∃ s, closingStatement inner (closingOf inner) = some s ∧ s.deeper = 0 ∧ s.stop = "" ∧
      ∀ pre : List Char, (∀ c ∈ pre, c = ' ') → ∀ label st d,
        reader.Conveys (pre ++ s.text.toList) (taped inner label st) d st (d.hear label .close) := by
  have hwords : IsWording [directive .close, (closingOf inner).text] := by
    cases inner <;> exact ⟨by decide, .inl (by decide)⟩
  have hread : ∀ raw label st d, Ends raw [directive .close, (closingOf inner).text]
      [directive .close, (closingOf inner).text] (taped inner label st) d
      reader.statement st (d.hear label .close) := by
    intro raw label st d
    have hears : inner.hears Event.close.verb = true := by cases inner <;> rfl
    exact .close (by cases inner <;> decide) rfl fun src k => outcome_sendTo src k st d hears
  cases inner with
  | classDef => exact absurd rfl hinner
  | method =>
    exact ⟨_, rfl, rfl, rfl, fun pre hpre label st d =>
      (isRow_of_eq hwords (by simp [closingOf])).conveys reader_copy? hpre fun raw => hread raw label st d⟩
  | field =>
    exact ⟨_, rfl, rfl, rfl, fun pre hpre label st d =>
      (isRow_of_eq hwords (by simp [closingOf])).conveys reader_copy? hpre fun raw => hread raw label st d⟩
  | annot =>
    exact ⟨_, rfl, rfl, rfl, fun pre hpre label st d =>
      (isRow_of_eq_break hwords (by simp [closingOf])).conveys reader_copy? hpre fun raw => hread raw label st d⟩

namespace Told

theorem tellOrCopy {raw label : String} {ws : List String} {st : Slots Listener} {d : Desk}
    (he : Shape.classDef.hears e.verb = true) :
    Ends raw ws pending (taped .classDef label st) d (reader.tellOrCopy e >>= fun _ => reader.publishComment)
      (taped .classDef label st) (d.hear label e) := by
  have h : Ends raw ws pending (taped .classDef label st) d (reader.tell e >>= fun _ => reader.publishComment)
      (taped .classDef label st) (d.hear label e) := .hear he
  exact h

theorem superClass (name : TypeName) : Told .classDef (Detail.superClass name).event := by
  have hwords : IsWording [directive .superClass, name.1] :=
    ⟨(isBare_directive _).1, .inl (isBare_typeName name.2)⟩
  refine told_of_row rfl rfl (fun _ => rfl) (fun _ => rfl) (isRow_of_eq_break hwords (by simp [Datum.plain]))
    fun raw label st d => ?_
  refine .directive .superClass (by decide) rfl (by decide) (.inl rfl) (.atLineEnd ?_)
  refine .passKeyword .superClass (.bind (fun src => outcome_peekWord ..) ?_)
  rw [isDescriptor_typeName name.2]
  exact tellOrCopy rfl

theorem source (name : Quotable) : Told .classDef (Detail.source name).event := by
  have hlast : IsLast (inQuotes name.1) := .inr ⟨name.1, "", name.2, .inl rfl, by simp⟩
  have hwords : IsWording [directive .source, inQuotes name.1] := ⟨(isBare_directive _).1, hlast⟩
  have hname : without (· == '"') (inQuotes name.1) = name.1 := by
    have hfree : ∀ c ∈ name.1.toList, (c == '"') = false := fun c hc => by simpa using (name.2 c hc).1
    have hfilter : name.1.toList.filter (fun c => !(c == '"')) = name.1.toList :=
      filter_eq_self.mpr fun c hc => by rw [hfree c hc]; rfl
    have hquote : "\"".toList.filter (fun c => !(c == '"')) = [] := by decide
    rw [without, inQuotes, String.toList_append, String.toList_append, filter_append, filter_append,
      hfilter, hquote, nil_append, append_nil, String.ofList_toList]
  refine told_of_row rfl rfl (fun _ => rfl) (fun _ => rfl)
    (isRow_of_eq_break hwords (by simp [Datum.plain, inQuotes])) fun raw label st d => ?_
  refine .directive .source (by decide) rfl (by decide) (.inl rfl) (.atLineEnd ?_)
  refine .passKeyword .source (.bind (fun src => outcome_peekWord ..) ?_)
  rw [hname]
  exact tellOrCopy rfl

theorem implements (name : TypeName) : Told .classDef (Detail.implements name).event := by
  have hwords : IsWording [directive .implements, name.1] :=
    ⟨(isBare_directive _).1, .inl (isBare_typeName name.2)⟩
  refine told_of_row rfl rfl (fun _ => rfl) (fun _ => rfl) (isRow_of_eq hwords (by simp [Datum.plain]))
    fun raw label st d => ?_
  have hread : Ends raw [directive .implements, name.1] [directive .implements, name.1]
      (taped .classDef label st) d reader.interface
      (taped .classDef label st) (d.hear label (Detail.implements name).event) := by
    refine .bind (fun src => outcome_nextWord ..) (.bind (fun src => outcome_top ..) ?_)
    exact .bind (fun src => outcome_peekWord ..) (.checkDescriptor (isDescriptor_typeName name.2) (.hear rfl))
  intro src
  exact hread src

theorem detail (x : Detail) : Told .classDef x.event := by
  cases x with
  | superClass name => exact superClass name
  | implements name => exact implements name
  | source name => exact source name

end Told

/-- The heading of a class as it is written. -/
def classHeading (doc : Document) : Statement :=
  ⟨0, directive .classDef ++ " " ++ " ".intercalate (Access.names doc.flags.val) ++ " " ++ doc.name.1, ""⟩

theorem outcome_openClass (doc : Document) {rest : List Char} (hpre : ∀ c ∈ pre, c = ' ')
    (hcs : Follows (pre ++ (classHeading doc).text.toList) cs rest) (k : Cursor) (label : String)
    (st : Slots Listener) (d : Desk) :
    ∃ k', outcome reader.openClass ⟨.ofChars cs, k, taped .classDef label st, d⟩
      = (.ok (), ⟨.ofChars rest, k', taped .classDef label st, d.hear label doc.header⟩) := by
  have hrow : pre ++ (classHeading doc).text.toList = row pre (headingWords doc.flags .classDef [doc.name.1]) [] := by
    rw [row, intercalate_heading _ _ (by simp)]
    simp [classHeading]
  rw [hrow] at hcs
  have hflags := flags_names doc.flags.lt
  refine Reader.outcome_openClass (isKeyword_names doc.flags) doc.name.2 hpre hcs (fun src k => ?_) k
  rw [hflags]
  exact outcome_send src k st d rfl

end Desk

end Dalvik
