import Dalvik.Proofs.Assembly
import Dalvik.Proofs.Bounds
import Dalvik.Proofs.Isolation
import Dalvik.Proofs.RoundTrip

/-!
# Classes of straight-line code

A class with one static method that consists of straight-line code and a return is written as a source text
(`StraightClass.text`). Loading the text makes the class and the method in the store of a machine, line by
line: the headings make the class, the method and its frame, and every further line changes the method or
appends one instruction to the frame. What is loaded is straight-line code again
(`StraightClass.outcome_load`), whatever its literals are; those are read when the code is run.
-/

namespace Dalvik

open Dalvik.Text Reader Signature Access Item Listing Assignment List Document

variable {ks : List String}

/-! ### Modifiers and signatures -/

namespace Access

theorem meets_flags (hks : ∀ k ∈ ks, isKeyword k = true) {word : String} {i : Nat} (hword : keywords[i]? = some word) :
    meets (flags ks) (Number.twoPow i) = ks.contains word := by
  have hlower : ∀ k ∈ ks, k.toLower = k := fun k hk => toLower_keyword (contains_iff_mem.mp (hks k hk))
  rw [meets_twoPow, Bool.eq_iff_iff, contains_iff_mem]
  refine (testBit_flags_of_keyword hword ks).trans ⟨?_, fun h => ⟨word, h, hlower _ h⟩⟩
  rintro ⟨s, hs, rfl⟩
  rwa [hlower s hs]

end Access

namespace Signature

variable {owner name result : String} (howner : isTypeName owner = true) (hname : isMethodName name = true)
  (hresult : isTypeName result = true)

include howner hname hresult

theorem parts_of_owner : ∃ dim n d, Descriptor.ofString (owner ++ "->" ++ written name [] result)
      = .ok ⟨owner ++ "->" ++ written name [] result, .method, dim⟩ ∧
    (⟨owner ++ "->" ++ written name [] result⟩ : Signature).name = .ok n ∧
    (⟨owner ++ "->" ++ written name [] result⟩ : Signature).parameterTypes = .ok [] ∧
    (⟨owner ++ "->" ++ written name [] result⟩ : Signature).returnType = .ok d := by
  have hqualified : owner ++ "->" ++ written name [] result = written (qualified (some owner) name) [] result := by
    simp [written, qualified, String.append_assoc]
  rw [hqualified]
  have howner' : ∀ o ∈ some owner, isSignatureType o = true := by
    intro o h
    rw [← Option.mem_some_iff.mp h]
    exact isSignatureType_of_isTypeName howner
  have hname' := isSignatureName_of_isMethodName hname
  have hdots : '.' ∉ (written (qualified (some owner) name) [] result).toList := by
    rw [toList_written, toList_qualified]
    simp only [Option.elim_some, flatMap_nil, nil_append, mem_append, mem_cons, not_mem_nil, or_false, not_or]
    exact ⟨⟨⟨fun h => (not_mem_typeName howner h).2 (by decide), by decide, by decide⟩,
      fun h => (not_mem_methodName hname h).2 (by decide)⟩, by decide, by decide,
      fun h => (not_mem_typeName hresult h).2 (by decide)⟩
  obtain ⟨dim, hsignature⟩ := Descriptor.ofString_parens (by simp [toList_written]) hdots
  obtain ⟨hopen, hclose⟩ := paren_not_mem_qualified howner' hname'
  obtain ⟨ds, hparameters, hds⟩ := @parameterTypes_written _ [] hopen hclose (by simp) result
  obtain ⟨d, hreturn, -⟩ := @returnType_written _ [] _ hclose (by simp) (isSignatureType_of_isTypeName hresult)
  obtain rfl := map_eq_nil_iff.mp hds
  exact ⟨dim, name, d, hsignature, name_written howner' hname' [] result, hparameters, hreturn⟩

end Signature

/-! ### Sources of classes -/

namespace Reader

variable {ν σ : Type} {r : Reader ν σ} {st st' : Slots ν} {d d' : σ}

theorem outcome_visit_text (hpolicy : r.options.knownPolicy = true) {code : String} (hne : code ≠ "") (root : ν)
    (src : Source) (k : Cursor) :
    outcome (r.visit (.text code) (some root)) ⟨src, k, st, d⟩
      = outcome ((unless r.options.snippet do r.openClass) >>= fun _ => r.readBody)
          ⟨.ofChars code.toList, k, .node root :: st, d⟩ := by
  have hpresent : (Input.text code).isPresent = true := by simpa [Input.isPresent] using hne
  have hsource : (Input.text code).source = .ok (.ofChars code.toList) := by
    rw [Source.ofChars, String.ofList_toList]
    rfl
  exact r.outcome_visit hpresent hsource hpolicy root src k st d

theorem outcome_visit_classHeading (hwhole : r.options.snippet = false) (hpolicy : r.options.knownPolicy = true)
    (hks : ∀ k ∈ ks, isKeyword k = true) {name : String} (hname : isTypeName name = true) {root : ν}
    (hsend : ∀ src k, outcome (r.send (.classDef (.text name) (.int (flags ks)))) ⟨src, k, .node root :: st, d⟩ = (.ok none, ⟨src, k, .node root :: st, d'⟩))
    (bs : List String) (src : Source) (k : Cursor) :
    ∃ k', outcome (r.visit (.text ("\n".intercalate
        (" ".intercalate (Listing.directive .classDef :: (ks ++ [name])) :: bs))) (some root)) ⟨src, k, st, d⟩
      = outcome r.readBody ⟨.ofChars ("\n".intercalate bs).toList, k', .node root :: st, d'⟩ := by
  have hwords : IsWording (Listing.directive .classDef :: (ks ++ [name])) :=
    isWording_heading hks .classDef (.inl (isBare_typeName hname))
  have hfollows : Follows (row [] (Listing.directive .classDef :: (ks ++ [name])) [])
      ("\n".intercalate (" ".intercalate (Listing.directive .classDef :: (ks ++ [name])) :: bs)).toList
      ("\n".intercalate bs).toList := by
    cases bs with
    | nil => exact .inr ⟨by simp [row], by simp⟩
    | cons b bs => exact .inl (by simp [row, String.intercalate_cons_cons])
  generalize "\n".intercalate (" ".intercalate (Listing.directive .classDef :: (ks ++ [name])) :: bs) = code
    at hfollows ⊢
  have hne : code ≠ "" := by
    rintro rfl
    rcases hfollows with h | ⟨h, -⟩
    · simp at h
    · exact hwords.toList_ne_nil (by simpa [row] using h.symm)
  obtain ⟨k', hopen⟩ := outcome_openClass hks hname (by simp) hfollows hsend k
  refine ⟨k', ?_⟩
  rw [outcome_visit_text hpolicy hne, hwhole]
  exact bind_ok _ hopen

/-- Where whoever listens leaves the source alone, a body is read line by line, and the construct that is the
innermost one at its end is told so. -/
theorem outcome_readBody_conveyed (h : r.host.Private) {bs : List String} (hall : r.ConveysAll bs st d st' d')
    (k : Cursor) :
    ∃ k', outcome r.readBody ⟨.ofChars ("\n".intercalate bs).toList, k, st, d⟩
      = outcome (r.tell .close) ⟨⟨[]⟩, k', st', d'⟩ := by
  obtain ⟨k', hreads⟩ := reads_of_conveysAll hall k
  have hend : outcome r.readLine ⟨⟨[]⟩, k', st', d'⟩ = (.error .endOfSource, ⟨⟨[]⟩, k', st', d'⟩) := rfl
  refine ⟨k', ?_⟩
  rw [(governs_taking h).outcome_readBody trivial (hreads.stops ⟨_, .refl _, hend⟩), if_pos (by decide)]

end Reader

namespace Store

open LoadNode

variable {n : LoadNode} {e : Event} {w w' : Store} {node? : Option LoadNode}

section

variable (hears : n.shape.hears e.verb = true) (he : outcome (n.deliver e) w = (.ok node?, w')) (src : Source)
  (k : Cursor) (st : Slots LoadNode)

include hears he

theorem outcome_send :
    outcome (loadReader.send e) ⟨src, k, .node n :: st, w⟩ = (.ok node?, ⟨src, k, .node n :: st, w'⟩) := by
  have hsend := outcome_sendTo hears src k (.node n :: st) w
  rw [he] at hsend
  exact hsend

theorem outcome_tell :
    outcome (loadReader.tell e) ⟨src, k, .node n :: st, w⟩ = (.ok (), ⟨src, k, .node n :: st, w'⟩) := by
  rw [Reader.tell, bind_ok _ (outcome_send hears he src k st)]
  rfl

/-! ### What the headings make -/

end

/-- The store of a new machine, which chooses from the first actions. -/
def fresh (strict traced : Bool) : Store :=
  { initial with vms := #[⟨none, strict, traced⟩] }

/-- The store with one class, its method and the frame of the method. -/
def single (w : Store) (c : ClassInfo) (name : String) (m : MethodInfo) (f : Frame) : Store :=
  { w with
    readings := #[some 0]
    classes := #[{ c with methods := [(name, 0)] }]
    methods := #[m]
    frames := #[f]
    overloads := #[⟨name, [0]⟩]
    frameTable := [(m.type.text, 0)] }

variable {strict traced : Bool}

theorem outcome_classDef {name : String} (hname : isTypeName name = true) (flags : Int) :
    ∃ c : ClassInfo, c.type.text = name ∧ c.methods = [] ∧
      outcome ((LoadNode.cls 0 0).deliver (.classDef (.text name) (.int flags)))
          { fresh strict traced with readings := #[none] }
        = (.ok none, { fresh strict traced with readings := #[some 0], classes := #[c] }) := by
  obtain ⟨kind, dim, hd⟩ := Descriptor.ofString_typeName hname
  let d : Descriptor := ⟨name, kind, dim⟩
  let c : ClassInfo :=
    { toMember := ⟨d, name, flags, [], .null⟩, name := .ofString d.prettyName, simpleName := d.simpleName,
      fields := [], methods := [], super := .null, interfaces := [], inner := [] }
  refine ⟨c, rfl, rfl, ?_⟩
  simp only [deliver, onClass, newClass, newMember, Datum.plain, hd]
  rfl

theorem outcome_method {c : ClassInfo} (hmethods : c.methods = []) (hclass : isTypeName c.type.text = true)
    {name result : String} (hname : isMethodName name = true) (hne : name ≠ "")
    (hresult : isTypeName result = true) (flags : Int) :
    ∃ m : MethodInfo, m.signature = Signature.written name [] result ∧ m.modifiers = flags ∧ m.vm? = some 0 ∧
      outcome ((LoadNode.cls 0 0).deliver (.method (.text name) (.int flags) (.texts []) (.text result)))
          { fresh strict traced with readings := #[some 0], classes := #[c] }
        = (.ok (some (.method 0 0)), single (fresh strict traced) c name m { Frame.empty with vm? := some 0 }) := by
  obtain ⟨dim, n, d, hsignature, hn, hparameters, hreturn⟩ := parts_of_owner hclass hname hresult
  let type : Descriptor := ⟨c.type.text ++ "->" ++ Signature.written name [] result, .method, dim⟩
  let m : MethodInfo :=
    { toMember := ⟨type, Signature.written name [] result, flags, [], .cls 0⟩, vm? := some 0, name := .ofString n,
      parameters := [], result := d, locals? := none }
  let w : Store := { fresh strict traced with readings := #[some 0], classes := #[c] }
  have hnew : outcome (newMethod (some 0) 0 (Signature.written name [] result) flags) w
      = (.ok 0, { w with methods := #[m] }) := by
    have hinfo : outcome (classInfo 0) w = (.ok c, w) := rfl
    have hmember : outcome (newMember (c.type.text ++ "->" ++ Signature.written name [] result) (.cls 0)
        (Signature.written name [] result) flags []) w = (.ok m.toMember, w) := by
      rw [newMember, hsignature]
      rfl
    have hsig : type.signature? = some ⟨type.text⟩ := rfl
    rw [newMethod, bind_ok _ hinfo, bind_ok _ hmember, hsig]
    dsimp only
    rw [hn, hparameters, hreturn]
    rfl
  let f : Frame := { Frame.empty with vm? := some 0 }
  let w₁ : Store := { w with methods := #[m], frames := #[f], frameTable := [(type.text, 0)] }
  have hframe : outcome (newFrame .empty) { w with methods := #[m] }
      = (.ok 0, { w with methods := #[m], frames := #[.empty] }) := rfl
  have hregister : outcome (registerFrame 0 0 0) { w with methods := #[m], frames := #[.empty] } = (.ok (), w₁) := rfl
  -- the class has no method of the name yet
  have hset : outcome (setMember 0 name (.method 0)) w₁ = (.ok (), single (fresh strict traced) c name m f) := by
    have hkey : name.isEmpty = false := by simpa using hne
    rw [setMember, hkey]
    obtain ⟨_, _, _, _, methods, _, _, _⟩ := c
    obtain rfl : methods = [] := hmethods
    rfl
  have hread : outcome (classRead 0) w = (.ok 0, w) := rfl
  have hadd : outcome (addMethod 0 0 (.text name) (.int flags) (.texts []) (.text result)) w
      = (.ok (.method 0 0), single (fresh strict traced) c name m f) := by
    have hsteps : addMethod 0 0 (.text name) (.int flags) (.texts []) (.text result) = (do
        let i ← newMethod (some 0) 0 (Signature.written name [] result) flags
        let j ← newFrame .empty
        registerFrame 0 i j
        setMember 0 name (.method i)
        pure (.method i j) : Act LoadNode) := rfl
    rw [hsteps, bind_ok w hnew, bind_ok _ hframe, bind_ok _ hregister, bind_ok _ hset]
    rfl
  refine ⟨m, rfl, rfl, rfl, ?_⟩
  rw [deliver, onClass, bind_ok w hread, bind_ok w hadd]
  rfl

/-! ### What the lines of the body enter -/

section Body

variable {c : ClassInfo} {name : String} {m : MethodInfo} {f : Frame} {st : Slots LoadNode}

theorem conveys_methodHeading (hks : ∀ k ∈ ks, isKeyword k = true) {result : String}
    (hname : isMethodName name = true) (hresult : isTypeName result = true)
    (hmade : outcome ((LoadNode.cls 0 0).deliver (.method (.text name) (.int (flags ks)) (.texts []) (.text result))) w = (.ok (some (.method 0 0)), w')) :
    loadReader.Conveys (" ".intercalate (directive .method :: (ks ++ [Signature.written name [] result]))).toList
      (.node (.cls 0 0) :: st) w (.node (.method 0 0) :: .node (.cls 0 0) :: st) w' := by
  have hwords : IsWording [Signature.written name [] result] :=
    .inl (isBare_written hname (by simp) hresult)
  have hears : (LoadNode.cls 0 0).shape.hears .method = true := rfl
  refine (isRow_of_eq (isWording_heading hks .method hwords) rfl).conveys_flush rfl fun raw => ?_
  exact .method hks hname (by simp) hresult rfl rfl (.bind (fun src => outcome_send hears hmade src _ st)
    (.of_outcome fun src => rfl))

theorem conveys_locals (n : Numeral) :
    loadReader.Conveys (directive .locals ++ " " ++ toString n.1).toList (.node (.method 0 0) :: st)
      (single w c name m f) (.node (.method 0 0) :: st) (single w c name { m with locals? := some n.1 } f) := by
  have hwords : IsWording [directive .locals, toString n.1] :=
    ⟨(isBare_directive _).1, .inl (Number.isBare_toString n.1)⟩
  have hkept : outcome ((LoadNode.method 0 0).deliver (.locals (.int n.1))) (single w c name m f)
      = (.ok none, single w c name { m with locals? := some n.1 } f) := rfl
  refine (isRow_of_eq hwords (by simp)).conveys_flush rfl fun raw => ?_
  refine .directive .locals (by decide) rfl (by decide) (.inl rfl) ?_
  exact .numbered n.2 .locals .locals .locals rfl (.tell fun src k => outcome_tell rfl hkept src k st)

theorem conveys_endMethod :
    loadReader.Conveys (directive .close ++ " method").toList (.node (.method 0 0) :: st) w st w := by
  have hwords : IsWording [directive .close, "method"] := ⟨(isBare_directive _).1, .inl (by decide)⟩
  refine (isRow_of_eq hwords (by simp)).conveys_flush rfl fun raw => ?_
  exact .close (by decide) rfl fun src k => outcome_sendTo (n := .method 0 0) rfl src k st w

variable (hvm : f.vm? = some 0)

include hvm

theorem outcome_bindInstruction {opcode : String} {a : Nat} (hknown : Opcode.isKnown opcode = true)
    (ha : firstTable.get? opcode = some a) (operands : Datum) :
    outcome (bindInstruction 0 opcode operands) (single (fresh strict traced) c name m f)
      = (.ok (), single (fresh strict traced) c name m ((code ⟨a, operands⟩).enter f)) := by
  have hframe : outcome (frameInfo 0) (single (fresh strict traced) c name m f)
      = (.ok f, single (fresh strict traced) c name m f) := rfl
  have hactions : outcome (actionsOf 0) (single (fresh strict traced) c name m f)
      = (.ok firstTable, single (fresh strict traced) c name m f) := rfl
  rw [bindInstruction, bind_ok _ hframe, hvm]
  rw [bind_ok _ hactions, hknown, ha]
  rfl

theorem conveys_assignment (s : Assignment) :
    loadReader.Conveys s.text.toList (.node (.method 0 0) :: st) (single (fresh strict traced) c name m f)
      (.node (.method 0 0) :: st) (single (fresh strict traced) c name m ((code s.instruction).enter f)) := by
  obtain ⟨hlookup, -, hknown⟩ := s.mnemonic.first_action
  have hdone : outcome ((LoadNode.method 0 0).deliver s.event) (single (fresh strict traced) c name m f)
      = (.ok none, single (fresh strict traced) c name m ((code s.instruction).enter f)) :=
    bind_ok _ (outcome_bindInstruction hvm hknown hlookup _)
  have hrow : IsRow s.text.toList s.words := isRow_of_eq s.isWording_words (by rw [s.text_eq])
  refine hrow.conveys_flush rfl fun raw => ?_
  exact s.ends_statement rfl rfl (fun src k => outcome_tell rfl hdone src k st) raw

theorem conveys_return (k : Nat) : loadReader.Conveys ("return " ++ registerName k).toList (.node (.method 0 0) :: st)
      (single (fresh strict traced) c name m f) (.node (.method 0 0) :: st)
      (single (fresh strict traced) c name m ((code (returning k)).enter f)) := by
  obtain ⟨hlookup, -, hknown⟩ := first_action_return
  have hdone : outcome ((LoadNode.method 0 0).deliver (.ret (.text "") (.texts [registerName k])))
      (single (fresh strict traced) c name m f)
      = (.ok none, single (fresh strict traced) c name m ((code (returning k)).enter f)) :=
    bind_ok _ (outcome_bindInstruction hvm hknown hlookup _)
  have hoperand : ∀ x ∈ [registerName k], isOperand x = true := by
    simp [isOperand_registerName]
  have hrow : IsRow ("return " ++ registerName k).toList ("return" :: withCommas [registerName k]) :=
    isRow_of_eq (isWording_withCommas (by decide) hoperand) (by
      rw [← intercalate_cons_withCommas _ (by simp)]
      simp)
  refine hrow.conveys_flush rfl fun raw => ?_
  refine .withOperands rfl rfl (by decide) (by decide) (by decide) (by decide)
    (operandsIn_withCommas fun x hx => .inl (hoperand x hx)) ?_
  exact .tell fun src k => outcome_tell rfl hdone src k st

omit hvm

theorem conveysAll_code (code : List Assignment) (hvm : f.vm? = some 0) :
    loadReader.ConveysAll (code.map Assignment.text) (.node (.method 0 0) :: st)
      (single (fresh strict traced) c name m f) (.node (.method 0 0) :: st)
      (single (fresh strict traced) c name m ((code.map fun s => Item.code s.instruction).foldl Item.enter f)) := by
  induction code generalizing f with
  | nil => exact .nil _ _
  | cons s code ih => exact .cons (conveys_assignment hvm s) (ih hvm)

end Body

end Store

/-! ### Loading -/

theorem Item.vm?_foldl (items : List Item) (f : Frame) : (items.foldl enter f).vm? = f.vm? := by
  induction items generalizing f with
  | nil => rfl
  | cons item items ih => cases item <;> exact ih _

/-- Keywords of access flags, as they stand in front of a name. -/
abbrev Modifiers : Type := { ks : List String // ∀ k ∈ ks, isKeyword k = true }

/-- A class with one method, which is static, has no parameters, and consists of straight-line code and the
return of a register. -/
structure StraightClass where
  modifiers : Modifiers
  name : TypeName
  methodModifiers : Modifiers
  method : { s : String // isMethodName s = true ∧ s ≠ "" }
  result : TypeName
  locals : Numeral
  code : List Assignment
  returned : Nat
  static : "static" ∈ methodModifiers.1
  concrete : "abstract" ∉ methodModifiers.1

namespace StraightClass

open Store LoadNode

variable (x : StraightClass)
variable {w : Store} {m : MethodInfo} (strict traced : Bool)

/-- The signature of the method. -/
def signature : String :=
  written x.method.1 [] x.result.1

/-- The lines behind the heading of the class. -/
def body : List String :=
  " ".intercalate (".method" :: (x.methodModifiers.1 ++ [x.signature])) :: (".locals " ++ toString x.locals.1) ::
    (x.code.map Assignment.text ++ ["return " ++ registerName x.returned, ".end method"])

/-- The source of the class. -/
def text : String :=
  "\n".intercalate (" ".intercalate (".class" :: (x.modifiers.1 ++ [x.name.1])) :: x.body)

/-- A store in which the class is loaded, with number zero, as are its method and the frame of the method. -/
structure Loaded (w : Store) : Prop where
  method : w.StraightMethod 0 0 0 x.locals.1 x.code x.returned
  found : w.methodOf? 0 x.signature = some (.method 0)
  initialiser : w.methodOf? 0 classInit = if x.method.1 = classInit then some (.overloads 0) else none
  alone : (w.overloads[0]?).getD default = ⟨x.method.1, [0]⟩

theorem Loaded.continues {x : StraightClass} {w' : Store} (h : x.Loaded w) (hcont : w.Continues w')
    (hmethod : w'.StraightMethod 0 0 0 x.locals.1 x.code x.returned) : x.Loaded w' := by
  have hrest := hcont.rest
  have hclasses : w'.classes = w.classes := by rw [hrest]
  have hoverloads : w'.overloads = w.overloads := by rw [hrest]
  have hmethods : w'.methods = w.methods := by rw [hrest]
  refine ⟨hmethod, ?_, ?_, ?_⟩
  · rw [methodOf?_congr hclasses hoverloads hmethods, h.found]
  · rw [methodOf?_congr hclasses hoverloads hmethods, h.initialiser]
  · rw [hoverloads, h.alone]

/-- The frame that the code is loaded into. -/
def frame : Frame :=
  (Item.code (returning x.returned)).enter
    ((x.code.map fun s => Item.code s.instruction).foldl Item.enter { Frame.empty with vm? := some 0 })

theorem instructions_frame :
    x.frame.instructions.toList = x.code.map Assignment.instruction ++ [returning x.returned] := by
  have hcodes : Item.codes (x.code.map fun s => Item.code s.instruction) = x.code.map Assignment.instruction := by
    induction x.code with
    | nil => rfl
    | cons s code ih => rw [map_cons, Item.codes, ih, map_cons]
  rw [frame, Item.enter, Array.toList_push, Item.instructions_foldl, hcodes]
  rfl

theorem signature_ne {s : String} (hs : '(' ∉ s.toList) : x.signature ≠ s := by
  rintro rfl
  exact hs (by simp [signature, toList_written])

theorem loaded_single (c : ClassInfo) (hsignature : m.signature = x.signature)
    (hmodifiers : m.modifiers = flags x.methodModifiers.1) (hvm : m.vm? = some 0) (table : Table String Nat) :
    x.Loaded { single (fresh strict traced) c x.method.1 { m with locals? := some x.locals.1 } x.frame with
      classTable := table } := by
  generalize hw : ({ single (fresh strict traced) c x.method.1 { m with locals? := some x.locals.1 } x.frame with
      classTable := table } : Store) = w
  have hmethod : w.method 0 = { m with locals? := some x.locals.1 } := by rw [← hw]; rfl
  have htable : w.frameTable = [(m.type.text, 0)] := by rw [← hw]; rfl
  have halone : (w.overloads[0]?).getD default = ⟨x.method.1, [0]⟩ := by rw [← hw]; rfl
  have hclass : ((w.classes[0]?).getD default).methods = [(x.method.1, 0)] := by rw [← hw]; rfl
  have hframe : w.frame 0 = x.frame := by rw [← hw]; rfl
  have hstatic : Access.meets m.modifiers Access.static = true := by
    rw [hmodifiers]
    exact (meets_flags x.methodModifiers.2 (i := 3) rfl).trans (contains_iff_mem.mpr x.static)
  have hconcrete : meets m.modifiers abstract = false := by
    rw [hmodifiers]
    refine (meets_flags x.methodModifiers.2 (i := 12) rfl).trans ?_
    rw [contains_eq_mem, decide_eq_false_iff_not]
    exact x.concrete
  have hname : x.method.1 ≠ x.signature :=
    (x.signature_ne fun hmem => (not_mem_methodName x.method.2.1 hmem).2 (by decide)).symm
  have hinit : x.signature ≠ classInit := x.signature_ne (by decide)
  constructor
  · refine ⟨⟨by rw [hmethod]; exact hvm, by rw [hmethod]; exact hconcrete, by rw [hmethod], ?_, ?_⟩, ?_, ?_, ?_, ?_⟩
    · rw [hmethod, htable]
      simp [Table.get?]
    · rw [← hw]
      exact Nat.one_pos
    · rw [isStatic, hmethod]
      exact hstatic
    · rw [← hw]
      rfl
    · rw [← hw]
      exact fun b => rfl
    · rw [hframe]
      exact x.instructions_frame
  · rw [methodOf?, hclass, methodIn?, halone, if_neg (by simpa using hname)]
    simp [hmethod, hsignature]
  · rw [methodOf?, hclass, methodIn?, halone]
    by_cases h : x.method.1 = classInit
    · rw [if_pos (by simpa using h), if_pos h]
    · simp [hmethod, hsignature, hinit, methodIn?]
  · exact halone

theorem conveysAll_body {strict traced : Bool} {c : ClassInfo}
    (hmade : outcome ((cls 0 0).deliver (.method (.text x.method.1) (.int (flags x.methodModifiers.1)) (.texts []) (.text x.result.1))) w = (.ok (some (.method 0 0)), single (fresh strict traced) c x.method.1 m { Frame.empty with vm? := some 0 }))
    (st : Slots LoadNode) :
    loadReader.ConveysAll x.body (.node (.cls 0 0) :: st) w (.node (.cls 0 0) :: st)
      (single (fresh strict traced) c x.method.1 { m with locals? := some x.locals.1 } x.frame) := by
  let f : Frame := { Frame.empty with vm? := some 0 }
  have hlocals : loadReader.Conveys (".locals " ++ toString x.locals.1).toList
      (.node (.method 0 0) :: .node (.cls 0 0) :: st) (single (fresh strict traced) c x.method.1 m f)
      (.node (.method 0 0) :: .node (.cls 0 0) :: st)
      (single (fresh strict traced) c x.method.1 { m with locals? := some x.locals.1 } f) := conveys_locals x.locals
  have hvm : ((x.code.map fun s => Item.code s.instruction).foldl Item.enter f).vm? = some 0 := Item.vm?_foldl _ f
  refine .cons (conveys_methodHeading x.methodModifiers.2 x.method.2.1 x.result.2 hmade) (.cons hlocals ?_)
  exact (conveysAll_code x.code rfl).append (.cons (conveys_return hvm x.returned) (.cons conveys_endMethod (.nil _ _)))

theorem outcome_define (src : Source) (k : Cursor) (st : Slots LoadNode) :
    ∃ w k', outcome (define 0 (.text x.text)) ⟨src, k, st, fresh strict traced⟩
      = (.ok 0, ⟨⟨[]⟩, k', .node (.cls 0 0) :: st, w⟩) ∧ x.Loaded w := by
  obtain ⟨c, htype, hmethods, hclass⟩ := @outcome_classDef strict traced x.name.1 x.name.2 (flags x.modifiers.1)
  obtain ⟨m, hsignature, hmodifiers, hvm, hmethod⟩ := @outcome_method strict traced c hmethods
    (by rw [htype]; exact x.name.2) x.method.1 x.result.1 x.method.2.1 x.method.2.2 x.result.2
    (flags x.methodModifiers.1)
  have hnew : outcome (reading (newReading none)) ⟨src, k, st, fresh strict traced⟩
      = (.ok 0, ⟨src, k, st, { fresh strict traced with readings := #[none] }⟩) := rfl
  have hears : (LoadNode.cls 0 0).shape.hears .classDef = true := rfl
  obtain ⟨k₁, hvisit⟩ := outcome_visit_classHeading (r := loadReader) rfl rfl x.modifiers.2 x.name.2
    (fun src k => outcome_send hears hclass src k st) x.body src k
  obtain ⟨k₂, hbody⟩ := outcome_readBody_conveyed loadHost_private (x.conveysAll_body hmethod st) k₁
  have htold : (cls 0 0).shape.hears Event.close.verb = true := rfl
  let w : Store := single (fresh strict traced) c x.method.1 { m with locals? := some x.locals.1 } x.frame
  have hclose : outcome (loadReader.tell .close) ⟨⟨[]⟩, k₂, .node (.cls 0 0) :: st, w⟩
      = (.ok (), ⟨⟨[]⟩, k₂, .node (.cls 0 0) :: st, w⟩) := outcome_tell htold rfl _ _ _
  have hread : outcome (loadReader.visit (.text x.text) (some (.cls 0 0)))
      ⟨src, k, st, { fresh strict traced with readings := #[none] }⟩
      = (.ok (), ⟨⟨[]⟩, k₂, .node (.cls 0 0) :: st, w⟩) := hvisit.trans (hbody.trans hclose)
  refine ⟨{ w with classTable := Table.set [] c.signature 0 }, k₂, ?_,
    x.loaded_single strict traced c hsignature hmodifiers hvm _⟩
  exact (bind_ok _ hnew).trans (bind_ok _ hread)

/-! ### Calling -/

/-- The code has a value: no numeral is too long, every register is written before it is read, and so is the
register that is returned. -/
structure HasValue : Prop where
  readable : ∀ s ∈ x.code, s.IsReadable
  written : WrittenFirst [] x.code
  returned : x.returned ∈ x.code.map target

variable {x}

theorem Loaded.outcome_initClass (h : x.Loaded w) (hvalue : x.method.1 = classInit → x.HasValue) :
    ∃ w', outcome (initClass runner 0) w = (.ok (), w') ∧ x.Loaded w' := by
  have hinfo : outcome (classInfo 0) w = (.ok ((w.classes[0]?).getD default), w) := rfl
  have hfound := outcome_methodIn w classInit ((w.classes[0]?).getD default).methods
  rw [initClass, bind_ok w hinfo, bind_ok w hfound]
  have hinit := h.initialiser
  rw [methodOf?] at hinit
  rw [hinit]
  by_cases hname : x.method.1 = classInit
  · obtain ⟨hreadable, hwritten, hreturned⟩ := hvalue hname
    obtain ⟨w', hcall, hcont, hmethod⟩ := h.method.outcome_callOn hreadable hwritten hreturned .null
    refine ⟨w', ?_, h.continues hcont hmethod⟩
    have hstatic := h.method.static
    rw [if_pos hname]
    refine bind_ok w (Eq.trans ?_ hcall)
    rw [outcome_callValue_overloads h.alone mem_cons_self, if_pos length_singleton,
      outcome_callMethod h.method.callable (.inl hstatic),
      Store.outcome_callOn h.method.callable (.inl hstatic)]
  · rw [if_neg hname]
    exact ⟨w, rfl, h⟩

theorem outcome_load (strict traced init : Bool)
    (hvalue : init = true → x.method.1 = classInit → x.HasValue) (src : Source) (k : Cursor)
    (st : Slots LoadNode) :
    ∃ w k', outcome (load 0 (.text x.text) init) ⟨src, k, st, fresh strict traced⟩
      = (.ok 0, ⟨⟨[]⟩, k', .node (.cls 0 0) :: st, w⟩) ∧ x.Loaded w := by
  obtain ⟨w, k', hdefine, hloaded⟩ := x.outcome_define strict traced src k st
  rw [load, bind_ok _ hdefine]
  cases init with
  | false => exact ⟨w, k', rfl, hloaded⟩
  | true =>
    obtain ⟨w', hinit, hloaded'⟩ := hloaded.outcome_initClass (hvalue rfl)
    have hreading : outcome (reading (initClass runner 0)) ⟨⟨[]⟩, k', .node (.cls 0 0) :: st, w⟩
        = (.ok (), ⟨⟨[]⟩, k', .node (.cls 0 0) :: st, w'⟩) := by
      rw [outcome_reading, hinit]
    exact ⟨w', k', bind_ok _ hreading, hloaded'⟩

/-- A class is loaded from a text into a new machine, and a method of it is called without arguments on one
object after another. -/
def callsLoaded (strict traced init : Bool) (text signature : String) (insts : List Value) :
    Read LoadNode Store (List Value) := do
  let vm ← reading (newVm [] strict traced)
  let c ← load vm (.text text) init
  reading do
    let target ← methodOf c signature
    insts.mapM fun inst => callOn runner vm target ⟨inst, [], []⟩

theorem outcome_callsLoaded {strict traced init : Bool}
    (hvalue : init = true → x.method.1 = classInit → x.HasValue) (insts : List Value) :
    ∃ w, x.Loaded w ∧ (outcome (callsLoaded strict traced init x.text x.signature insts) ⟨⟨[]⟩, .start, [], .initial⟩).1
        = (outcome (insts.mapM fun inst => callOn runner 0 (.method 0) ⟨inst, [], []⟩) w).1 := by
  have hnew : outcome (reading (newVm [] strict traced)) (⟨⟨[]⟩, .start, [], initial⟩ : Session LoadNode Store)
      = (.ok 0, ⟨⟨[]⟩, .start, [], fresh strict traced⟩) := rfl
  obtain ⟨w, k', hload, hloaded⟩ := outcome_load strict traced init hvalue ⟨[]⟩ .start []
  refine ⟨w, hloaded, ?_⟩
  rw [callsLoaded, bind_ok _ hnew, bind_ok _ hload, outcome_reading, bind_ok w (outcome_methodOf hloaded.found)]

theorem HasValue.outcome_callsLoaded (h : x.HasValue) (strict traced init : Bool) (insts : List Value) :
    (outcome (callsLoaded strict traced init x.text x.signature insts) ⟨⟨[]⟩, .start, [], .initial⟩).1
      = .ok (insts.map fun _ => .int (run x.code x.returned)) := by
  obtain ⟨w, hloaded, hcalls⟩ := @StraightClass.outcome_callsLoaded x strict traced init (fun _ _ => h) insts
  obtain ⟨w', hmap⟩ := hloaded.method.outcome_calls h.readable h.written h.returned insts
  rw [hcalls, hmap]

end StraightClass

end Dalvik
