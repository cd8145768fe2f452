import Dalvik.Proofs.Recorders

/-!
# Outlines of sources

An outline is the nesting of the lines of a source below its header: comments, statements, constructs that
are closed by an end of their own, and fields that are left open because nothing belongs to them. The words
of a line say what it does to the nesting (`Line.role`); `Outline.WellNested` asks that every line plays the
part that the outline gives to it, and that it can be read where it stands.

`Outline.Delivered` says which notes recorders should have of an outline: a line is noted by the recorder of
the construct that encloses it, a construct that is opened gets a recorder of its own, and this recorder
notes the end of the construct where it ends. As many ends are then noted as there are constructs, those
with an end of their own and those that are left open (`Outline.Delivered.ended`).
-/

namespace Dalvik

open Line List

variable {n : Note} {outer : String}

/-- The constructs that a line opens. -/
inductive Construct where
  | innerClass | method | field | annot | subAnnot
  deriving DecidableEq, Repr

namespace Construct

/-- The verb of the event that opens a construct. -/
def verb : Construct → Verb
  | innerClass => .innerClass
  | method => .method
  | field => .field
  | annot => .annot
  | subAnnot => .subAnnot

/-- The shape of a construct. -/
def shape : Construct → Shape
  | innerClass => .classDef
  | method => .method
  | field => .field
  | annot | subAnnot => .annot

/-- The sort of the recorder of a construct. -/
def sort : Construct → String
  | innerClass => "inner"
  | method => "method"
  | field => "field"
  | annot => "annotation"
  | subAnnot => "subannotation"

/-- The word that the end of a construct names. -/
def closing : Construct → Keyword
  | innerClass => .classDef
  | method => .method
  | field => .field
  | annot => .annot
  | subAnnot => .subAnnot

/-- The label of the recorder that a construct gets at a desk. -/
def label (k : Construct) (d : Desk) : String := s!"{k.sort}#{d.recorders}"

theorem opens_verb (k : Construct) : Listener.opens k.verb = some (k.sort, k.shape) := by
  cases k <;> rfl

end Construct

/-- Which constructs a construct may hold. -/
def Shape.holds : Shape → Construct → Bool
  | .classDef, k => k != .subAnnot
  | .method, k | .field, k => k == .annot
  | .annot, k => k == .subAnnot

/-- What a line does to the constructs that are open. -/
inductive Role where
  | tells
  | opens (k : Construct)
  | closes
  deriving DecidableEq, Repr

namespace Role

/-- The role of a directive on a line with a given last word. Two names lead to another directive instead;
they have no role of their own. -/
def ofDirective (last? : Option String) (w : String) : Option Role :=
  let name := String.ofList (w.toList.drop 1)
  if name == Keyword.classDef.text then some (.opens .innerClass)
  else match Directive.ofName? name with
    | some .field => some (.opens .field)
    | some .method => some (.opens .method)
    | some .annot => some (.opens .annot)
    | some .subAnnot => some (.opens .subAnnot)
    | some .close =>
      some (if last? == some Keyword.localVar.text || last? == some Keyword.param.text then .tells else .closes)
    | some .value | some .directive => none
    | _ => some .tells

/-- The role of a value of an annotation, given what follows its name: the equals sign, and a directive or a
plain value. -/
def ofValue (last? : Option String) : List String → Option Role
  | _ :: w :: _ => if w.toList.head? = some '.' then ofDirective last? w else some .tells
  | _ => some .tells

end Role

namespace Line

/-- The line of a text. -/
def ofText (text : String) : Line :=
  match ofString text with
  | .ok l => l
  | .error _ => default

/-- The role of a line inside a construct of a shape. -/
def role (shape : Shape) (l : Line) : Option Role :=
  if l.cleaned = "" then some .tells
  else match l.words with
    | [] => some .tells
    | w :: ws =>
      if w.toList.head? = some '.' then Role.ofDirective l.words.getLast? w
      else if w.toList.head? = some ':' then some .tells
      else if shape = .annot then Role.ofValue l.words.getLast? ws
      else some .tells

end Line

/-- Which statements a construct may hold. In a class they are directives other than an end; a field has
none. -/
def Shape.takes (shape : Shape) (l : Line) : Prop :=
  match shape with
  | .classDef =>
    l.cleaned = "" ∨ ∃ w, l.words.head? = some w ∧ w.toList.head? = some '.' ∧ w ≠ "." ++ Keyword.close.text
  | .field => l.cleaned = ""
  | .method | .annot => True

/-- A line of a source that is no comment. -/
structure Line.IsPlain (text : String) : Prop where
  ne_empty : text ≠ ""
  not_remark : isRemark text = false

namespace Desk

/-- A line, with the lines that belong to it, is read wherever a construct of a shape is the innermost one,
and no line besides. -/
def Accepts (r : Reader Listener Desk) (shape : Shape) (line : String) (more : List String) : Prop :=
  ∀ (rest : List (Option String)) (k : Cursor) (label : String) (st : List (Slot Listener)) (d : Desk),
    d.declined = [] → ∃ t, outcome r.readLine
      ⟨⟨(line :: more).map some ++ rest⟩, k, .node (.recorder shape label) :: st, d⟩ = (.ok (), t) ∧ t.source = ⟨rest⟩

variable (r : Reader Listener Desk)

/-- A statement of a construct of a shape, with the lines that belong to it. -/
structure IsStatement (shape : Shape) (line : String) (more : List String) : Prop where
  plain : IsPlain line
  role : (ofText line).role shape = some .tells
  fits : shape.takes (ofText line)
  accepted : Accepts r shape line more

/-- The header of a construct inside a construct of a shape. -/
structure IsHeader (shape : Shape) (k : Construct) (line : String) : Prop where
  plain : IsPlain line
  role : (ofText line).role shape = some (.opens k)
  fits : shape.holds k = true
  accepted : Accepts r shape line []

/-- The end of a construct. -/
structure IsEnd (k : Construct) (line : String) : Prop where
  plain : IsPlain line
  opening : (ofText line).words.head? = some ("." ++ Keyword.close.text)
  closing : (ofText line).words.getLast? = some k.closing.text

end Desk

/-- The nesting of the lines of a source below its header. -/
inductive Outline where
  | done
  | remark (line : String) (rest : Outline)
  | statement (line : String) (more : List String) (rest : Outline)
  | closed (k : Construct) (header : String) (body : Outline) (finish : String) (rest : Outline)
  | openField (header : String) (rest : Outline)

namespace Outline

/-- The lines of an outline. -/
def lines : Outline → List String
  | done => []
  | remark line rest => line :: rest.lines
  | statement line more rest => line :: more ++ rest.lines
  | closed _ header body finish rest => header :: body.lines ++ finish :: rest.lines
  | openField header rest => header :: rest.lines

/-- The number of ends. -/
def ends : Outline → Nat
  | done => 0
  | remark _ rest | statement _ _ rest | openField _ rest => rest.ends
  | closed _ _ body _ rest => body.ends + 1 + rest.ends

/-- The number of fields that are left open. -/
def openFields : Outline → Nat
  | done => 0
  | remark _ rest | statement _ _ rest => rest.openFields
  | closed _ _ body _ rest => body.openFields + rest.openFields
  | openField _ rest => rest.openFields + 1

/-- Whether an annotation comes next, blank lines and comments apart. -/
def annotated : Outline → Bool
  | remark _ rest => rest.annotated
  | statement line _ rest => (ofText line).cleaned == "" && rest.annotated
  | closed k _ _ _ _ => k == .annot
  | done | openField _ _ => false

/-- Every line plays its part inside a construct of a shape. A field that is left open is a member of a class,
and no annotation follows it, which would belong to the field. -/
def WellNested (r : Reader Listener Desk) : Shape → Outline → Prop
  | _, done => True
  | shape, remark line rest => isRemark line = true ∧ rest.WellNested r shape
  | shape, statement line more rest => Desk.IsStatement r shape line more ∧ rest.WellNested r shape
  | shape, closed k header body finish rest =>
    Desk.IsHeader r shape k header ∧ body.WellNested r k.shape ∧ Desk.IsEnd k finish ∧ rest.WellNested r shape
  | shape, openField header rest =>
    shape = .classDef ∧ Desk.IsHeader r shape .field header ∧ rest.annotated = false ∧ rest.WellNested r shape

end Outline

namespace Note

/-- A recorder notes something that opens and closes no construct. -/
def Own (label : String) (n : Note) : Prop :=
  ∃ e, e.verb.nests = false ∧ n = .heard label e none

/-- The comment at the end of a header, which is noted for the construct that is opened or for the one around
it. -/
def Trails (outer inner : String) (n : Note) : Prop :=
  ∃ label c, (label = outer ∨ label = inner) ∧ n = .heard label (.trailing c) none

/-- The label of the recorder that comes with a note. -/
def opened? : Note → Option String
  | heard _ _ (some label?) => label?
  | _ => none

/-- The label of the recorder that notes the end of its construct. -/
def ended? : Note → Option String
  | heard label .close _ => some label
  | _ => none

theorem Own.opened? {label : String} (h : n.Own label) : n.opened? = none := by
  obtain ⟨e, -, rfl⟩ := h
  rfl

theorem Own.ended? {label : String} (h : n.Own label) : n.ended? = none := by
  obtain ⟨e, he, rfl⟩ := h
  cases e <;> first | rfl | cases he

theorem Trails.opened? {inner : String} (h : n.Trails outer inner) : n.opened? = none := by
  obtain ⟨label, c, -, rfl⟩ := h
  rfl

theorem Trails.ended? {inner : String} (h : n.Trails outer inner) : n.ended? = none := by
  obtain ⟨label, c, -, rfl⟩ := h
  rfl

end Note

namespace Outline

open Note

/-- The notes that recorders should have of an outline, where the construct around it is recorded under a
label. -/
inductive Delivered : Outline → String → List Note → Prop
  | done (label : String) : Delivered .done label []
  | remark {line : String} {rest : Outline} {label : String} {ns ms : List Note} :
    (∀ n ∈ ns, n.Own label) → Delivered rest label ms → Delivered (.remark line rest) label (ns ++ ms)
  | statement {line : String} {more : List String} {rest : Outline} {label : String} {ns ms : List Note} :
    (∀ n ∈ ns, n.Own label) → Delivered rest label ms → Delivered (.statement line more rest) label (ns ++ ms)
  | closed {k : Construct} {header finish : String} {body rest : Outline} {label inner : String} {e : Event}
      {ns bs ms : List Note} :
    e.verb = k.verb → (∀ n ∈ ns, n.Trails label inner) → Delivered body inner bs → Delivered rest label ms →
      Delivered (.closed k header body finish rest) label
        (.heard label e (some (some inner)) :: ns ++ bs ++ .heard inner .close none :: ms)
  | openField {header : String} {rest : Outline} {label inner : String} {e : Event} {ns ms : List Note} :
    e.verb = .field → (∀ n ∈ ns, n.Trails label inner) → Delivered rest label ms →
      Delivered (.openField header rest) label
        (.heard label e (some (some inner)) :: ns ++ .heard inner .close none :: ms)

theorem ended?_opening {k : Construct} {e : Event} (he : e.verb = k.verb) (label : String)
    (opened : Option (Option String)) : (Note.heard label e opened).ended? = none := by
  cases k <;> cases e <;> first | rfl | cases he

section

variable {k : Construct} {e : Event} {label inner : String} {ns : List Note}

theorem filterMap_ended? (he : e.verb = k.verb) (hns : ∀ n ∈ ns, n.Trails label inner) (bs ms : List Note) :
    (.heard label e (some (some inner)) :: ns ++ bs ++ .heard inner .close none :: ms).filterMap ended?
      = bs.filterMap ended? ++ inner :: ms.filterMap ended? := by
  have hns' := filterMap_eq_nil_iff.mpr fun n hn => (hns n hn).ended?
  simp [filterMap_cons, ended?_opening he, hns']
  rfl

end

theorem Delivered.ended {o : Outline} {label : String} {ns : List Note} (h : o.Delivered label ns) :
    (ns.filterMap ended?).length = o.ends + o.openFields := by
  induction h with
  | done label => rfl
  | remark hns _ ih | statement hns _ ih =>
    simpa [filterMap_eq_nil_iff.mpr fun n hn => (hns n hn).ended?, ends, openFields] using ih
  | closed he hns _ _ ihb ihr =>
    rw [filterMap_ended? he hns]
    simp only [length_append, length_cons, ihb, ihr, ends, openFields]
    omega
  | @openField header rest label inner e ns ms he hns _ ih =>
    have hended := filterMap_ended? (k := .field) he hns [] ms
    simp only [append_nil, filterMap_nil, nil_append] at hended
    rw [hended]
    simp only [length_cons, ih, ends, openFields]
    omega

end Outline

end Dalvik
