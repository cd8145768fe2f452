import Dalvik.Proofs.Numerals
import Dalvik.Proofs.Recorders
import Dalvik.Proofs.Types

/-!
# Class documents

A class document is a class with its details and members: annotations, fields and methods, each with what
belongs to it. Its texts are such that they stand on a line without being taken for anything else; what
that means is said once for each sort of text, and the texts carry the proof.

A document is a sequence of calls to a listener and to the listeners that it hands over
(`Document.script`). The same calls can be made to a writer, which writes a listing
(`Document.write`), and to a recorder, which notes them (`Script.drive`).
-/

namespace Dalvik

open Dalvik.Text

/-! ### Calls -/

/-- Makes a call to a listener, which has to hear it. -/
def Listener.visit (l : Listener) (e : Event) : Desk.Act Listener :=
  if l.hears e.verb then l.deliver e else throw .noOperation

/-- A sequence of calls to a listener; a call that opens a construct goes on with the calls to the listener
of the construct, which end with the end of the construct. -/
inductive Script where
  | done
  | tell (e : Event) (rest : Script)
  | nest (e : Event) (body rest : Script)

namespace Script

/-- Makes the calls. -/
def drive : Script → Listener → Desk.Act Unit
  | done, _ => pure ()
  | tell e rest, l => do
    let _ ← l.visit e
    rest.drive l
  | nest e body rest, l => do
    let inner ← l.visit e
    body.drive inner
    let _ ← inner.visit .close
    rest.drive l

/-- Makes the calls, and then tells the listener that its construct ends. -/
def conclude (sc : Script) (l : Listener) : Desk.Act Unit := do
  sc.drive l
  let _ ← l.visit .close

/-- Calls that open nothing, in front of others. -/
def tells (es : List Event) (rest : Script) : Script :=
  es.foldr tell rest

end Script

namespace Document

/-! ### Texts -/

/-- The characters that a label or a part of an instruction's name cannot have. -/
def isPlainChar (c : Char) : Bool :=
  !isBlank c && c != '#' && c != '\x7b' && c != '\x7d'

/-- Labels: without white space, comment marks and braces, and without a colon in front. -/
def isLabel (s : String) : Bool :=
  s.toList.all isPlainChar && s.toList.head? != some ':'

/-- What stands behind the hyphen of a call or a return. -/
def isVariant (s : String) : Bool :=
  s.toList.all isPlainChar

/-- Names of fields: one word without colons, and without the brackets of special names. -/
def isFieldName (s : String) : Bool :=
  (s.toList.all fun c => !isBlank c && c != '#' && c != ':') && s.toList.head? != some '"' &&
    s.toList.head? != some '<' && s.toList.getLast? != some '>'

/-- Words that are neither a directive nor a label. -/
def isOpening (s : String) : Bool :=
  s.toList.head? != some '.' && s.toList.head? != some ':'

/-- Names of instructions that have no statement of their own. -/
def isInstructionName (s : String) : Bool :=
  decide (IsBare s) && isOpening s && s != "goto" && !("invoke".toList.isPrefixOf s.toList) &&
    !("return".toList.isPrefixOf s.toList)

/-- Operands: words without commas. -/
def isOperand (s : String) : Bool :=
  decide (IsBare s) && !s.toList.contains ','

/-- Arguments of calls: operands without braces. -/
def isArgument (s : String) : Bool :=
  isOperand s && s.toList.all isPlainChar

/-- What is called: a text without white space, comment marks and arrows. -/
def isCallee (s : String) : Bool :=
  (s.toList.all fun c => !isBlank c && c != '#') && !occurs ['-', '>'] s.toList

/-- Names of values of annotations. -/
def isEntryName (s : String) : Bool :=
  decide (IsBare s) && isOpening s && s.toList.all isPlainChar

/-- A word outside of quotes that is a value of an annotation. -/
def isEntryWord (s : String) : Bool :=
  decide (IsBare s) && s.toList.head? != some '.' && !s.toList.contains '\x7b'

/-- A word outside of quotes that stands in a list of values. -/
def isElementWord (s : String) : Bool :=
  decide (IsBare s) && s.toList.head? != some '\x7d' && s.toList.getLast? != some '\x7d' &&
    s.toList.getLast? != some ','

/-- A word with a property, or any text in quotes with another one. -/
inductive Word (bare quotable : String → Prop) where
  | plain (s : String) (h : bare s)
  | quote (s : String) (h : IsQuotable s ∧ quotable s)

/-- A word as it is written. -/
def Word.text {bare quotable : String → Prop} : Word bare quotable → String
  | plain s _ => s
  | quote s _ => inQuotes s

/-- Access flags: not zero, and no bit beyond those of the keywords. -/
structure Flags where
  val : Nat
  ne_zero : val ≠ 0
  lt : val < 2 ^ Access.keywords.length

/-- Integers whose numeral is not too long to be read. -/
abbrev Numeral : Type := { n : Int // n.natAbs < 10 ^ Number.longestDecimal }

/-- The name of a type. -/
abbrev TypeName : Type := { s : String // isTypeName s = true }

/-- A label. -/
abbrev Label : Type := { s : String // isLabel s = true }

/-- A word outside of quotes. -/
abbrev Bare : Type := { s : String // IsBare s }

/-- A text that can stand in quotes. -/
abbrev Quotable : Type := { s : String // IsQuotable s }

/-- The operands of an instruction; the last one may be a text in quotes. -/
structure Operands where
  plain : List { s : String // isOperand s = true }
  quote? : Option Quotable

/-- The operands in order. -/
def Operands.texts (x : Operands) : List String :=
  x.plain.map (·.1) ++ x.quote?.toList.map fun s => inQuotes s.1

/-! ### Documents -/

/-- A value of an annotation, or a list of values that is not empty. -/
inductive Entry where
  | value (name : { s : String // isEntryName s = true })
      (value : Word (isEntryWord · = true) fun s => '\x7b' ∉ s.toList)
  | array (name : { s : String // isEntryName s = true }) (first : Word (isElementWord · = true) fun _ => True)
      (rest : List (Word (isElementWord · = true) fun _ => True))

/-- The call of a value. -/
def Entry.event : Entry → Event
  | value name v => .value (.text name) (.text v.text)
  | array name first rest => .array (.text name) (.texts ((first :: rest).map (·.text)))

/-- An annotation. -/
structure Annotation where
  flags : Flags
  type : TypeName
  entries : List Entry

/-- The calls of an annotation, in front of others. -/
def Annotation.script (a : Annotation) (rest : Script) : Script :=
  .nest (.annot (.int a.flags.val) (.text a.type)) (.tells (a.entries.map (·.event)) .done) rest

/-- A statement of a method. -/
inductive Step where
  | label (name : Label)
  | line (number : Numeral)
  | goto (target : Label)
  | instruction (name : { s : String // isInstructionName s = true }) (operands : Operands)
  | parameter (register : Bare) (name : Quotable)
  | restart (register : Bare)
  | locals (count : Numeral)
  | registers (count : Numeral)
  | prologue
  | catching (type : TypeName) (start stop target : Label)
  | catchingAll (start stop target : Label)
  | ret (variant : { s : String // isVariant s = true }) (operands : Operands)
  | call (variant : { s : String // isVariant s = true }) (first : { s : String // isArgument s = true })
      (rest : List { s : String // isArgument s = true }) (owner : TypeName)
      (callee : { s : String // isCallee s = true })

/-- The call of a statement. -/
def Step.event : Step → Event
  | label name => .label (.text name)
  | line n => .lineNumber (.int n)
  | goto target => .jump (.text target)
  | instruction name xs => .instruction (.text name) (.texts xs.texts)
  | parameter register name => .parameter (.text register) (.text name)
  | restart register => .restart (.text register)
  | locals n => .locals (.int n)
  | registers n => .registers (.int n)
  | prologue => .prologue
  | catching type start stop target => .catching (.text type) (.texts [start, stop, target])
  | catchingAll start stop target => .catchingAll (.text Reader.anyError) (.texts [start, stop, target])
  | ret variant xs => .ret (.text variant) (.texts xs.texts)
  | call variant first rest owner callee =>
    .call (.text variant) (.texts ((first :: rest).map (·.1))) (.text owner) (.text callee)

/-- A part of a method. -/
inductive Part where
  | annotation (a : Annotation)
  | step (s : Step)

/-- The calls of a part of a method, in front of others. -/
def Part.script : Part → Script → Script
  | annotation a, rest => a.script rest
  | step s, rest => .tell s.event rest

/-- A member of a class. -/
inductive Member where
  | annotation (a : Annotation)
  | field (flags : Flags) (name : { s : String // isFieldName s = true }) (type : TypeName)
      (value? : Option (Word IsBare fun _ => True)) (annotations : List Annotation)
  | method (flags : Flags) (name : { s : String // Signature.isMethodName s = true })
      (parameters : List TypeName) (result : TypeName) (body : List Part)

/-- The value of a field, which may have none. -/
def fieldValue (value? : Option (Word IsBare fun _ => True)) : Datum :=
  match value? with
  | some v => .text v.text
  | none => .absent

/-- The calls of a member, in front of others. -/
def Member.script : Member → Script → Script
  | annotation a, rest => a.script rest
  | field flags name type value? annotations, rest =>
    .nest (.field (.text name) (.int flags.val) (.text type) (some (fieldValue value?)))
      (annotations.foldr Annotation.script .done) rest
  | method flags name parameters result body, rest =>
    .nest (.method (.text name) (.int flags.val) (.texts (parameters.map (·.1))) (.text result))
      (body.foldr Part.script .done) rest

/-- A detail of a class. -/
inductive Detail where
  | superClass (name : TypeName)
  | implements (name : TypeName)
  | source (name : Quotable)

/-- The call of a detail. -/
def Detail.event : Detail → Event
  | superClass name => .superClass (.text name)
  | implements name => .implements (.text name)
  | source name => .sourceFile (.text name)

end Document

/-- A class with its details and members. -/
structure Document where
  name : Document.TypeName
  flags : Document.Flags
  details : List Document.Detail
  members : List Document.Member

namespace Document

/-- The call that opens a document. -/
def header (doc : Document) : Event :=
  .classDef (.text doc.name) (.int doc.flags.val)

/-- The calls behind the first one. -/
def content (doc : Document) : Script :=
  .tells (doc.details.map (·.event)) (doc.members.foldr Member.script .done)

/-- The calls of a document, but for its end. -/
def script (doc : Document) : Script :=
  .tell doc.header doc.content

/-- The listing of a document: a new writer is called, and then asked for its text. -/
def write (doc : Document) (indent : Int) : Desk.Act String := do
  let writer ← Listener.newWriter .classDef indent .nobody
  doc.script.conclude writer
  match writer with
  | .writer _ sheet _ _ => Desk.code sheet true
  | _ => throw .noOperation

end Document

end Dalvik
