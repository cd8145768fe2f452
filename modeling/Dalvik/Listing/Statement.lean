import Dalvik.Access
import Dalvik.Keyword
import Dalvik.Listing.Sheet

/-!
# Written statements

How each event is written: as a statement on the sheet of the construct that hears it, or as the
heading of a new construct with a sheet of its own. The wording depends on nothing but the event and, for
statements over several lines, on the indentation.
-/

namespace Dalvik.Listing

structure Statement where
  /-- The steps by which it is indented beyond the sheet. -/
  deeper : Int
  text : String
  stop : String
  deriving DecidableEq, Repr

structure Heading where
  shape : Shape
  indent : Int
  closing : Keyword
  text : String
  deriving DecidableEq, Repr

def directive (k : Keyword) : String :=
  "." ++ k.text

def accessText (flags : Datum) : Except Fault String :=
  match flags.int? with
  | some n => .ok (" ".intercalate (Access.names n))
  | none => .error (.unsupportedFlags flags.typeName)

/-- Texts joined with a separator; only texts can be joined. -/
def joined (sep : String) (d : Datum) : Except Fault String :=
  match d.texts? with
  | some xs => .ok (sep.intercalate xs)
  | none => .error .operandType

def triple (d : Datum) : Except Fault (Datum × Datum × Datum) :=
  match d.items? with
  | some [a, b, c] => .ok (a, b, c)
  | some _ => .error .partCount
  | none => .error .operandType

def entries (d : Datum) : Except Fault (List (Datum × Datum)) :=
  match d with
  | .table es => .ok es
  | _ => .error .noOperation

/-- A statement one step deeper than its sheet. -/
def inside (text : String) (stop : String) : Except Fault Statement :=
  .ok ⟨1, text, stop⟩

/-- A statement as deep as its sheet. -/
def flush (text : String) (stop : String) : Except Fault Statement :=
  .ok ⟨0, text, stop⟩

def handler (k : Keyword) (type labels : Datum) (stop : String) : Except Fault Statement := do
  let (start, finish, target) ← triple labels
  inside (directive k ++ " " ++ type.plain ++ " \x7b :" ++ start.plain ++ " .. :" ++ finish.plain
    ++ " \x7d :" ++ target.plain) stop

def valueList (indent : Int) (name values : Datum) : Except Fault Statement :=
  match values.items? with
  | none => .error .operandType
  | some [] => inside (name.plain ++ " = \x7b\x7d") ""
  | some _ => do
    let items ← joined (",\n" ++ Sheet.margin (indent + 2)) values
    inside (name.plain ++ " = \x7b\n" ++ Sheet.margin (indent + 2) ++ items ++ "\n"
      ++ Sheet.margin (indent + 1) ++ "\x7d") ""

def returnText (variant : Datum) : String :=
  if variant.holds then "return-" ++ variant.plain else "return" ++ variant.plain

def ofAnnot (indent : Int) : Event → Except Fault (Option Statement)
  | .value name value => some <$> inside (name.plain ++ " = " ++ value.plain) ""
  | .enumConst name owner constant type =>
    some <$> inside (name.plain ++ " = " ++ directive .enumConst ++ " " ++ owner.plain ++ "->"
      ++ constant.plain ++ ":" ++ type.plain) ""
  | .array name values => some <$> valueList indent name values
  | .comment text => some <$> flush ("# " ++ text.plain) ""
  | _ => .ok none

def ofField : Event → Except Fault (Option Statement)
  | .comment text => some <$> flush ("# " ++ text.plain) ""
  | _ => .ok none

def ofClass : Event → Except Fault (Option Statement)
  | .classDef name flags => do
    some <$> flush (directive .classDef ++ " " ++ (← accessText flags) ++ " " ++ name.plain) ""
  | .superClass name => some <$> flush (directive .superClass ++ " " ++ name.plain ++ "\n") ""
  | .implements name => some <$> flush (directive .implements ++ " " ++ name.plain) ""
  | .sourceFile name => some <$> flush (directive .source ++ " \"" ++ name.plain ++ "\"\n") ""
  | .debug enabled => some <$> flush (directive .debug ++ " " ++ enabled.plain) ""
  | .comment text => some <$> flush ("# " ++ text.plain) ""
  | _ => .ok none

def ofMethod (indent : Int) : Event → Except Fault (Option Statement)
  | .comment text => some <$> inside ("# " ++ text.plain) ""
  | .label name => some <$> inside (":" ++ name.plain) ""
  | .lineNumber n => some <$> inside (directive .line ++ " " ++ n.plain) ""
  | .jump label => some <$> inside ("goto :" ++ label.plain) ""
  | .instruction name operands => do
    some <$> inside (name.plain ++ " " ++ (← joined ", " operands)) "\n"
  | .parameter register name =>
    some <$> inside (directive .param ++ " " ++ register.plain ++ " \"" ++ name.plain ++ "\"") ""
  | .restart register => some <$> inside (directive .restart ++ " " ++ register.plain) ""
  | .locals n => some <$> inside (directive .locals ++ " " ++ n.plain) ""
  | .registers n => some <$> inside (directive .registers ++ " " ++ n.plain) "\n"
  | .localVar register name type fullType =>
    some <$> inside (directive .localVar ++ " " ++ register.plain ++ ", \"" ++ name.plain ++ "\":"
      ++ type.plain ++ ", \"" ++ fullType.plain ++ "\"") ""
  | .prologue => some <$> inside (directive .prologue) ""
  | .catching type labels => some <$> handler .catching type labels ""
  | .catchingAll type labels => some <$> handler .catchingAll type labels "\n"
  | .ret variant operands => do
    some <$> inside (returnText variant ++ " " ++ (← joined " " operands)) ""
  | .call variant operands owner method => do
    some <$> inside ("invoke-" ++ variant.plain ++ " \x7b " ++ (← joined ", " operands) ++ " \x7d, "
      ++ owner.plain ++ "->" ++ method.plain) "\n"
  | .arrayData width values => do
    let margin := Sheet.margin (indent + 2)
    some <$> flush (directive .arrayData ++ " " ++ width.plain ++ "\n" ++ margin
      ++ (← joined ("\n" ++ margin) values)) "\n"
  | .packedSwitch first labels => do
    let margin := Sheet.margin (indent + 2)
    some <$> flush (directive .packedSwitch ++ " " ++ first.plain ++ "\n" ++ margin
      ++ (← joined ("\n" ++ margin ++ ":") labels)) "\n"
  | .sparseSwitch branches => do
    let margin := Sheet.margin (indent + 2)
    let lines := (← entries branches).map fun (k, v) => k.plain ++ " -> :" ++ v.plain
    some <$> flush (directive .sparseSwitch ++ "\n" ++ margin ++ ("\n" ++ margin).intercalate lines) ""
  | _ => .ok none

/-- How an event is written on the sheet of a construct. -/
def statement (shape : Shape) (indent : Int) (e : Event) : Except Fault (Option Statement) :=
  match shape with
  | .classDef => ofClass e
  | .method => ofMethod indent e
  | .field => ofField e
  | .annot => ofAnnot indent e

/-- The statement that closes a construct; a class is closed without one. -/
def closingStatement (shape : Shape) (closing : Keyword) : Option Statement :=
  let text := directive .close ++ " " ++ closing.text
  match shape with
  | .classDef => none
  | .annot => some ⟨0, text ++ "\n", ""⟩
  | .method | .field => some ⟨0, text, ""⟩

/-- The heading of the construct that an event opens. The constructs of a class are as deep as the class,
an inner class starts at the margin, and annotations are one step deeper than what they describe. -/
def heading (shape : Shape) (indent : Int) : Event → Except Fault (Option Heading)
  | .field name flags type value? => do
    let text := directive .field ++ " " ++ (← accessText flags) ++ " " ++ name.plain ++ ":" ++ type.plain
    let value := value?.getD .absent
    .ok (some ⟨.field, indent, .field, if value.holds then text ++ " = " ++ value.plain else text⟩)
  | .method name flags parameters result => do
    let access ← accessText flags
    let types ← joined "" parameters
    .ok (some ⟨.method, indent, .method,
      directive .method ++ " " ++ access ++ " " ++ name.plain ++ "(" ++ types ++ ")" ++ result.plain⟩)
  | .innerClass name flags => do
    .ok (some ⟨.classDef, 0, .classDef,
      directive .classDef ++ " " ++ (← accessText flags) ++ " " ++ name.plain⟩)
  | .annot flags type => do
    .ok (some ⟨.annot, if shape = .classDef then indent else indent + 1, .annot,
      directive .annot ++ " " ++ (← accessText flags) ++ " " ++ type.plain⟩)
  | .subAnnot name _ type =>
    .ok (some ⟨.annot, indent + 1, .subAnnot,
      name.plain ++ " = " ++ directive .subAnnot ++ " " ++ type.plain⟩)
  | _ => .ok none

def settles (shape : Shape) (v : Verb) : Bool :=
  match shape with
  | .classDef => v == .comment || v == .close
  | .field | .annot => v == .close
  | .method => !(v == .annot || v == .comment || v == .trailing)

end Dalvik.Listing
