import Dalvik.Literal
import Dalvik.Number.Shortest
import Dalvik.Text.Quoted

/-!
# Data

The operands of instructions and the details of constructs are data: nothing at all, a text as it was
written, the value of a literal, or lists and tables of data. `Datum.plain` shows a datum the way it
stands in a listing, `Datum.display` the way it stands inside a list.
-/

namespace Dalvik

inductive Datum where
  | absent
  | text (s : String)
  | literal (v : Literal)
  | list (items : List Datum)
  | table (entries : List (Datum × Datum))
  deriving Repr, Inhabited, BEq

namespace Literal

def plain : Literal → String
  | int n => toString n
  | bool b => if b then "True" else "False"
  | float x => x.toText
  | text t => t.toString
  | type d => d.text

def display : Literal → String
  | text t => Text.quoted t
  | type d => s!"SVMType(\"{d.text}\")"
  | v => v.plain

def typeName : Literal → String
  | int _ => "int"
  | bool _ => "bool"
  | float _ => "float"
  | text _ => "str"
  | type _ => "smali.base.SVMType"

def holds : Literal → Bool
  | int n => n != 0
  | bool b => b
  | float x => !x.isZero
  | text t => !t.points.isEmpty
  | type _ => true

end Literal

namespace Datum

instance : Coe String Datum := ⟨Datum.text⟩

def int (n : Int) : Datum :=
  literal (.int n)

def texts (xs : List String) : Datum :=
  list (xs.map text)

mutual

def display : Datum → String
  | absent => "None"
  | text s => Text.quoted (.ofString s)
  | literal v => v.display
  | list items => "[" ++ ", ".intercalate (displayAll items) ++ "]"
  | table entries => "\x7b" ++ ", ".intercalate (displayEntries entries) ++ "\x7d"

def displayAll : List Datum → List String
  | [] => []
  | d :: ds => display d :: displayAll ds

def displayEntries : List (Datum × Datum) → List String
  | [] => []
  | (k, v) :: es => (display k ++ ": " ++ display v) :: displayEntries es

end

def plain : Datum → String
  | text s => s
  | literal v => v.plain
  | d => d.display

def typeName : Datum → String
  | absent => "NoneType"
  | text _ => "str"
  | literal v => v.typeName
  | list _ => "list"
  | table _ => "dict"

def holds : Datum → Bool
  | absent => false
  | text s => !s.isEmpty
  | literal v => v.holds
  | list items => !items.isEmpty
  | table entries => !entries.isEmpty

def text? : Datum → Option String
  | text s => some s
  | literal (.text t) => some t.toString
  | _ => none

/-- The integer that a datum is; a truth value counts as zero or one. -/
def int? : Datum → Option Int
  | literal (.int n) => some n
  | literal (.bool b) => some (if b then 1 else 0)
  | _ => none

/-- The members of a datum that can be walked over: a text is a list of its characters, a table a list
of its keys. -/
def items? : Datum → Option (List Datum)
  | text s => some (s.toList.map fun c => text (String.singleton c))
  | literal (.text t) => some (t.points.map fun n => literal (.text ⟨[n]⟩))
  | list items => some items
  | table entries => some (entries.map Prod.fst)
  | _ => none

/-- The members of a datum as texts, for a datum whose members all are texts. -/
def texts? (d : Datum) : Option (List String) :=
  d.items?.bind fun items => items.mapM text?

end Datum

end Dalvik
