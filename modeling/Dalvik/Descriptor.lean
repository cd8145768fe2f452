import Dalvik.Fault
import Dalvik.Text.Blank
import Dalvik.Text.Split

/-!
# Type descriptors

A descriptor names a type: a primitive letter, a class name between `L` and `;`, either of them
behind brackets for an array, or a whole method signature. Any text is brought into the form of a
descriptor (`Descriptor.ofString`), and `isDescriptor` tells which texts are in that form already.
-/

namespace Dalvik

open Dalvik.Text

inductive Descriptor.Kind where
  | array
  | primitive
  | classType
  | method
  deriving DecidableEq, Repr, Inhabited

structure Descriptor where
  text : String
  kind : Descriptor.Kind
  /-- The number of brackets in the text that it was made from. -/
  dim : Nat
  deriving DecidableEq, Repr, Inhabited

namespace Descriptor

def primitives : List Char :=
  ['Z', 'C', 'B', 'S', 'I', 'F', 'V', 'J', 'D']

/-- A text without the line break at its end, if it has one there. -/
def dropLineEnd (s : List Char) : List Char :=
  if s.getLast? = some '\n' then s.dropLast else s

/-- Brackets and one primitive letter, up to the end of the line. -/
def isPrimitive (s : List Char) : Bool :=
  match dropLineEnd (s.dropWhile (· == '[')) with
  | [c] => primitives.contains c
  | _ => false

/-- Brackets and the name of a class between `L` and `;`, without white space, up to the end of the
line. -/
def isClassName (s : List Char) : Bool :=
  match dropLineEnd (s.dropWhile (· == '[')) with
  | 'L' :: body => body.getLast? = some ';' && !body.any isBlank
  | _ => false

def isDescriptor (s : String) : Bool :=
  isClassName s.toList || isPrimitive s.toList

/-- The position right after the last bracket. -/
def afterBrackets (s : List Char) : Nat :=
  s.length - (s.reverse.takeWhile (· != '[')).length

/-- Adds the `L` in front of a class name. Behind brackets only the first character of a bare name is
kept. -/
def addMark (dim : Nat) (s : List Char) : Option (List Char) :=
  let i := afterBrackets s
  match s[i]? with
  | none => none
  | some c =>
    if c == 'L' then some s
    else if 0 < dim then some (s.take i ++ ['L', c])
    else some ('L' :: s)

def addStop (s : List Char) : List Char :=
  if s.getLast? = some ';' then s else s ++ [';']

/-- The normal form of a text and what it stands for, before arrays are told apart. There is none for
a text that ends where a name would start. -/
def normal? (s : List Char) : Option (List Char × Kind) :=
  if isPrimitive s then some (s, .primitive)
  else
    let slashed := s.map fun c => if c == '.' then '/' else c
    if slashed.contains '(' then some (slashed, .method)
    else (addMark (s.count '[') slashed).map fun t => (addStop t, .classType)

def ofString (s : String) : Except Fault Descriptor :=
  let dim := s.toList.count '['
  match normal? s.toList with
  | none => .error .noElement
  | some (t, kind) =>
    let kind := if 0 < dim ∧ kind ≠ .method then .array else kind
    .ok ⟨String.ofList t, kind, dim⟩

instance : ToString Descriptor := ⟨Descriptor.text⟩

def isSignature (d : Descriptor) : Bool :=
  d.kind = .method

/-- The type of an array's elements below all brackets. -/
def elementType? (d : Descriptor) : Except Fault (Option Descriptor) :=
  if d.kind = .array then (ofString (without (· == '[') d.text)).map some else .ok none

/-- Puts a dot for every slash and every arrow. -/
def dotted : List Char → List Char
  | [] => []
  | '/' :: s => '.' :: dotted s
  | '-' :: '>' :: s => '.' :: dotted s
  | c :: s => c :: dotted s

/-- The name with dots, without marks. -/
def prettyName (d : Descriptor) : String :=
  String.ofList (dotted (d.text.toList.filter fun c => c != 'L' && c != ';'))

/-- The name with slashes, without marks. -/
def slashName (d : Descriptor) : String :=
  without (fun c => c == 'L' || c == ';') d.text

/-- The last part of the name with dots. -/
def simpleName (d : Descriptor) : String :=
  (splitParts "." d.prettyName).getLastD ""

end Descriptor

end Dalvik
