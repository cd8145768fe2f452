import Dalvik.Descriptor
import Dalvik.Number.Decimal
import Dalvik.Text.Escape

/-!
# Literals

The values that assembly text can name: integers with an optional suffix, booleans, floating-point
numbers, characters and strings between quotes, and type descriptors. The forms are tried in a fixed
order, and the first form that fits decides; a text can fit a form and still name no value.
-/

namespace Dalvik

open Dalvik.Text Dalvik.Number

inductive Literal where
  | int (n : Int)
  | bool (b : Bool)
  | float (x : Double)
  | text (t : Text)
  | type (d : Descriptor)
  deriving DecidableEq, Repr, Inhabited

namespace Literal

inductive Form where
  /-- An integer with one of the suffixes for short, long and byte. -/
  | suffixed
  | integer
  /-- A text that starts with the name of a truth value. -/
  | boolean
  /-- Digits, point, digits and a mark for single precision. -/
  | single
  /-- A text that starts with digits, point and digits. -/
  | double
  | character
  | string
  | type
  deriving DecidableEq, Repr

/-- What is left after a sign, an optional `0x` and at least one hexadecimal digit. -/
def afterInteger? (s : List Char) : Option (List Char) :=
  let (_, body) := takeSign s
  let digits := match body with
    | '0' :: 'x' :: c :: r => if isHexadecimal c then c :: r else body
    | _ => body
  match digits with
  | [] => none
  | c :: _ => if isHexadecimal c then some (digits.dropWhile isHexadecimal) else none

def atEnd (s : List Char) : Bool :=
  s.isEmpty || s == ['\n']

/-- Whether the digits of an integer open with `0x`. -/
def isHexMarked (s : List Char) : Bool :=
  match (takeSign s).2 with
  | '0' :: 'x' :: c :: _ => isHexadecimal c
  | _ => false

/-- What is left after a sign, digits, a point and digits. -/
def afterFraction? (s : List Char) : Option (List Char) :=
  let (_, body) := takeSign s
  match body.head?, body.dropWhile isDecimal with
  | some c, '.' :: d :: r => if isDecimal c && isDecimal d then some (r.dropWhile isDecimal) else none
  | _, _ => none

/-- Whether a text stands between two quotes, up to the end of the line and on one line. -/
def isQuoted (quote : Char) (s : List Char) : Bool :=
  let body := Descriptor.dropLineEnd s
  decide (2 ≤ body.length) && body.head? == some quote && body.getLast? == some quote
    && !body.contains '\n'

def Form.fits (s : List Char) : Form → Bool
  | .suffixed =>
    match afterInteger? s with
    | some (c :: r) => (c == 's' || c == 'l' || c == 't') && atEnd r
    | _ => false
  | .integer => (afterInteger? s).any atEnd
  | .boolean => "true".toList.isPrefixOf s || "false".toList.isPrefixOf s
  | .single =>
    match afterFraction? s with
    | some ('f' :: r) => atEnd r
    | _ => false
  | .double => (afterFraction? s).isSome
  | .character => isQuoted '\'' s
  | .string => isQuoted '"' s
  | .type => Descriptor.isDescriptor (String.ofList s)

def Form.all : List Form :=
  [.suffixed, .integer, .boolean, .single, .double, .character, .string, .type]

/-- The integer of digits that fit an integer form: hexadecimal only when marked so. -/
def readInteger (marked : Bool) (s : List Char) : Except Fault Literal :=
  match if marked then parseHexadecimal? s else parseDecimal? s with
  | some n => .ok (.int n)
  | none => .error .numeral

/-- The number of a text that fits a floating-point form. -/
def readFraction (s : List Char) : Except Fault Literal :=
  match parseDouble? s with
  | some x => .ok (.float x)
  | none => .error .numeral

/-- What stands between the first and the last character. -/
def inner (s : List Char) : List Char :=
  (s.drop 1).dropLast

/-- The value of a text that fits a form. A form with a mark at its end drops the last character. -/
def Form.read (s : List Char) : Form → Except Fault Literal
  | .suffixed => readInteger (isHexMarked s) s.dropLast
  | .integer => readInteger (isHexMarked s) s
  | .boolean => .ok (.bool (s == "true".toList))
  | .single | .double => readFraction s.dropLast
  | .character => .ok (.text (.ofString (String.ofList (inner s))))
  | .string =>
    match unescape? (String.ofList (inner s)) with
    | some t => .ok (.text t)
    | none => .error .undecodable
  | .type => (Descriptor.ofString (String.ofList s)).map .type

def parse (s : String) : Except Fault Literal :=
  match Form.all.find? (·.fits s.toList) with
  | some form => form.read s.toList
  | none => .error (.noLiteral s)

end Literal

end Dalvik
