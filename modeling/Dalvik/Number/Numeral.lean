import Dalvik.Text.Blank
import Dalvik.Text.Digit

/-!
# Integer numerals

An integer numeral is a sign and a run of digits, with white space around it. Single underscores may
stand between digits, and a hexadecimal numeral may open with `0x`. A decimal numeral has a greatest
length.
-/

namespace Dalvik.Number

open Dalvik.Text

/-- The most digits that a decimal numeral may have. -/
def longestDecimal : Nat := 4300

/-- The values of a run of digits, in which a single underscore may stand between two digits. The
flag says whether a digit came right before. -/
def digitRun (value? : Char → Option Nat) : Bool → List Char → Option (List Nat)
  | true, [] => some []
  | false, [] => none
  | afterDigit, c :: s =>
    if c == '_' then
      if afterDigit then digitRun value? false s else none
    else
      match value? c with
      | some d => (digitRun value? true s).map (d :: ·)
      | none => none

def ofDigits (base : Nat) (ds : List Nat) : Nat :=
  ds.foldl (fun n d => base * n + d) 0

/-- Splits a sign off: whether it was a minus, and the rest. -/
def takeSign : List Char → Bool × List Char
  | '-' :: s => (true, s)
  | '+' :: s => (false, s)
  | s => (false, s)

def withSign (negative : Bool) (n : Nat) : Int :=
  if negative then -(n : Int) else (n : Int)

def parseDecimal? (s : List Char) : Option Int :=
  let (negative, body) := takeSign (dropBoth isBlank s)
  match digitRun decimalValue? false body with
  | some ds => if ds.length ≤ longestDecimal then some (withSign negative (ofDigits 10 ds)) else none
  | none => none

/-- What follows the mark of a hexadecimal numeral, if it has one. -/
def dropHexMark : List Char → List Char
  | '0' :: x :: '_' :: s => if x == 'x' || x == 'X' then s else '0' :: x :: '_' :: s
  | '0' :: x :: s => if x == 'x' || x == 'X' then s else '0' :: x :: s
  | s => s

def parseHexadecimal? (s : List Char) : Option Int :=
  let (negative, body) := takeSign (dropBoth isBlank s)
  match digitRun hexValue? false (dropHexMark body) with
  | some ds => some (withSign negative (ofDigits 16 ds))
  | none => none

end Dalvik.Number
