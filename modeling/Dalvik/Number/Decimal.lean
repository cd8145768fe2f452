import Dalvik.Number.Double
import Dalvik.Number.Numeral

/-!
# Reading floating-point numerals

A floating-point numeral is a sign, digits with an optional point and an optional exponent, or the
name of infinity or of NaN, with white space around it. Single underscores may stand between digits.
The value is the nearest double-precision number.
-/

namespace Dalvik.Number

open Dalvik.Text

/-- An optional run of digits with underscores: `none` when the underscores are misplaced. -/
def optionalRun (s : List Char) : Option (List Nat) :=
  if s.isEmpty then some [] else digitRun decimalValue? false s

/-- Splits a leading run of digits and underscores off. -/
def takeRun (s : List Char) : List Char × List Char :=
  s.span fun c => isDecimal c || c == '_'

def lower (c : Char) : Char :=
  if 'A' ≤ c ∧ c ≤ 'Z' then Char.ofNat (c.toNat + 32) else c

/-- The exponent part: absent, or a mark with a sign and digits up to the end. -/
def exponentPart? : List Char → Option Int
  | [] => some 0
  | c :: s =>
    if c == 'e' || c == 'E' then
      let (negative, body) := takeSign s
      (digitRun decimalValue? false body).map fun ds => withSign negative (ofDigits 10 ds)
    else none

/-- The value nearest to `n · 10^e`, with a sign. Exponents far outside of the range are cut short. -/
def scaleByTen (negative : Bool) (n : Nat) (e : Int) : Double :=
  let size : Int := (Nat.toDigits 10 n).length
  if n == 0 then Double.ofMagnitude negative 0
  else if 400 < e + size then Double.ofMagnitude negative Double.infinityBits
  else if e + size < -400 then Double.ofMagnitude negative 0
  else Double.ofRatio negative (n * Number.tenPow e.toNat) (Number.tenPow (-e).toNat)

/-- Digits, point and exponent without a sign. -/
def parsePositional? (negative : Bool) (s : List Char) : Option Double :=
  let (whole, rest) := takeRun s
  let (fraction, rest) := match rest with
    | '.' :: r => takeRun r
    | r => ([], r)
  match optionalRun whole, optionalRun fraction, exponentPart? rest with
  | some ws, some fs, some e =>
    if ws.isEmpty && fs.isEmpty then none
    else some (scaleByTen negative (ofDigits 10 (ws ++ fs)) (e - (fs.length : Int)))
  | _, _, _ => none

def parseDouble? (s : List Char) : Option Double :=
  let (negative, body) := takeSign (dropBoth isBlank s)
  let name := String.ofList (body.map lower)
  if name == "inf" || name == "infinity" then
    some (Double.ofMagnitude negative Double.infinityBits)
  else if name == "nan" then some Double.nan
  else parsePositional? negative body

end Dalvik.Number
