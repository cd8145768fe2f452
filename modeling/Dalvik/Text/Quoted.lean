import Dalvik.Text.Basic
import Dalvik.Text.Printable

/-!
# Quoted texts

A text inside a list or a table is shown between quotes: single ones, unless the text has a single
quote and no double one. The quote in use, the backslash and every code point without a shape are
escaped.
-/

namespace Dalvik.Text

/-- A number in lower-case hexadecimal, with leading zeros up to a width. -/
def hexPadded (width n : Nat) : String :=
  let ds := Nat.toDigits 16 n
  String.ofList (List.replicate (width - ds.length) '0' ++ ds)

/-- How one code point is written between quotes. -/
def quotePoint (quote n : Nat) : String :=
  if n == quote || n == 92 then String.ofList ['\\', Char.ofNat n]
  else if n == 9 then "\\t"
  else if n == 10 then "\\n"
  else if n == 13 then "\\r"
  else if isPrintable n then String.ofList [Char.ofNat n]
  else if n < 0x100 then "\\x" ++ hexPadded 2 n
  else if n < 0x10000 then "\\u" ++ hexPadded 4 n
  else "\\U" ++ hexPadded 8 n

def quoteOf (t : Text) : Nat :=
  if t.points.contains 39 && !t.points.contains 34 then 34 else 39

def quoted (t : Text) : String :=
  let q := quoteOf t
  let mark := String.ofList [Char.ofNat q]
  mark ++ String.join (t.points.map (quotePoint q)) ++ mark

end Dalvik.Text
