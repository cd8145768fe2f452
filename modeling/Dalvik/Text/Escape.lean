import Dalvik.Text.Basic

/-!
# Escape sequences

The body of a string literal is read octet by octet in its UTF-8 form. An octet outside of an escape
sequence stands for the code point of the same number; a backslash starts an escape sequence. A
sequence of no known kind stands for itself. The names of characters are left out: a sequence that names a
character (`\N`) is refused, whatever the name.
-/

namespace Dalvik.Text

def asciiHex? (b : UInt8) : Option Nat :=
  if 48 ≤ b ∧ b ≤ 57 then some (b.toNat - 48)
  else if 97 ≤ b ∧ b ≤ 102 then some (b.toNat - 87)
  else if 65 ≤ b ∧ b ≤ 70 then some (b.toNat - 55)
  else none

def asciiOctal? (b : UInt8) : Option Nat :=
  if 48 ≤ b ∧ b ≤ 55 then some (b.toNat - 48) else none

/-- The code point that a one-letter escape sequence stands for. -/
def simpleEscape? (b : UInt8) : Option Nat :=
  match Char.ofNat b.toNat with
  | '\\' => some 92
  | '\'' => some 39
  | '"' => some 34
  | 'a' => some 7
  | 'b' => some 8
  | 'f' => some 12
  | 'n' => some 10
  | 'r' => some 13
  | 't' => some 9
  | 'v' => some 11
  | _ => none

/-- The number of hexadecimal digits that an escape sequence of fixed length asks for. -/
def escapeWidth? (b : UInt8) : Option Nat :=
  match Char.ofNat b.toNat with
  | 'x' => some 2
  | 'u' => some 4
  | 'U' => some 8
  | _ => none

/-- Where the reading of the octets stands. -/
inductive EscapeState where
  | plain
  | opened
  /-- Inside an octal sequence, with the digits still allowed and the value so far. -/
  | octal (left value : Nat)
  /-- Inside a hexadecimal sequence, with the digits still missing and the value so far. -/
  | hex (missing value : Nat)

/-- Reads the octets of a literal's body. The result is `none` when a sequence is cut short, asks for
digits that are not there, names a character, or names a number above the last code point. -/
def unescapeFrom : EscapeState → List UInt8 → Option (List Nat)
  | .plain, [] => some []
  | .opened, [] => none
  | .octal _ v, [] => some [v]
  | .hex _ _, [] => none
  | .plain, b :: bs =>
    if b == 92 then unescapeFrom .opened bs else (unescapeFrom .plain bs).map (b.toNat :: ·)
  | .opened, b :: bs =>
    match simpleEscape? b, escapeWidth? b, asciiOctal? b with
    | some c, _, _ => (unescapeFrom .plain bs).map (c :: ·)
    | none, some w, _ => unescapeFrom (.hex w 0) bs
    | none, none, some d => unescapeFrom (.octal 2 d) bs
    | none, none, none =>
      if b == 10 then unescapeFrom .plain bs
      else if b == 78 then none
      else (unescapeFrom .plain bs).map (fun r => 92 :: b.toNat :: r)
  | .octal left v, b :: bs =>
    match left, asciiOctal? b with
    | left + 1, some d => unescapeFrom (.octal left (8 * v + d)) bs
    | _, _ =>
      (if b == 92 then unescapeFrom .opened bs else (unescapeFrom .plain bs).map (b.toNat :: ·)).map
        (v :: ·)
  | .hex missing v, b :: bs =>
    match asciiHex? b with
    | none => none
    | some d =>
      let v := 16 * v + d
      if missing ≤ 1 then
        if v ≤ 0x10FFFF then (unescapeFrom .plain bs).map (v :: ·) else none
      else unescapeFrom (.hex (missing - 1) v) bs

/-- The text that the body of a string literal stands for. -/
def unescape? (body : String) : Option Text :=
  (unescapeFrom .plain body.toUTF8.toList).map Text.mk

end Dalvik.Text
