/-!
# White space

The characters that count as white space in assembly text, and the trimming of texts at either end.
A text is trimmed of the characters of any class; white space is the class used most.
-/

namespace Dalvik.Text

/-- The ranges of code points that are white space: the controls that move the cursor, the four
information separators, and every space, line or paragraph separator. -/
def blankRanges : List (Nat × Nat) :=
  [(0x09, 0x0D), (0x1C, 0x20), (0x85, 0x85), (0xA0, 0xA0), (0x1680, 0x1680), (0x2000, 0x200A),
   (0x2028, 0x2029), (0x202F, 0x202F), (0x205F, 0x205F), (0x3000, 0x3000)]

/-- A character is white space when its code point lies in one of the ranges. -/
def isBlank (c : Char) : Bool :=
  blankRanges.any fun (lo, hi) => decide (lo ≤ c.toNat) && decide (c.toNat ≤ hi)

def dropStart (p : Char → Bool) (s : List Char) : List Char :=
  s.dropWhile p

def dropEnd (p : Char → Bool) (s : List Char) : List Char :=
  (s.reverse.dropWhile p).reverse

def dropBoth (p : Char → Bool) (s : List Char) : List Char :=
  dropEnd p (dropStart p s)

def trimStart (p : Char → Bool) (s : String) : String :=
  String.ofList (dropStart p s.toList)

def trimEnd (p : Char → Bool) (s : String) : String :=
  String.ofList (dropEnd p s.toList)

def trimBoth (p : Char → Bool) (s : String) : String :=
  String.ofList (dropBoth p s.toList)

/-- Membership in a short list of characters, as a class for trimming. -/
def oneOf (cs : List Char) (c : Char) : Bool :=
  cs.contains c

end Dalvik.Text
