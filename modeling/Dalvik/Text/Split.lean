import Dalvik.Text.Blank

/-!
# Searching and splitting

Positions of one text inside another, the parts between separators, and the slices that a missing
position still leaves. Everything is a structural walk over the characters.
-/

namespace Dalvik.Text

def find? (needle : List Char) : List Char → Option Nat
  | [] => if needle.isEmpty then some 0 else none
  | c :: s => if needle.isPrefixOf (c :: s) then some 0 else (find? needle s).map (· + 1)

def occurs (needle s : List Char) : Bool :=
  (find? needle s).isSome

/-- Walks over a text and cuts it at each occurrence of a non-empty separator. The first argument
counts the characters of the separator that are still to be passed over, the second holds the
current part backwards. -/
def cutAt (sep : List Char) : Nat → List Char → List Char → List (List Char)
  | _, part, [] => [part.reverse]
  | skip + 1, part, _ :: s => cutAt sep skip part s
  | 0, part, c :: s =>
    if sep.isPrefixOf (c :: s) then part.reverse :: cutAt sep (sep.length - 1) [] s
    else cutAt sep 0 (c :: part) s

/-- The parts of a text between the occurrences of a non-empty separator; a text without the
separator is its own only part. -/
def parts (sep s : List Char) : List (List Char) :=
  cutAt sep 0 [] s

def splitParts (sep s : String) : List String :=
  (parts sep.toList s.toList).map String.ofList

/-- What stands between the first `opening` and the first `closing` character. Without an opening
character the slice starts at the beginning; without a closing one it stops before the last
character. -/
def between (opening closing : Char) (s : List Char) : List Char :=
  let start := match find? [opening] s with
    | some i => i + 1
    | none => 0
  let stop := (find? [closing] s).getD (s.length - 1)
  (s.take stop).drop start

/-- The text from the first occurrence of a character on; without one, its last character. -/
def fromFirst (c : Char) (s : List Char) : List Char :=
  match find? [c] s with
  | some i => s.drop i
  | none => s.drop (s.length - 1)

def replaceChar (c : Char) (new s : List Char) : List Char :=
  s.flatMap fun d => if d == c then new else [d]

/-- A text without any occurrence of the characters of a class. -/
def without (p : Char → Bool) (s : String) : String :=
  String.ofList (s.toList.filter fun c => !p c)

def joinWith (sep : String) (xs : List String) : String :=
  sep.intercalate xs

end Dalvik.Text
