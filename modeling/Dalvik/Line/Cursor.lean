import Dalvik.Datum
import Dalvik.Line.Words
import Dalvik.Text.Blank

/-!
# Lines and cursors

A line is a text without white space around it and without the comment at its end, cut into words. A
cursor stands on a line and passes its words one by one; before the first line it stands nowhere, and
asking for a detail of the line is then a fault. A line that is read one word ahead (`Lookahead`) is passed in
the same way.
-/

namespace Dalvik

open Dalvik.Text

structure Line where
  raw : String
  /-- The text without white space around it and without its comment. -/
  cleaned : String
  comment? : Option String
  words : List String
  deriving DecidableEq, Repr, Inhabited

namespace Line

/-- Splits a text at its comment: what stands before, the comment with the white space in front of it,
and what follows from the next line break on. -/
def cutComment (s : List Char) : Option (List Char × List Char × List Char) :=
  match find? ['#'] s with
  | none => none
  | some i =>
    let front := dropEnd isBlank (s.take i)
    let rest := s.drop front.length
    let blanks := rest.takeWhile (· != '#')
    let tail := rest.drop blanks.length
    some (front, blanks ++ tail.takeWhile (· != '\n'), tail.dropWhile (· != '\n'))

/-- The wording of a comment, without the marks and spaces in front of it. -/
def wording (comment : List Char) : String :=
  String.ofList (dropStart (oneOf ['#', ' ']) comment)

def ofString (s : String) : Except Fault Line :=
  let raw := dropEnd isBlank s.toList
  let cleaned := dropStart isBlank raw
  let (cleaned, comment?) := match cutComment cleaned with
    | some (front, comment, rest) => (front ++ rest, some (wording comment))
    | none => (cleaned, none)
  let cleaned := String.ofList cleaned
  (splitWords " " cleaned).map fun ws => ⟨String.ofList raw, cleaned, comment?, ws⟩

def isRemark (s : String) : Bool :=
  (dropStart isBlank s.toList).head? == some '#'

end Line

structure Cursor where
  line? : Option Line
  pending : List String
  deriving DecidableEq, Repr, Inhabited

namespace Cursor

def start : Cursor := ⟨none, []⟩

/-- Moves to the start of a new line. An empty text is no line: the cursor then stays on its line, with
nothing left to pass. -/
def reset (c : Cursor) (text : String) : Except Fault Cursor :=
  if text.isEmpty then .ok { c with pending := [] }
  else (Line.ofString text).map fun l => ⟨some l, l.words⟩

def next (c : Cursor) : Except Fault (String × Cursor) :=
  match c.pending with
  | [] => .error .lineExhausted
  | w :: ws => .ok (w, { c with pending := ws })

def peek (c : Cursor) : Except Fault String :=
  match c.pending with
  | [] => .error .lineExhausted
  | w :: _ => .ok w

def hasNext (c : Cursor) : Bool :=
  !c.pending.isEmpty

def last (c : Cursor) : Except Fault String :=
  match c.line?.bind (·.words.getLast?) with
  | some w => .ok w
  | none => .error .noElement

/-- The line, which must have been reached. -/
def line (c : Cursor) : Except Fault Line :=
  match c.line? with
  | some l => .ok l
  | none => .error .noOperation

end Cursor

/-- A line that is read one word ahead: the word that comes next is held, and the words behind it are still to be taken.
Where no word is held, none is left. -/
structure Lookahead where
  line? : Option Line
  head? : Option String
  behind : List String
  ends : head? = none → behind = []

namespace Lookahead

/-- Takes the first of the words that are left. -/
def holding (line? : Option Line) (words : List String) : Lookahead :=
  ⟨line?, words.head?, words.tail, fun h => by rw [List.head?_eq_none_iff.mp h]; rfl⟩

def start : Lookahead := holding none []

def reset (a : Lookahead) (text : String) : Except Fault Lookahead :=
  if text.isEmpty then .ok (holding a.line? [])
  else (Line.ofString text).map fun l => holding (some l) l.words

def next (a : Lookahead) : Except Fault (String × Lookahead) :=
  match a.head? with
  | none => .error .lineExhausted
  | some w => .ok (w, holding a.line? a.behind)

def peek (a : Lookahead) : Except Fault String :=
  match a.head? with
  | none => .error .lineExhausted
  | some w => .ok w

/-- The word that comes next, or what is given for the end of the line. -/
def peekOr (a : Lookahead) (default : Datum) : Datum :=
  match a.head? with
  | none => default
  | some w => .text w

def hasNext (a : Lookahead) : Bool := a.head?.isSome

/-- The cursor that passes the same words. -/
def toCursor (a : Lookahead) : Cursor := ⟨a.line?, a.head?.toList ++ a.behind⟩

end Lookahead

end Dalvik
