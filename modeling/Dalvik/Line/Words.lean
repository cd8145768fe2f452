import Dalvik.Fault
import Dalvik.Text.Split

/-!
# The words of a line

A line is cut at its separators, except inside a quoted text: a word that opens with a double quote
goes on until a separator stands right behind a closing quote. The separator is one character in
assembly text; a longer one loses only its first character at each cut, and an empty one stands at
every position, also behind the last character.
-/

namespace Dalvik.Line

structure Scan where
  passed : Nat
  before : Char
  /-- Whether the current word is a quoted text that is still open. -/
  quoted : Bool
  word : List Char
  deriving DecidableEq, Repr

namespace Scan

def start : Scan := ⟨0, ' ', false, []⟩

/-- A separator here closes the quoted text: it follows a quote, which is not the first character of
the line. -/
def closes (s : Scan) : Bool :=
  decide (2 ≤ s.passed) && s.before == '"' && s.quoted

/-- The first character of the current word, with the character at hand if the word is empty. -/
def opening (s : Scan) (here : Option Char) : Option Char :=
  s.word.getLast?.or here

/-- Passes a character into the current word. -/
def keep (s : Scan) (quoted : Bool) (c : Char) : Scan :=
  ⟨s.passed + 1, c, quoted, c :: s.word⟩

/-- Passes a separator that ends the current word. -/
def cut (s : Scan) (c : Char) : Scan :=
  ⟨s.passed + 1, c, false, []⟩

def current (s : Scan) : List Char :=
  s.word.reverse

end Scan

/-- The words of the rest of a line. Only an empty separator can fail, behind an empty last word. -/
def cutWords (sep : List Char) : Scan → List Char → Except Fault (List (List Char))
  | s, [] =>
    if !sep.isEmpty then .ok [s.current]
    else if s.closes then .ok [s.current, []]
    else match s.opening none with
      | none => .error .noElement
      | some q => .ok (if q == '"' || s.quoted then [s.current] else [s.current, []])
  | s, c :: rest =>
    if sep.isPrefixOf (c :: rest) then
      if s.closes then (cutWords sep (s.cut c) rest).map (s.current :: ·)
      else if s.opening (some c) == some '"' then cutWords sep (s.keep true c) rest
      else if s.quoted then cutWords sep (s.keep true c) rest
      else (cutWords sep (s.cut c) rest).map (s.current :: ·)
    else cutWords sep (s.keep s.quoted c) rest

def splitWords (sep line : String) : Except Fault (List String) :=
  (cutWords sep.toList .start line.toList).map (·.map String.ofList)

end Dalvik.Line
