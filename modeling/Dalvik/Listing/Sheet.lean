import Dalvik.Event
import Dalvik.Fault

/-!
# Sheets

A sheet holds the lines that were written for one construct, and the sheets of the constructs inside it
that are not yet part of its lines. Settling a sheet turns these into lines, each as one block, and empties
them. Sheets are numbered in the order in which they were started, so a sheet inside another has the
larger number.
-/

namespace Dalvik

structure Insert where
  shape : Shape
  /-- Whether the construct is not written by this library, and so keeps no lines that are handed on. -/
  foreign : Bool
  /-- The number of its sheet, if it has one. -/
  sheet? : Option Nat
  deriving DecidableEq, Repr

structure Sheet where
  indent : Int
  /-- The lines so far, in order; a line may hold line breaks. -/
  lines : List String
  /-- The constructs that wait to become part of the lines, in order. -/
  inserts : List Insert
  deriving DecidableEq, Repr

namespace Sheet

def blank (indent : Int) : Sheet := ⟨indent, [], []⟩

/-- The white space of an indentation; there is none below zero. -/
def margin (steps : Int) : String :=
  String.ofList (List.replicate (4 * steps.toNat) ' ')

def addAt (s : Sheet) (steps : Int) (line stop : String) : Sheet :=
  { s with lines := s.lines ++ [margin steps ++ line ++ stop] }

def add (s : Sheet) (line : String) : Sheet :=
  s.addAt s.indent line ""

/-- Writes a comment behind the last line, in front of the line break that the line may end with. -/
def addComment (s : Sheet) (comment : String) : Except Fault Sheet :=
  match s.lines.getLast? with
  | none => .error .noElement
  | some line =>
    match line.toList.getLast? with
    | none => .error .noElement
    | some c =>
      let mark := " # " ++ comment
      let new := if c == '\n' then String.ofList line.toList.dropLast ++ mark ++ "\n" else line ++ mark
      .ok { s with lines := s.lines.dropLast ++ [new] }

/-- The comments that wait to be written, and the sheet without them. A comment is written behind its line at once, so
none waits. -/
def takeComments (s : Sheet) : List String × Sheet := ([], s)

def text (s : Sheet) : String :=
  "\n".intercalate s.lines

def clear (s : Sheet) : Sheet := blank s.indent

end Sheet

abbrev Sheets : Type := Array Sheet

namespace Sheets

def sheet (ss : Sheets) (i : Nat) : Sheet :=
  (ss[i]?).getD (.blank 0)

def update (ss : Sheets) (i : Nat) (f : Sheet → Sheet) : Sheets :=
  ss.modify i f

/-- What ends the block of a construct: fields and methods are followed by an empty line. -/
def blockStop (i : Insert) : String :=
  if !i.foreign && (i.shape == .field || i.shape == .method) then "\n" else ""

/-- Settles a sheet, to a depth of at most `n` sheets. -/
def settleTo : Nat → Nat → Sheets → Sheets
  | 0, _, ss => ss
  | n + 1, i, ss =>
    let ss := (ss.sheet i).inserts.foldl (fun ss insert =>
      match insert.sheet? with
      | none => ss
      | some j =>
        let ss := settleTo n j ss
        let block := (ss.sheet j).text
        (ss.update i fun s => s.addAt s.indent block (blockStop insert)).update j Sheet.clear) ss
    ss.update i fun s => { s with inserts := [] }

/-- Settles a sheet: the constructs inside it become part of its lines. -/
def settle (i : Nat) (ss : Sheets) : Sheets :=
  settleTo (ss.size + 1) i ss

end Sheets

end Dalvik
