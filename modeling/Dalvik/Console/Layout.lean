import Dalvik.Machine.Show
import Dalvik.Text.Blank

/-!
# Values in eighty columns

A shown value stands on one line if the line has room for it. If not, a list or a table has one member
on each line, indented by one column more than its bracket, and a long text is cut behind white space
into quoted pieces. Room has to be left for what follows on the last line: a comma or closing brackets.
-/

namespace Dalvik

inductive Shown where
  | atom (s : String)
  | text (t : Text)
  | octets (bs : List UInt8)
  | list (members : List Shown)
  | table (entries : List (Text × Shown))
  deriving Inhabited

namespace Shown

open Dalvik.Text

def columns : Nat := 80

def newLine (indent : Nat) : String :=
  String.ofList ('\n' :: List.replicate indent ' ')

mutual

def line : Shown → String
  | atom s => s
  | text t => quoted t
  | octets bs => Store.displayOctets bs
  | list xs => "[" ++ ", ".intercalate (lines xs) ++ "]"
  | table es => "\x7b" ++ ", ".intercalate (entryLines es) ++ "\x7d"

def lines : List Shown → List String
  | [] => []
  | x :: xs => line x :: lines xs

def entryLines : List (Text × Shown) → List String
  | [] => []
  | (k, x) :: es => (quoted k ++ ": " ++ line x) :: entryLines es

end

/-- Whether a line fits in, starting at a column and with room left at its end. -/
def fits (s : String) (indent allowance : Nat) : Bool :=
  decide (s.length + indent + allowance ≤ columns)

def isBlankPoint (n : Nat) : Bool :=
  blankRanges.any fun (lo, hi) => decide (lo ≤ n) && decide (n ≤ hi)

def isLineEnd (n : Nat) : Bool :=
  (10 ≤ n && n ≤ 13) || (28 ≤ n && n ≤ 30) || n == 0x85 || n == 0x2028 || n == 0x2029

/-- Cuts a text behind every line end; a line feed belongs to the carriage return before it. The first
argument is the current line, backwards. -/
def cutAtLineEnds : List Nat → List Nat → List (List Nat)
  | part, [] => if part.isEmpty then [] else [part.reverse]
  | part, 13 :: 10 :: rest => (10 :: 13 :: part).reverse :: cutAtLineEnds [] rest
  | part, n :: rest =>
    if isLineEnd n then (n :: part).reverse :: cutAtLineEnds [] rest else cutAtLineEnds (n :: part) rest

/-- Cuts a text where white space is followed by something else. The first argument is the current piece,
backwards. -/
def cutBehindBlanks : List Nat → List Nat → List (List Nat)
  | part, [] => if part.isEmpty then [] else [part.reverse]
  | part, n :: rest =>
    if part.head?.any isBlankPoint && !isBlankPoint n then part.reverse :: cutBehindBlanks [n] rest
    else cutBehindBlanks (n :: part) rest

/-- Joins pieces from the left as long as they fit, and shows each group. Room is left behind the last
piece only. -/
def fill {α : Type} (show1 : List α → String) (indent allowance : Nat) :
    List α → List (List α) → List String
  | current, [] => if current.isEmpty then [] else [show1 current]
  | current, p :: rest =>
    let room := if rest.isEmpty then allowance else 0
    if fits (show1 (current ++ p)) indent room then fill show1 indent allowance (current ++ p) rest
    else if current.isEmpty then fill show1 indent allowance p rest
    else show1 current :: fill show1 indent allowance p rest

/-- The pieces of one line of a text. -/
def linePieces (indent allowance : Nat) (points : List Nat) : List String :=
  let whole := quoted ⟨points⟩
  if fits whole indent allowance then [whole]
  else fill (fun ps => quoted ⟨ps⟩) indent allowance [] (cutBehindBlanks [] points)

/-- The pieces of several lines of a text; room is left behind the last one only. -/
def textPieces (indent allowance : Nat) : List (List Nat) → List String
  | [] => []
  | [l] => linePieces indent allowance l
  | l :: ls => linePieces indent 0 l ++ textPieces indent allowance ls

def inFours : List UInt8 → List (List UInt8)
  | a :: b :: c :: d :: rest => [a, b, c, d] :: inFours rest
  | [] => []
  | bs => [bs]

/-- The pieces of octets, cut in fours. Room is left only behind a last group that is not full. -/
def octetPieces (indent allowance : Nat) (bs : List UInt8) : List String :=
  fill Store.displayOctets indent (if bs.length % 4 == 0 then 0 else allowance) [] (inFours bs)

mutual

/-- A shown value that starts at a column and leaves room at the end of its last line. -/
def layout (indent allowance : Nat) (x : Shown) : String :=
  if fits x.line indent allowance then x.line
  else
    match x with
    | atom s => s
    | text t =>
      if t.points.isEmpty then quoted t
      else (newLine indent).intercalate (textPieces indent allowance (cutAtLineEnds [] t.points))
    | octets bs =>
      if bs.length ≤ 4 then Store.displayOctets bs
      else (newLine indent).intercalate (octetPieces indent allowance bs)
    | list xs => "[" ++ layoutAll (indent + 1) (allowance + 1) xs ++ "]"
    | table es => "\x7b" ++ layoutEntries (indent + 1) (allowance + 1) es ++ "\x7d"

def layoutAll (indent allowance : Nat) : List Shown → String
  | [] => ""
  | [x] => layout indent allowance x
  | x :: xs => layout indent 1 x ++ "," ++ newLine indent ++ layoutAll indent allowance xs

def layoutEntries (indent allowance : Nat) : List (Text × Shown) → String
  | [] => ""
  | [(k, x)] => quoted k ++ ": " ++ layout (indent + (quoted k).length + 2) allowance x
  | (k, x) :: es =>
    quoted k ++ ": " ++ layout (indent + (quoted k).length + 2) 1 x ++ "," ++ newLine indent ++
      layoutEntries indent allowance es

end

/-- A value of the machine as it will be shown, where nothing is nested more than `n` deep. -/
def ofValueWithin : Nat → List Nat → Value → Store.Act Shown
  | _, _, .text t => pure (text t)
  | _, _, .octets bs => pure (octets bs)
  | 0, _, .list _ => pure (atom "[...]")
  | n + 1, active, .list i => do
    if active.contains i then pure (atom "[...]")
    else pure (list (← (← Store.items i).mapM (ofValueWithin n (i :: active))))
  | _, _, v => do pure (atom (← Store.display v))

def ofValue (v : Value) : Store.Act Shown := do
  ofValueWithin ((← get).lists.size + 1) [] v

end Shown

end Dalvik
