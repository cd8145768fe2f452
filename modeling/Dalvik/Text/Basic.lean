/-!
# Texts as values

A string literal may name any code point, also one of the surrogates that no character has. A text
as a value of the machine is therefore a list of code points, and only a text without surrogates is a
`String`.
-/

namespace Dalvik

/-- A text as a value: its code points in order. -/
structure Text where
  points : List Nat
  deriving DecidableEq, Repr, Inhabited

namespace Text

def ofString (s : String) : Text :=
  ⟨s.toList.map Char.toNat⟩

def isSurrogate (n : Nat) : Bool :=
  decide (0xD800 ≤ n) && decide (n ≤ 0xDFFF)

/-- Whether a text holds a surrogate, and so is no string. -/
def hasSurrogate (t : Text) : Bool :=
  t.points.any isSurrogate

/-- The string of a text; a surrogate is shown as the replacement character. -/
def toString (t : Text) : String :=
  String.ofList (t.points.map fun n => if isSurrogate n then Char.ofNat 0xFFFD else Char.ofNat n)

instance : Append Text := ⟨fun a b => ⟨a.points ++ b.points⟩⟩

def length (t : Text) : Nat :=
  t.points.length

/-- A text written `n` times in a row. -/
def times (t : Text) (n : Nat) : Text :=
  ⟨(List.replicate n t.points).flatten⟩

/-- Texts are ordered by the first code point in which they differ; a proper beginning is smaller. -/
def cmp (a b : Text) : Ordering :=
  compareLists a.points b.points
where
  compareLists : List Nat → List Nat → Ordering
    | [], [] => .eq
    | [], _ :: _ => .lt
    | _ :: _, [] => .gt
    | x :: xs, y :: ys => (compare x y).then (compareLists xs ys)

end Text

end Dalvik
