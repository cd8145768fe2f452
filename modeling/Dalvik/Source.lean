/-!
# Sources

A source is a sequence of lines, each with the line break that ends it. The lines of octets are
decoded one by one, so a line that is no text is noticed only when it is reached.
-/

namespace Dalvik

/-- The lines that are still to be read; a line of octets that are no text is `none`. -/
structure Source where
  lines : List (Option String)
  deriving DecidableEq, Repr, Inhabited

namespace Source

/-- Cuts a sequence behind every line end. The first argument is the current line, backwards. -/
def cutLines {α : Type} (isEnd : α → Bool) : List α → List α → List (List α)
  | line, [] => if line.isEmpty then [] else [line.reverse]
  | line, x :: xs =>
    if isEnd x then (x :: line).reverse :: cutLines isEnd [] xs else cutLines isEnd (x :: line) xs

def ofString (s : String) : Source :=
  ⟨(cutLines (· == '\n') [] s.toList).map fun l => some (String.ofList l)⟩

def ofBytes (b : ByteArray) : Source :=
  ⟨(cutLines (· == 10) [] b.toList).map fun l => String.fromUTF8? ⟨l.toArray⟩⟩

end Source

end Dalvik
