import Dalvik.Text.Split

/-!
# Files

What the console sees of the files around it: under a path there is nothing, a folder, or a text. Whoever
runs the console says what there is, and may leave open what has not been looked for yet.
-/

namespace Dalvik

inductive FileEntry where
  | missing
  | folder
  | text (s : String)
  deriving DecidableEq, Repr, Inhabited

/-- What is known under each path; `none` if nobody has looked yet. -/
abbrev Files : Type := String → Option FileEntry

namespace Files

open Dalvik.Text

/-- The names on a path, without those that stay where they are. -/
def names (path : String) : List String :=
  (splitParts "/" path).filter fun n => n != "" && n != "."

def isAbsolute (path : String) : Bool :=
  path.toList.head? == some '/'

def endsIn (ending path : String) : Bool :=
  ending.toList.isSuffixOf path.toList

/-- What there is under a path in a folder with the given texts. Only a path into the folder finds one. -/
def lookupIn (texts : List (String × String)) (path : String) : FileEntry :=
  let target := names path
  if path.isEmpty || (isAbsolute path && !target.isEmpty) then .missing
  else if target.isEmpty || target == [".."] then .folder
  else
    match texts.find? fun (name, _) => names name == target with
    | some (_, s) => if endsIn "/" path || endsIn "/." path then .missing else .text s
    | none => if texts.any fun (name, _) => target.isPrefixOf (names name) then .folder else .missing

/-- The files of a folder of which everything is known. -/
def ofTexts (texts : List (String × String)) : Files :=
  fun path => some (lookupIn texts path)

/-- The lines of a file end in a line feed, however they were ended in the file. -/
def lineFeeds : List Char → List Char
  | '\r' :: '\n' :: cs => '\n' :: lineFeeds cs
  | '\r' :: cs => '\n' :: lineFeeds cs
  | c :: cs => c :: lineFeeds cs
  | [] => []

end Files

end Dalvik
