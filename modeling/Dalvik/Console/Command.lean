import Dalvik.Text.Blank

/-!
# Commands

A line at the console is a command with an argument, or else something to read. The command is the longest
beginning of the line that is made of letters, digits and underscores.
-/

namespace Dalvik

inductive Command where
  | copyright
  | del
  | exit
  | fields
  | help
  | fetch
  | label
  | vars
  deriving DecidableEq, Repr, Inhabited

namespace Command

def all : List Command :=
  [copyright, del, exit, fields, help, fetch, label, vars]

def name : Command → String
  | copyright => "copyright"
  | del => "del"
  | exit => "exit"
  | fields => "fields"
  | help => "help"
  | fetch => "import"
  | label => "label"
  | vars => "vars"

def ofName? (s : String) : Option Command :=
  all.find? fun c => c.name == s

def explanation : Command → String
  | copyright => "Prints copyright information"
  | del =>
    "usage: del <register>\n\n        Deletes the variable at the specified register. The root\n" ++
    "        context at 'p0' can't be deleted.\n        "
  | exit => "Exits the interpreter"
  | fields =>
    "usage: fields\n\n        Prints all fields that have been defined in the root context.\n        "
  | help => "List available commands with \"help\" or detailed help with \"help cmd\"."
  | fetch =>
    "usage: import <file>\n\n        This command will try to import the given smali file or\n" ++
    "        Smali-Script file (.ssf). Note that files with wrong suffixes\n" ++
    "        will be ignored.\n        "
  | label => ":usage label\n\n        Prints the name of the active label.\n        "
  | vars => "usage: vars\n\n        Prints all variables with the help of ``pprint``.\n        "

def title : String := "Documented commands (type help <topic>):"

/-- The list of commands under its title, with a blank line around it. -/
def overview : String :=
  "\n" ++ title ++ "\n" ++ String.ofList (List.replicate title.length '=') ++ "\n" ++
    "  ".intercalate (all.map name) ++ "\n"

def helpOn (topic : String) : String :=
  if topic.isEmpty then overview
  else
    match ofName? topic with
    | some c => c.explanation
    | none => "*** No help on " ++ topic

end Command

structure Request where
  line : String
  /-- Whether the line is remembered, to be run again at a blank one. -/
  remembered : Bool
  command? : Option Command
  argument : String
  deriving DecidableEq, Repr

namespace Request

open Dalvik.Text

def isCommandChar (c : Char) : Bool :=
  c.isAlphanum || c == '_'

/-- Takes a line apart, which is not blank. A question mark stands for the command `help`; a line after an
exclamation mark has no command and is not remembered. -/
def parse (line : String) : Request :=
  let cs := dropBoth isBlank line.toList
  match cs with
  | '!' :: _ => ⟨String.ofList cs, false, none, ""⟩
  | _ =>
    let cs := match cs with
      | '?' :: rest => "help ".toList ++ rest
      | _ => cs
    ⟨String.ofList cs, true, Command.ofName? (String.ofList (cs.takeWhile isCommandChar)),
      String.ofList (dropBoth isBlank (cs.dropWhile isCommandChar))⟩

def isBlankLine (line : String) : Bool :=
  line.toList.all isBlank

end Request

end Dalvik
