import Dalvik.Console.Arguments
import Dalvik.Console.Run

/-!
# Sessions at the console

The command line reads the files that it names. The console itself starts if it names none, or if it is
asked for: it greets, and then prompts for each line that it runs.
-/

namespace Dalvik.Console

def version : String := "0.2.1"

def greeting : String :=
  "ISmali " ++ version ++ " on linux\nType 'help' or 'copyright' for more information."

def prompt : String := ">>> "

def interact (files : Files) : List String → Step Unit
  | [] => write prompt
  | line :: rest => do
    write prompt
    typed files line
    interact files rest

/-- Reads the files of a command line, and then starts the console on some input if it is wanted. -/
def serve (files : Files) (a : Arguments) (input : List String) : Step Unit := do
  if a.version then
    print version
    throw (.halted 0)
  a.files.forM (importFile files (reader files))
  if a.files.isEmpty || a.interactive then
    print greeting
    interact files input

/-- Does what a command line asks for. Only a request for the usage ends well without a console. -/
def commandLine (files : Files) (args : List String) (input : List String) : Step Unit := do
  match Arguments.parse args with
  | .error .usage =>
    write Arguments.usage
    throw (.halted 0)
  | .error _ => throw (.halted 2)
  | .ok a => serve files a input

def inputLines (s : String) : List String :=
  (Source.cutLines (· == '\n') [] s.toList).map fun l =>
    String.ofList (if l.getLast? == some '\n' then l.dropLast else l)

end Dalvik.Console
