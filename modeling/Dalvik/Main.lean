import Dalvik.Console.Session

/-!
# The program

The command line on real files and streams. A step at the console that asks for a file is run again from
where it started, once the file has been looked for.
-/

namespace Dalvik.Program

/-- Looks for a file. What is no text is taken for an empty one, and what cannot be read for a folder. -/
def lookFor (path : String) : IO FileEntry := do
  try
    let octets ← IO.FS.readBinFile path
    pure (.text ((String.fromUTF8? octets).getD ""))
  catch
    | .noFileOrDirectory .. => pure .missing
    | _ => pure .folder

/-- Runs a step at the console and prints what it prints. -/
partial def runStep (step : Files → Console.Step Unit) (seen : List (String × FileEntry))
    (s : Session Site Console) : IO (Option Fault × Session Site Console) := do
  match (step fun path => seen.lookup path).run.run s with
  | (.error (.unseenFile path), _) => runStep step ((path, ← lookFor path) :: seen) s
  | (r, s) =>
    IO.print s.world.output
    (← IO.getStdout).flush
    let fault? := match r with
      | .ok _ => none
      | .error f => some f
    pure (fault?, { s with world := { s.world with output := "" } })

def exitCode : Fault → IO UInt32
  | .halted code => pure (UInt32.ofNat code)
  | f => do
    IO.eprintln f.summary
    pure 1

partial def readFiles (s : Session Site Console) : List String → IO (Option Fault × Session Site Console)
  | [] => pure (none, s)
  | path :: rest => do
    match ← runStep (fun files => Console.importFile files (Console.reader files) path) [] s with
    | (none, s) => readFiles s rest
    | stopped => pure stopped

/-- Prompts for lines and runs them until there are no more. -/
partial def interact (s : Session Site Console) : IO UInt32 := do
  IO.print Console.prompt
  (← IO.getStdout).flush
  let line ← (← IO.getStdin).getLine
  if line.isEmpty then pure 0
  else
    let typed := ((Console.inputLines line).head?).getD ""
    match ← runStep (fun files => Console.typed files typed) [] s with
    | (none, s) => interact s
    | (some f, _) => exitCode f

/-- Reads the files of a command line, and then starts the console if it is wanted. -/
def run (a : Arguments) : IO UInt32 := do
  if a.version then
    IO.println Console.version
    pure 0
  else
    match ← readFiles (Console.start true) a.files with
    | (some f, _) => exitCode f
    | (none, s) =>
      if a.files.isEmpty || a.interactive then
        IO.println Console.greeting
        interact s
      else pure 0

end Dalvik.Program

def main (args : List String) : IO UInt32 := do
  match Dalvik.Arguments.parse args with
  | .ok a => Dalvik.Program.run a
  | .error .usage => do
    IO.print Dalvik.Arguments.usage
    pure 0
  | .error refusal => do
    IO.eprint Dalvik.Arguments.usageLine
    IO.eprintln ("ismali: error: " ++ refusal.message)
    pure 2
