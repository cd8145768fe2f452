import Dalvik.Console.Command
import Dalvik.Console.Layout
import Dalvik.Console.State

/-!
# Lines at the console

A line is run as a command if it starts with one. The name of a register shows its value, and everything
else is read into the frame of the console, where each instruction is performed at once. While a script is
being read, what is no instruction is run as a line of its own. A script that names another script ends
there: both are read from one source.

Lines can lead to further lines, so running one is bounded by how deep they are nested; a line that leads
to itself without end is a fault.
-/

namespace Dalvik.Console

open Dalvik.Text

/-- Performs an instruction in the frame of the console. A return shows the value. What is no instruction
is run as a line if it comes from a script. -/
def perform (run : String → Step Unit) (name : String) (operands : Datum) : Step Unit := do
  let c ← state
  if Opcode.isKnown name then
    machine do
      let action ← Store.actionNamed (.text name)
      Store.perform Store.runner action c.frame operands
      Store.updateFrame c.frame fun f => { f with loaded := f.loaded + 1 }
    if occurs "return".toList name.toList then
      print (← machine (do Store.plain (← Store.frameInfo c.frame).returned))
  else if c.importing then
    match operands.texts? with
    | some words => run (name ++ " " ++ " ".intercalate words)
    | none => throw .operandType
  else throw (.unknownInstruction name)

def clearRegisters (count : Datum) : Step Unit :=
  (List.range (LoadNode.number count).toNat).forM fun i => setRegister s!"v{i}" .null

/-- Gives the root object a value for a field that is not static. -/
def setRootField (name : String) (flags : Datum) (value? : Option Datum) : Step Unit := do
  match value?.getD .absent, (← state).root with
  | .absent, _ => pure ()
  | value, .object root =>
    unless Access.meets (LoadNode.number flags) Access.static do
      machine (Store.setField root name (.ofString value.plain))
  | _, _ => pure ()

def onConsole (run : String → Step Unit) : Event → Step (Option Site)
  | .restart register => do
    let name := register.plain
    let root := (← state).root
    setRegister name (if name == rootRegister then root else .null)
    pure none
  | .label name => do
    let frame := (← state).frame
    machine (Store.updateFrame frame fun f =>
      { f with labels := f.labels.set name.plain f.loaded, loaded := f.loaded + 1,
               lastLabel? := some name.plain, label? := some name.plain })
    pure none
  | .registers count | .locals count => do
    clearRegisters count
    pure none
  | .catching type labels | .catchingAll type labels => do
    match labels.texts? with
    | some [start, _, handler] =>
      let frame := (← state).frame
      machine (Store.updateFrame frame fun f =>
        { f with handlers := f.handlers.set start (type.plain, handler) })
    | _ => throw .partCount
    pure none
  | .instruction name operands => do
    perform run name.plain operands
    pure none
  | .ret variant operands => do
    perform run (if variant.holds then "return-" ++ variant.plain else "return") operands
    pure none
  | .call variant operands owner target => do
    perform run (if variant.holds then "invoke-" ++ variant.plain else "invoke")
      (.list [variant, operands, owner, target])
    pure none
  | .field name flags type value? => do
    let node ← machine (LoadNode.addField (← state).rootClass name flags type (value?.getD .absent))
    setRootField name.plain flags value?
    pure (some (.loading node))
  | .method name flags parameters result => do
    let c ← state
    pure (some (.loading (← machine (LoadNode.addMethod c.vm c.rootClass name flags parameters result))))
  | .innerClass name flags => do
    let c ← state
    if c.importing then
      pure (some (.loading (← machine (LoadNode.addInner c.vm c.rootClass name flags))))
    else pure none
  | _ => pure none

def host (run : String → Step Unit) : Host Site Console where
  hears := Site.hears
  hasShape := Site.hasShape
  deliver site e :=
    match site with
    | .console => onConsole run e
    | .loading n => do pure ((← machine (n.deliver e)).map .loading)
  copy? := none

/-- The options for what is typed and for scripts: pieces of a class. -/
def scriptOptions : Options := { Options.standard with snippet := true }

/-- Reads a script. Nothing is left of any source that was being read. -/
def readScript (r : Reader Site Console) (text : String) : Step Unit := do
  update fun c => { c with importing := true }
  r.visit (.stream text) (some .console)
  update fun c => { c with importing := false }
  modify fun s => { s with source := ⟨[]⟩ }

/-- Reads a class with a reader of its own, and runs its static initialiser. -/
def readClass (r : Reader Site Console) (text : String) : Step Unit := do
  let source := (← get).source
  let c ← Store.defineWith ⟨.standard, r.host⟩ .loading machine (← state).vm (.stream text)
  modify fun s => { s with source := source }
  tryCatch (machine (Store.initClass Store.runner c)) report

def scriptEnding : String := ".ssf"

def classEnding : String := ".smali"

/-- Reads the file under a path, unless it was read before. -/
def importFile (files : Files) (r : Reader Site Console) (path : String) : Step Unit := do
  match files path with
  | none => throw (.unseenFile path)
  | some .missing => print s!"! Could not find file at \"{path}\""
  | some entry =>
    let c ← state
    if c.imported.contains path && c.readsOnce then pure ()
    else if !Files.endsIn classEnding path && !Files.endsIn scriptEnding path then
      print s!"! Unknown file format (unknown suffix) at '{path}'"
    else
      match entry with
      | .text s =>
        let text := String.ofList (Files.lineFeeds s.toList)
        update fun c => { c with imported := path :: c.imported }
        if Files.endsIn scriptEnding path then readScript r text else readClass r text
      | _ => throw .folder

def showRegisters : Step Unit := do
  let sorted := (← frameInfo).registers.mergeSort fun a b => decide (a.1 ≤ b.1)
  let entries ← machine (sorted.mapM fun (k, v) => do pure (Text.ofString k, ← Shown.ofValue v))
  print ((Shown.table entries).layout 0 0)

/-- Deletes a register other than the root's. -/
def deleteRegister (name : String) : Step Unit := do
  if name == rootRegister then print "! Attempted to delete root-context - skipping...\n"
  else
    let frame := (← state).frame
    machine (Store.updateFrame frame fun f =>
      { f with registers := f.registers.filter fun (k, _) => k != name })

def runCommand (files : Files) (r : Reader Site Console) (argument : String) : Command → Step Unit
  | .copyright => print "Copyright (C) 2023 MatrixEditor"
  | .del => deleteRegister argument
  | .exit => throw (.halted 0)
  | .fields => do
    let names ← machine (Store.fieldsWith (← state).rootClass none)
    print ((Shown.list (names.map fun n => .text (.ofString n))).layout 0 0)
  | .help => print (Command.helpOn argument)
  | .fetch => importFile files r argument
  | .label => do print ((← frameInfo).label?.getD "None")
  | .vars => showRegisters

def endMark : String := "EOF"

/-- Shows a register, or reads the line. -/
def readTyped (r : Reader Site Console) (line : String) : Step Unit := do
  if line == endMark then pure ()
  else
    match (← frameInfo).registers.get? line with
    | some v => print (← machine (Store.plain v))
    | none => tryCatch (r.visit (.text line) (some .console)) report

def runRequest (files : Files) (r : Reader Site Console) (line : String) : Step Unit := do
  let q := Request.parse line
  if q.remembered then
    update fun c => { c with lastLine := if q.line == endMark then "" else q.line }
  match q.command? with
  | some command => runCommand files r q.argument command
  | none => readTyped r q.line

/-- Runs a line; a blank one repeats the line before it. -/
def runLine (files : Files) (r : Reader Site Console) (line : String) : Step Unit := do
  if Request.isBlankLine line then
    let last := (← state).lastLine
    if last.isEmpty then pure () else runRequest files r last
  else runRequest files r line

/-- The reader of the console, where lines are nested at most `n` deep. -/
def readerWithin (files : Files) : Nat → Reader Site Console
  | 0 => ⟨scriptOptions, host fun _ => throw .endless⟩
  | n + 1 => ⟨scriptOptions, host (runLine files (readerWithin files n))⟩

def depthLimit : Nat := 100

def reader (files : Files) : Reader Site Console :=
  readerWithin files depthLimit

/-- Runs a line that was typed; an empty one is the end mark. -/
def typed (files : Files) (line : String) : Step Unit :=
  runLine files (reader files) (if line.isEmpty then endMark else line)

end Dalvik.Console
