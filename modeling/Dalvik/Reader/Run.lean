import Dalvik.Reader.Body
import Dalvik.Reader.Directive

/-!
# Reading a source

Every line is a directive, a label, or a statement of the innermost construct. Reading goes on until
the source ends; the innermost construct is then told so. A fault that concerns a value ends the reading
in the same way, wherever it arises.
-/

namespace Dalvik

inductive Input where
  | text (s : String)
  | octets (b : ByteArray)
  /-- A stream of text, which counts as a source even when nothing is in it. -/
  | stream (s : String)
  | unreadable
  | other (d : Datum)

namespace Input

def isPresent : Input → Bool
  | text s => !s.isEmpty
  | octets b => !b.isEmpty
  | stream _ | unreadable => true
  | other d => d.holds

def source : Input → Except Fault Source
  | text s | stream s => .ok (.ofString s)
  | octets b => .ok (.ofBytes b)
  | unreadable => .error .unreadableSource
  | other d => .error (.foreignSource d.typeName)

end Input

namespace Reader

open Dalvik.Text Read

variable {ν σ : Type} (r : Reader ν σ)

/-- A directive that leads to no other directive. -/
def simpleDirective : Directive → Read ν σ Unit
  | .superClass => r.superClass
  | .sourceFile => r.sourceFile
  | .field => r.field
  | .close => r.close
  | .method => r.method
  | .annot => r.annot
  | .subAnnot => r.subAnnot
  | .enumConst => r.enumConst
  | .debug => r.debugMode
  | .parameter => r.parameter
  | .line => r.lineNumber
  | .registers => r.registers
  | .locals => r.locals
  | .label => r.label
  | .catching => r.catching
  | .catchingAll => r.catchingAll
  | .instruction => r.instruction
  | .packedSwitch => r.packedSwitch
  | .arrayData => r.arrayData
  | .localVar => r.localVar
  | .sparseSwitch => r.sparseSwitch
  | .prologue => r.prologue
  | .restart => r.restart
  | .number => throw .operandCount
  | .value | .directive => throw .endless

/-- Leaves a field, which ends at the first statement that is no part of it. -/
def leaveField (name : String) : Read ν σ Unit := do
  let slot ← top
  if r.hasShape slot .field && name != Keyword.annot.text && name != Keyword.close.text then
    let _ ← pop

mutual

/-- The directive at hand. It is bounded by the number of directives that can still follow on the
line. -/
def directive : Nat → Read ν σ Unit
  | 0 => throw .endless
  | n + 1 => do
    let name := String.ofList ((← peekWord).toList.drop 1)
    r.leaveField name
    if name == Keyword.implements.text then r.interface
    else if name == Keyword.classDef.text then
      let node? ← r.classHeader true
      push (.ofOption node?)
    else
      match Directive.ofName? name with
      | none => throw .noOperation
      | some .value => value n
      | some .directive => directive n
      | some d => r.simpleDirective d

/-- A value of an annotation: its name, the equals sign, and a directive or a plain value. -/
def value : Nat → Read ν σ Unit
  | 0 => throw .endless
  | n + 1 => do
    let name ← nextWord
    let _ ← nextWord
    let c ← firstChar (← peekWord)
    if c == '.' then directive n else r.plainValue name

end

/-- A bound for the directives on the current line: every value passes two words. -/
def wordBound : Read ν σ Nat := do
  pure (2 * (← get).cursor.pending.length + 2)

def statement : Read ν σ Unit := do
  let word ← peekWord
  let c ← firstChar word
  if c == '.' then r.directive (← wordBound)
  else if c == ':' then r.label
  else
    let slot ← top
    if r.hasShape slot .annot then r.value (← wordBound)
    else if r.hasShape slot .method then r.instruction
    else throw (.invalidStatement word)

def readLine : Read ν σ Unit := do
  r.nextLine
  if (← currentLine).cleaned.isEmpty then r.copyLine else r.statement

def readLines : Nat → Read ν σ Unit
  | 0 => throw .endOfSource
  | n + 1 => do
    r.readLine
    readLines n

def readBody : Read ν σ Unit := do
  tryCatch (do r.readLines ((← get).source.lines.length + 1)) fun f =>
    if f.endsReading then r.tell .close
    else if f = .lineExhausted then throw .unexpectedEndOfLine
    else throw f

/-- Reads an input, with `root` as the outermost construct. -/
def visit (input : Input) (root : Option ν) : Read ν σ Unit := do
  match root with
  | none => throw .missingSource
  | some n =>
    unless input.isPresent do throw .missingSource
    let source ← attempt input.source
    unless r.options.knownPolicy do throw (.unknownPolicy r.options.policy)
    modify fun s => { s with source := source }
    push (.node n)
    unless r.options.snippet do r.openClass
    r.readBody

end Reader

end Dalvik
