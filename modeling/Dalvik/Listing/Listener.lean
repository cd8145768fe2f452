import Dalvik.Listing.Statement
import Dalvik.Reader.Run

/-!
# Listeners

A listener receives events. A recorder notes them, a relay hands them on, and a writer writes them on a
sheet after handing them on. A new construct gets a listener of the same sort. The desk is what listeners
change: the sheets, the notes, and what was printed.
-/

namespace Dalvik

inductive Listener where
  | nobody
  | recorder (shape : Shape) (label : String)
  | relay (shape : Shape) (next : Listener)
  /-- Hands every event on and writes it on a sheet. -/
  | writer (shape : Shape) (sheet : Nat) (closing : Keyword) (next : Listener)
  deriving DecidableEq, Repr, Inhabited

inductive Context where
  | nothing
  | plain (shape : Shape)
  | recorder (shape : Shape)
  | writer (shape : Shape)
  deriving DecidableEq, Repr

/-- A note of a recorder, or of the copying of a line. -/
inductive Note where
  /-- An event, with the label of the recorder of the new construct if it opens one. -/
  | heard (label : String) (event : Event) (opened : Option (Option String))
  | copied (line : String) (context : Context)
  deriving Repr

structure Desk where
  sheets : Sheets
  recorders : Nat
  declined : List String
  notes : List Note
  printed : String

namespace Desk

def empty (declined : List String) : Desk := ⟨#[], 0, declined, [], ""⟩

/-- A step that changes the desk; what it changes before a fault stays changed. -/
abbrev Act (α : Type) : Type := ExceptT Fault (StateM Desk) α

def attempt {α : Type} (x : Except Fault α) : Act α :=
  ExceptT.mk (pure x)

def startSheet (indent : Int) : Act Nat := do
  let i := (← get).sheets.size
  modify fun d => { d with sheets := d.sheets.push (.blank indent) }
  pure i

def sheet (i : Nat) : Act Sheet := do
  pure ((← get).sheets.sheet i)

def updateSheet (i : Nat) (f : Sheet → Sheet) : Act Unit :=
  modify fun d => { d with sheets := d.sheets.update i f }

def settle (i : Nat) : Act Unit :=
  modify fun d => { d with sheets := d.sheets.settle i }

/-- The text of a sheet, settled first if wanted. -/
def code (i : Nat) (settled : Bool) : Act String := do
  if settled then settle i
  pure (← sheet i).text

def newRecorder (sort : String) (shape : Shape) : Act Listener := do
  let n := (← get).recorders
  modify fun d => { d with recorders := n + 1 }
  pure (.recorder shape s!"{sort}#{n}")

end Desk

namespace Listener

open Desk

def shape? : Listener → Option Shape
  | nobody => none
  | recorder s _ | relay s _ | writer s _ _ _ => some s

def hears (l : Listener) (v : Verb) : Bool :=
  l.shape?.any (·.hears v)

def hasShape (l : Listener) (s : Shape) : Bool :=
  l.shape? == some s

def label? : Listener → Option String
  | recorder _ label => some label
  | _ => none

def some? : Listener → Option Listener
  | nobody => none
  | l => some l

/-- The sort of recorder for the construct that an event opens. -/
def opens : Verb → Option (String × Shape)
  | .method => some ("method", .method)
  | .field => some ("field", .field)
  | .annot => some ("annotation", .annot)
  | .subAnnot => some ("subannotation", .annot)
  | .innerClass => some ("inner", .classDef)
  | _ => none

/-- Notes an event, and makes a recorder for the construct that it opens. -/
def record (label : String) (e : Event) : Act Listener := do
  match opens e.verb with
  | none =>
    modify fun d => { d with notes := .heard label e none :: d.notes }
    pure .nobody
  | some (sort, shape) =>
    let new ← if (← get).declined.contains sort then pure nobody else newRecorder sort shape
    modify fun d => { d with notes := .heard label e (some new.label?) :: d.notes }
    pure new

/-- An event as it is handed on: a field always with its value, and a handler of all errors as a handler
of one type. -/
def handedOn : Event → Event
  | .field name flags type none => .field name flags type (some .absent)
  | .catchingAll type labels => .catching type labels
  | e => e

def write (shape : Shape) (sheet : Nat) (closing : Keyword) (next : Listener) (e : Event) :
    Act Listener := do
  let indent := (← Desk.sheet sheet).indent
  let put (s : Listing.Statement) : Act Unit :=
    updateSheet sheet fun t => t.addAt (indent + s.deeper) s.text s.stop
  match e with
  | .trailing text =>
    let t ← attempt ((← Desk.sheet sheet).addComment text.plain)
    updateSheet sheet fun _ => t
    pure .nobody
  | .close =>
    match Listing.closingStatement shape closing with
    | some s => put s
    | none => pure ()
    pure .nobody
  | _ =>
    match ← attempt (Listing.heading shape indent e) with
    | some h =>
      let i ← startSheet h.indent
      updateSheet i fun t => t.add h.text
      updateSheet sheet fun t => { t with inserts := t.inserts ++ [⟨h.shape, false, some i⟩] }
      pure (.writer h.shape i h.closing next)
    | none =>
      match ← attempt (Listing.statement shape indent e) with
      | some s => put s
      | none => pure ()
      pure .nobody

/-- What an event does at a listener that hears it; the result is the listener of the construct that the
event opens. A list of values is never handed on: whoever should hand it on would only turn to itself
again. -/
def deliver : Listener → Event → Act Listener
  | nobody, _ => pure nobody
  | recorder _ label, e => record label e
  | relay _ nobody, _ => pure nobody
  | relay _ next, e =>
    if e.verb = .array then throw .endless
    else if next.hears (handedOn e).verb then deliver next (handedOn e)
    else throw .noOperation
  | writer shape sheet closing next, e => do
    if Listing.settles shape e.verb then settle sheet
    if e.verb = .array then
      let _ ← write shape sheet closing nobody e
      if next = nobody then pure nobody else throw .endless
    else
      let inner ← if next = nobody then pure nobody
        else if next.hears (handedOn e).verb then deliver next (handedOn e)
        else throw .noOperation
      write shape sheet closing inner e

def writerType : Shape → String
  | .classDef => "smali.writer._SmaliClassWriter"
  | .method => "smali.writer._SmaliMethodWriter"
  | .field => "smali.writer._SmaliFieldWriter"
  | .annot => "smali.writer._SmaliAnnotationWriter"

def closingOf : Shape → Keyword
  | .classDef => .classDef
  | .method => .method
  | .field => .field
  | .annot => .annot

/-- Makes a writer that hands events on to a listener, which has to be of the same shape. -/
def newWriter (shape : Shape) (indent : Int) (next : Listener) : Act Listener := do
  if next ≠ nobody ∧ ¬ next.hasShape shape then throw (.wrongDelegate (writerType shape))
  let i ← startSheet indent
  pure (.writer shape i (closingOf shape) next)

def context : Listener → Context
  | nobody => .nothing
  | recorder s _ => .recorder s
  | relay s _ => .plain s
  | writer s _ _ _ => .writer s

end Listener

namespace Context

def ofSlot : Slot Listener → Context
  | .absent => .nothing
  | .blank s => .plain s
  | .node l => l.context

def relayType : Shape → String
  | .classDef => "smali.visitor.ClassVisitor"
  | .method => "smali.visitor.MethodVisitor"
  | .field => "smali.visitor.FieldVisitor"
  | .annot => "smali.visitor.AnnotationVisitor"

def display : Context → String
  | nothing => "<class 'NoneType'>"
  | plain s | recorder s => "<class '" ++ relayType s ++ "'>"
  | writer s => "<class '" ++ Listener.writerType s ++ "'>"

/-- Whether a context takes in the writers of a shape. -/
def covers (c : Context) (s : Shape) : Bool :=
  c == .plain s || c == .writer s

end Context

namespace Desk

/-- Writes a line that nobody listened to; it has to be a text. -/
def addLine (sheet : Nat) (line : Datum) : Act Unit :=
  match line.text? with
  | some l => updateSheet sheet fun t => t.add l
  | none => throw .operandType

/-- Writes a line between a beginning and an end, with an indentation of its own; each may be left out. All
but the indentation have to be texts. -/
def addRaw (sheet : Nat) (details : List Datum) : Act Unit := do
  let indent := (← Desk.sheet sheet).indent
  let put (line start stop : Datum) (steps : Int) : Act Unit :=
    match line.text?, start.text?, stop.text? with
    | some l, some a, some b =>
      updateSheet sheet fun t => { t with lines := t.lines ++ [a ++ Sheet.margin steps ++ l ++ b] }
    | _, _, _ => throw .operandType
  match details with
  | [line] => put line (.text "") (.text "") indent
  | [line, start] => put line start (.text "") indent
  | [line, start, stop] => put line start stop indent
  | [line, start, stop, own] =>
    match own.int? with
    | some n => put line start stop (if n = -1 then indent else n)
    | none => throw .operandType
  | _ => throw .operandCount

/-- Puts a construct on the list of a sheet; where there is none, the list stays as it is. -/
def addInsert (sheet : Nat) (insert? : Option Insert) : Act Unit :=
  updateSheet sheet fun t => { t with inserts := t.inserts ++ insert?.toList }

/-- Puts a construct that is not written by this library on the list of a sheet, with a sheet of its own
if wanted. -/
def addForeign (sheet : Nat) (shape : Shape) (kept : Bool) (indent : Int) : Act Unit := do
  let inner? ← if kept then some <$> startSheet indent else pure none
  addInsert sheet (some ⟨shape, true, inner?⟩)

/-- Keeps a line that nobody listened to on a sheet: the line goes to the construct that is in charge, and
so down to the last construct that still waits. A class takes only the lines of plain classes itself. -/
def copyTo : Nat → Shape → Nat → Datum → Context → Act Unit
  | 0, _, _, _, _ => pure ()
  | n + 1, shape, i, line, c => do
    let own := if shape = .classDef then c == .plain .classDef else c.covers shape
    match own, (← sheet i).inserts.getLast? with
    | true, _ | false, none => addLine i line
    | false, some last =>
      match last.foreign, last.sheet? with
      | false, some j => copyTo n last.shape j line c
      | false, none => pure ()
      | true, inner? =>
        if c == .plain last.shape then
          match inner? with
          | some j => addLine j line
          | none => throw .noOperation
        else if shape = .classDef then
          modify fun d =>
            { d with printed := d.printed ++ "Line excluded: " ++ line.plain ++ " <context> = "
                ++ c.display ++ "\n" }

/-- Keeps a line that nobody listened to. -/
def copy (shape : Shape) (i : Nat) (line : Datum) (c : Context) : Act Unit := do
  copyTo ((← get).sheets.size + 1) shape i line c

def noteCopy (line : String) (c : Context) : Act Unit :=
  modify fun d => { d with notes := .copied line c :: d.notes }

def reading {α : Type} (x : Act α) : Read Listener Desk α := do
  let (r, desk) := x.run.run (← get).world
  modify fun s => { s with world := desk }
  Read.attempt r

/-- Readers whose listeners work at a desk. -/
def host (copy? : Option (String → Context → Act Unit)) : Host Listener Desk where
  hears := Listener.hears
  hasShape := Listener.hasShape
  deliver l e := reading do pure (← l.deliver e).some?
  copy? := copy?.map fun copy line slot => reading (copy line (.ofSlot slot))

end Desk

end Dalvik
