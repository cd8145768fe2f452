import Dalvik.Event
import Dalvik.Line.Cursor
import Dalvik.Source

/-!
# Reading sessions

A session is what reading changes: the lines that are left, the place on the current line, the stack of
open constructs, and the world of whoever listens. A reader has options and a host; the host says which
verbs a node hears and what an event does. Everything here is independent of the statements that can be
read.
-/

namespace Dalvik

structure Options where
  validate : Bool
  /-- Whether comments on lines of their own are delivered. -/
  comments : Bool
  /-- Whether the source is a piece of a class, without a header. -/
  snippet : Bool
  /-- What happens at a line that ends too early: `strict` reports it, `ignore` does not. -/
  policy : String
  deriving DecidableEq, Repr

namespace Options

def standard : Options := ⟨true, false, false, "strict"⟩

def knownPolicy (o : Options) : Bool :=
  o.policy == "strict" || o.policy == "ignore"

/-- A reader can be made only with a known policy. -/
def check (o : Options) : Except Fault Unit :=
  if o.knownPolicy then .ok () else .error (.invalidPolicy o.policy)

end Options

inductive Slot (ν : Type) where
  /-- Nobody listens and nothing is known of the construct. -/
  | absent
  | blank (shape : Shape)
  | node (n : ν)
  deriving DecidableEq, Repr, Inhabited

namespace Slot

variable {ν : Type}

def ofOption : Option ν → Slot ν
  | some n => node n
  | none => absent

/-- The slot of an event's result, where nobody may listen to a construct of this shape. -/
def orBlank (shape : Shape) : Option ν → Slot ν
  | some n => node n
  | none => blank shape

def isAbsent : Slot ν → Bool
  | absent => true
  | _ => false

def isBlank (shape : Shape) : Slot ν → Bool
  | blank s => s == shape
  | _ => false

/-- Whether lines are passed over here, as seen from the statements of a shape. -/
def isMuted (shape : Shape) (s : Slot ν) : Bool :=
  s.isAbsent || s.isBlank shape

end Slot

structure Session (ν σ : Type) where
  source : Source
  cursor : Cursor
  stack : List (Slot ν)
  world : σ

/-- A step of reading; what it changes before a fault stays changed. -/
abbrev Read (ν σ α : Type) : Type :=
  ExceptT Fault (StateM (Session ν σ)) α

structure Host (ν σ : Type) where
  hears : ν → Verb → Bool
  hasShape : ν → Shape → Bool
  /-- What an event does at a node that hears it; a new construct may get a node of its own. -/
  deliver : ν → Event → Read ν σ (Option ν)
  copy? : Option (String → Slot ν → Read ν σ Unit)

structure Reader (ν σ : Type) where
  options : Options
  host : Host ν σ

namespace Read

variable {ν σ α : Type}

def attempt (x : Except Fault α) : Read ν σ α :=
  ExceptT.mk (pure x)

def nextWord : Read ν σ String := do
  let (w, c) ← attempt (← get).cursor.next
  modify fun s => { s with cursor := c }
  pure w

def peekWord : Read ν σ String := do
  attempt (← get).cursor.peek

def hasWord : Read ν σ Bool := do
  pure (← get).cursor.hasNext

def lastWord : Read ν σ String := do
  attempt (← get).cursor.last

def currentLine : Read ν σ Line := do
  attempt (← get).cursor.line

/-- The current line without white space around it and without its comment. -/
def cleaned : Read ν σ (List Char) := do
  pure (← currentLine).cleaned.toList

/-- The first character of a word, which must have one. -/
def firstChar (w : String) : Read ν σ Char :=
  match w.toList.head? with
  | some c => pure c
  | none => throw .noElement

def top : Read ν σ (Slot ν) := do
  match (← get).stack with
  | s :: _ => pure s
  | [] => throw .noElement

def push (slot : Slot ν) : Read ν σ Unit :=
  modify fun s => { s with stack := slot :: s.stack }

def pop : Read ν σ (Slot ν) := do
  match (← get).stack with
  | slot :: rest =>
    modify fun s => { s with stack := rest }
    pure slot
  | [] => throw .noElement

/-- Moves to the next line of the source, whatever it is. -/
def advance : Read ν σ String := do
  match (← get).source.lines with
  | [] => throw .endOfSource
  | line? :: rest =>
    modify fun s => { s with source := ⟨rest⟩ }
    match line? with
    | none => throw .undecodable
    | some l =>
      let c ← attempt ((← get).cursor.reset l)
      modify fun s => { s with cursor := c }
      pure l

end Read

namespace Reader

open Read

variable {ν σ : Type} (r : Reader ν σ)

def hears (slot : Slot ν) (v : Verb) : Bool :=
  match slot with
  | .absent => false
  | .blank shape => shape.hears v
  | .node n => r.host.hears n v

def hasShape (slot : Slot ν) (shape : Shape) : Bool :=
  match slot with
  | .absent => false
  | .blank s => s == shape
  | .node n => r.host.hasShape n shape

/-- Makes sure that a construct hears a verb. -/
def require (slot : Slot ν) (v : Verb) : Read ν σ Unit :=
  if r.hears slot v then pure () else throw .noOperation

/-- Delivers an event to a construct, which has to hear it. -/
def sendTo (slot : Slot ν) (e : Event) : Read ν σ (Option ν) := do
  r.require slot e.verb
  match slot with
  | .node n => r.host.deliver n e
  | _ => pure none

def send (e : Event) : Read ν σ (Option ν) := do
  r.sendTo (← top) e

/-- Delivers an event that opens no construct. -/
def tell (e : Event) : Read ν σ Unit := do
  let _ ← r.send e

/-- Hands the current line to whoever keeps the lines that nobody listens to. -/
def copyLine : Read ν σ Unit := do
  match r.host.copy? with
  | none => pure ()
  | some copy =>
    let raw := (← currentLine).raw
    copy raw (← top)

/-- Delivers the comment at the end of the current line. -/
def publishComment : Read ν σ Unit := do
  match (← currentLine).comment? with
  | none => pure ()
  | some c =>
    let slot ← top
    unless slot.isAbsent do
      let _ ← r.sendTo slot (.trailing (.text c))

/-- Treats a line that ends too early by the policy. -/
def atLineEnd {α : Type} [Inhabited α] (body : Read ν σ α) : Read ν σ α :=
  tryCatch body fun f =>
    if f = .lineExhausted then
      if r.options.policy == "strict" then throw .unexpectedEndOfLine else pure default
    else throw f

/-- Deals with a comment on a line of its own. -/
def remark : Read ν σ Unit := do
  let slot ← top
  if r.options.comments then
    if slot.isAbsent then r.copyLine
    else
      let comment := match (← currentLine).comment? with
        | some c => Datum.text c
        | none => Datum.absent
      let _ ← r.sendTo slot (.comment comment)

/-- Moves to the next line that is no comment, among at most `n` lines. -/
def nextLineWithin : Nat → Read ν σ Unit
  | 0 => throw .endOfSource
  | n + 1 => do
    let l ← advance
    if Line.isRemark l then
      r.remark
      nextLineWithin n

/-- Moves to the next line that is no comment. -/
def nextLine : Read ν σ Unit := do
  r.nextLineWithin ((← get).source.lines.length + 1)

end Reader

end Dalvik
