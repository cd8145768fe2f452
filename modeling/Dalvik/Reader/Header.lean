import Dalvik.Access
import Dalvik.Keyword
import Dalvik.Reader.Session
import Dalvik.Signature

/-!
# Headers of constructs

The directives that open and close constructs or describe a class: each of them stands on one line. A
construct is opened with the node that the event returned, or with a blank where nobody listens.
-/

namespace Dalvik

open Dalvik.Text

/-- The two parts of a text around a separator that occurs exactly once. -/
def Text.halves (sep s : String) : Except Fault (String × String) :=
  match splitParts sep s with
  | [a, b] => .ok (a, b)
  | _ => .error .partCount

namespace Reader

open Read

variable {ν σ : Type} (r : Reader ν σ)

def checkKeyword (w : String) (k : Keyword) : Read ν σ Unit := do
  if r.options.validate then
    let c ← firstChar w
    let rest := String.ofList (w.toList.drop 1)
    if c != '.' then throw (.expectedDot (String.singleton c))
    else if rest != k.text then throw (.expectedKeyword k.text rest)

def checkDescriptor (w : String) : Read ν σ Unit := do
  if r.options.validate && !Descriptor.isDescriptor w then throw (.expectedDescriptor w)

def passKeyword (k : Keyword) : Read ν σ Unit := do
  r.checkKeyword (← nextWord) k

/-- Splits the access keywords off the words at hand. Words must go on behind them. -/
def splitAccess : List String → Option (List String × List String)
  | [] => none
  | w :: ws =>
    if Access.isKeyword w then (splitAccess ws).map fun (ks, rest) => (w :: ks, rest)
    else some ([], w :: ws)

def accessFlags : Read ν σ Datum := do
  match splitAccess (← get).cursor.pending with
  | some (ks, rest) =>
    modify fun s => { s with cursor := { s.cursor with pending := rest } }
    pure (.int (Access.flags ks))
  | none =>
    modify fun s => { s with cursor := { s.cursor with pending := [] } }
    throw .lineExhausted

/-- The header of a class on the current line; an inner class may get a node of its own. -/
def classHeader (inner : Bool) : Read ν σ (Option ν) :=
  r.atLineEnd do
    r.passKeyword .classDef
    let flags ← accessFlags
    let name ← peekWord
    r.checkDescriptor name
    let node ← r.send (if inner then .innerClass (.text name) flags else .classDef (.text name) flags)
    r.publishComment
    pure node

/-- Reads the header that opens a source. A source that has none is accepted without validation. -/
def openClass : Read ν σ Unit := do
  let reached ← tryCatch (do r.nextLine; pure true) fun f =>
    if f = .endOfSource then
      if r.options.validate then throw .expectedClass else pure false
    else throw f
  if reached then
    let _ ← r.classHeader false

/-- Tells a class-level detail, or copies its line where nobody listens. -/
def tellOrCopy (e : Event) : Read ν σ Unit := do
  if (← top).isAbsent then r.copyLine else r.tell e

def superClass : Read ν σ Unit :=
  r.atLineEnd do
    r.passKeyword .superClass
    let name ← peekWord
    unless Descriptor.isDescriptor name do throw (.expectedSuper name)
    r.tellOrCopy (.superClass (.text name))
    r.publishComment

def sourceFile : Read ν σ Unit :=
  r.atLineEnd do
    r.passKeyword .source
    let name ← peekWord
    r.tellOrCopy (.sourceFile (.text (without (· == '"') name)))
    r.publishComment

def interface : Read ν σ Unit := do
  let _ ← nextWord
  if (← top).isAbsent then r.copyLine
  else
    let name ← peekWord
    r.checkDescriptor name
    r.tell (.implements (.text name))
    r.publishComment

/-- The debug mode, which is told as a super class. -/
def debugMode : Read ν σ Unit := do
  r.passKeyword .debug
  let word ← peekWord
  let slot ← top
  if slot.isAbsent then r.copyLine
  else
    r.require slot .superClass
    match Number.parseDecimal? word.toList with
    | some n => r.tell (.superClass (.int n))
    | none => throw .numeral
  r.publishComment

/-- A field. Its value is the last word of the line, if anything follows its name. -/
def field : Read ν σ Unit :=
  r.atLineEnd do
    r.passKeyword .field
    let flags ← accessFlags
    let (name, type) ← attempt (halves ":" (← nextWord))
    r.checkDescriptor type
    let value ← if ← hasWord then pure (Datum.text (← lastWord)) else pure Datum.absent
    if (← top).isAbsent then
      push (.blank .field)
      r.copyLine
    else
      let node? ← r.send (.field (.text (Signature.plainName name)) flags (.text type) (some value))
      r.publishComment
      push (.orBlank .field node?)
      if node?.isNone then r.copyLine

/-- Opens a construct, and copies its line where nobody listens. -/
def openWith (slot : Slot ν) (heard : Bool) : Read ν σ Unit := do
  push slot
  r.publishComment
  unless heard do r.copyLine

def method : Read ν σ Unit :=
  r.atLineEnd do
    r.passKeyword .method
    let flags ← accessFlags
    let type ← attempt (Descriptor.ofString (← peekWord))
    match type.signature? with
    | none => throw .expectedSignature
    | some sig =>
      let slot ← top
      let node? ← if slot.isAbsent then pure none else do
        r.require slot .method
        let name ← attempt sig.name
        let parameters ← attempt sig.parameterTypes
        let result ← attempt sig.returnType
        r.send (.method (.text name) flags (.texts (parameters.map (·.text))) (.text result.text))
      r.openWith (.orBlank .method node?) node?.isSome

def annot : Read ν σ Unit :=
  r.atLineEnd do
    r.passKeyword .annot
    let flags ← accessFlags
    let type ← peekWord
    r.checkDescriptor type
    let node? ← if (← top).isAbsent then pure none else r.send (.annot flags (.text type))
    r.openWith (.orBlank .annot node?) node?.isSome

/-- An annotation inside an annotation. Its name is the rest of the line. -/
def subAnnot : Read ν σ Unit :=
  r.atLineEnd do
    r.passKeyword .subAnnot
    let name := fromFirst ' ' (← cleaned)
    let flags ← accessFlags
    let type ← peekWord
    r.checkDescriptor type
    if (← top).isMuted .annot then r.openWith (.blank .annot) false
    else
      let node? ← r.send (.subAnnot (.text (String.ofList name)) flags (.text type))
      r.openWith (.ofOption node?) node?.isSome

/-- An enumeration constant. Its name is the rest of the line. -/
def enumConst : Read ν σ Unit :=
  r.atLineEnd do
    let name := fromFirst ' ' (← cleaned)
    r.passKeyword .enumConst
    let (owner, constant) ← attempt (halves "->" (← peekWord))
    r.checkDescriptor owner
    let (constName, type) ← attempt (halves ":" constant)
    r.checkDescriptor type
    if (← top).isMuted .annot then r.copyLine
    else r.tell (.enumConst (.text (String.ofList name)) (.text owner) (.text (Signature.plainName constName))
      (.text type))

/-- The end of a construct. The ends of local variables and parameters close nothing. -/
def close : Read ν σ Unit := do
  let word ← lastWord
  if word == Keyword.localVar.text || word == Keyword.param.text then r.copyLine
  else
    match ← pop with
    | .node n => let _ ← r.sendTo (.node n) .close
    | _ => r.copyLine

end Reader

end Dalvik
