import Dalvik.Literal
import Dalvik.Reader.Header

/-!
# Statements of methods and annotations

The statements between the header and the end of a method or an annotation: labels, instructions, debug
information, payloads that run over several lines, and the values of annotations. Where nobody listens
the lines are copied instead.
-/

namespace Dalvik.Reader

open Dalvik.Text Read

variable {ν σ : Type} (r : Reader ν σ)

/-- A label without the colons in front of it. -/
def labelName (w : String) : String :=
  trimStart (· == ':') w

def methodMuted : Read ν σ Bool := do
  pure ((← top).isMuted .method)

def annotMuted : Read ν σ Bool := do
  pure ((← top).isMuted .annot)

/-- A statement of a method: its line is copied where nobody listens. -/
def unlessMuted (body : Read ν σ Unit) : Read ν σ Unit := do
  if ← methodMuted then r.copyLine else body

/-- A directive with a number. What has to hear it is settled before the line is read. -/
def numbered (k : Keyword) (v : Verb) (event : Datum → Event) : Read ν σ Unit := do
  let slot ← top
  let muted := slot.isMuted .method
  unless muted do r.require slot v
  r.passKeyword k
  let word ← peekWord
  if muted then r.copyLine
  else
    match Number.parseDecimal? word.toList with
    | some n => r.tell (event (.int n))
    | none => throw .numeral
    r.publishComment

def lineNumber : Read ν σ Unit := r.numbered .line .lineNumber .lineNumber

def registers : Read ν σ Unit := r.numbered .registers .registers .registers

def locals : Read ν σ Unit := r.numbered .locals .locals .locals

def label : Read ν σ Unit := do
  let name := labelName (← peekWord)
  r.unlessMuted do
    r.tell (.label (.text name))
    r.publishComment

def parameter : Read ν σ Unit :=
  r.unlessMuted do
    let _ ← nextWord
    let register ← nextWord
    let name ← if (← cleaned).contains '"' then pure (trimBoth (· == '"') (← peekWord)) else pure ""
    r.tell (.parameter (.text register) (.text name))
    r.publishComment

/-- The descriptor of the errors that a handler of all errors is told with. -/
def anyError : String := "Ljava/lang/Exception;"

/-- The range between braces and the last word are the labels of an error handler. -/
def handlerLabels : Read ν σ Datum := do
  let range := dropBoth isBlank (between '{' '}' (← cleaned))
  match parts [' '] range with
  | [start, _, stop] =>
    let target ← lastWord
    pure (.texts [labelName (String.ofList start), labelName (String.ofList stop), labelName target])
  | _ => throw .partCount

def catching : Read ν σ Unit :=
  r.unlessMuted do
    let _ ← nextWord
    let type ← peekWord
    r.checkDescriptor type
    r.tell (.catching (.text type) (← handlerLabels))
    r.publishComment

def catchingAll : Read ν σ Unit :=
  r.unlessMuted do
    r.tell (.catchingAll (.text anyError) (← handlerLabels))
    r.publishComment

/-- Whether a word opens or ends with a quote. -/
def isQuotedWord (w : List Char) : Bool :=
  w.head?.any (oneOf ['"', '\'']) || w.getLast?.any (oneOf ['"', '\''])

/-- The operands in a list of words: the characters of a class are dropped from the end of each word,
and a word without quotes is cut at its commas. -/
def operandsIn (strip : Char → Bool) : List String → Option (List String)
  | [] => some []
  | w :: ws =>
    let w := dropEnd strip w.toList
    if w.isEmpty then none
    else
      let here := if !isQuotedWord w then (parts [','] w).map String.ofList else [String.ofList w]
      (operandsIn strip ws).map (here ++ ·)

/-- Passes the rest of the line as operands. -/
def operands (strip : Char → Bool) : Read ν σ (List String) := do
  let words := (← get).cursor.pending
  match operandsIn strip words with
  | some xs =>
    modify fun s => { s with cursor := { s.cursor with pending := [] } }
    pure xs
  | none =>
    let rest := (words.dropWhile fun w => !(dropEnd strip w.toList).isEmpty).drop 1
    modify fun s => { s with cursor := { s.cursor with pending := rest } }
    throw .noElement

/-- The part of an instruction's name behind its first hyphen. -/
def variantOf (name : String) : String :=
  match find? ['-'] name.toList with
  | some i => String.ofList (name.toList.drop (i + 1))
  | none => ""

def braced : Read ν σ (List String) := do
  pure ((parts [','] (between '{' '}' (← cleaned))).map fun p => String.ofList (dropBoth isBlank p))

/-- An instruction: calls, returns and plain jumps are told apart from all others. -/
def instruction : Read ν σ Unit :=
  r.unlessMuted do
    let name ← nextWord
    if "invoke".toList.isPrefixOf name.toList then
      let registers ← braced
      let (owner, method) ← attempt (halves "->" (← lastWord))
      r.checkDescriptor owner
      r.tell (.call (.text (variantOf name)) (.texts registers) (.text owner) (.text method))
    else if "return".toList.isPrefixOf name.toList then
      let xs ← operands (· == ',')
      r.tell (.ret (.text (variantOf name)) (.texts xs))
    else if name == "goto" then
      let target := labelName (← peekWord)
      r.tell (.jump (.text target))
    else
      let xs ← operands (· == ',')
      r.tell (.instruction (.text name) (.texts xs))
    r.publishComment

def localVar : Read ν σ Unit :=
  r.unlessMuted do
    let _ ← nextWord
    let values ← operands isBlank
    if values.length != 3 && r.options.validate then throw (.localValues values.length)
    match values with
    | [] => throw .noElement
    | [_] => throw .noElement
    | register :: named :: rest =>
      let (name, type) ← attempt (halves ":" named)
      match rest with
      | [] => throw .noElement
      | fullType :: _ =>
        r.checkDescriptor type
        r.checkDescriptor fullType
        r.tell (.localVar (.text register) (.text (trimBoth (· == '"') name)) (.text type)
          (.text fullType))
        r.publishComment

def prologue : Read ν σ Unit :=
  r.unlessMuted do
    r.tell .prologue
    r.publishComment

def restart : Read ν σ Unit :=
  r.unlessMuted do
    let register ← lastWord
    r.tell (.restart (.text register))
    r.publishComment

/-- Takes note of a line inside a payload: its comment, and the line itself where nobody listens. -/
def payloadLine (muted : Bool) : Read ν σ Unit := do
  r.publishComment
  if muted then r.copyLine

def payloadHead (muted : Bool) : Read ν σ Unit := do
  if muted then r.copyLine
  r.publishComment

/-- The number of steps that suffice for a payload: one for each line that is left, and one more. -/
def payloadBound : Read ν σ Nat := do
  pure ((← get).source.lines.length + 1)

/-- The labels of a packed switch, from the current line to its end. -/
def packedLabels (muted : Bool) : Nat → Read ν σ (List String)
  | 0 => throw .endOfSource
  | n + 1 => do
    let word ← nextWord
    r.payloadLine muted
    let c ← firstChar word
    if c == ':' then
      r.nextLine
      pure (labelName word :: (← packedLabels muted n))
    else if occurs Keyword.close.text.toList word.toList then pure []
    else
      r.nextLine
      packedLabels muted n

/-- The branches of a switch over consecutive keys. -/
def packedSwitch : Read ν σ Unit := do
  let muted ← methodMuted
  let _ ← nextWord
  let first ← peekWord
  r.payloadHead muted
  r.nextLine
  let labels ← r.packedLabels muted ((← payloadBound) + 1)
  unless ← methodMuted do
    r.tell (.packedSwitch (.text first) (.texts labels))

def isPayloadEnd (w : String) : Read ν σ Bool := do
  let c ← firstChar w
  pure (c == '.' && w.toList.drop 1 == Keyword.close.text.toList)

def arrayValues (muted : Bool) : Nat → Read ν σ (List Datum)
  | 0 => throw .endOfSource
  | n + 1 => do
    r.nextLine
    let word ← peekWord
    r.payloadLine muted
    if ← isPayloadEnd word then pure []
    else
      let value ← attempt (Literal.parse word)
      pure (.literal value :: (← arrayValues muted n))

def arrayData : Read ν σ Unit := do
  let muted ← methodMuted
  let _ ← nextWord
  let width ← peekWord
  r.payloadHead muted
  let values ← r.arrayValues muted (← payloadBound)
  unless ← methodMuted do
    r.tell (.arrayData (.text width) (.list values))

/-- Sets the entry of a key: an old entry keeps its place. -/
def setBranch (k v : String) : List (String × String) → List (String × String)
  | [] => [(k, v)]
  | (k', v') :: es => if k' == k then (k, v) :: es else (k', v') :: setBranch k v es

def sparseBranches (muted : Bool) : Nat → List (String × String) → Read ν σ (List (String × String))
  | 0, _ => throw .endOfSource
  | n + 1, branches => do
    r.nextLine
    let key ← peekWord
    r.payloadLine muted
    if ← isPayloadEnd key then pure branches
    else
      let target ← lastWord
      sparseBranches muted n (setBranch key (labelName target) branches)

def sparseSwitch : Read ν σ Unit := do
  let muted ← methodMuted
  let _ ← nextWord
  r.payloadHead muted
  let branches ← r.sparseBranches muted (← payloadBound) []
  unless ← methodMuted do
    r.tell (.sparseSwitch (.table (branches.map fun (k, v) => (.text k, .text v))))
    r.publishComment

/-- The values of an array that runs over several lines, from the current line to its closing brace. -/
def listedValues (muted : Bool) : Nat → Read ν σ (List String)
  | 0 => throw .endOfSource
  | n + 1 => do
    match (← cleaned).getLast?, (← cleaned).head? with
    | some stop, some start =>
      if stop == '}' || start == '}' then pure []
      else
        let value := trimEnd (· == ',') (← peekWord)
        r.publishComment
        if muted then r.copyLine
        r.nextLine
        pure (value :: (← listedValues muted n))
    | _, _ => throw .noElement

/-- A value of an annotation that is no directive, behind its name and the equals sign. -/
def plainValue (name : String) : Read ν σ Unit := do
  let muted ← annotMuted
  let text ← cleaned
  if muted then r.copyLine
  if text.contains '{' then
    let values ← if text.contains '}' then braced else do
      r.publishComment
      r.nextLine
      r.listedValues muted ((← payloadBound) + 1)
    unless ← annotMuted do
      r.tell (.array (.text name) (.texts values))
  else
    unless ← annotMuted do
      let value ← peekWord
      r.tell (.value (.text name) (.text value))

end Dalvik.Reader
