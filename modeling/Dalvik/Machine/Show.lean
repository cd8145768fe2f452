import Dalvik.Machine.Overload
import Dalvik.Machine.Store

/-!
# Showing values

A value is shown in two ways: on its own, and inside a list or a table. Whatever has no text of its own is
shown with its number, which is given out in the order of asking. A list that holds itself is cut short.
-/

namespace Dalvik.Store

open Dalvik.Text

def hexadecimal (n : Nat) : String :=
  String.ofList (Nat.toDigits 16 n)

def quoteOctet (quote : Nat) (b : UInt8) : String :=
  let n := b.toNat
  if n == quote || n == 92 then String.ofList ['\\', Char.ofNat n]
  else if n == 9 then "\\t"
  else if n == 10 then "\\n"
  else if n == 13 then "\\r"
  else if n < 32 || 127 ≤ n then "\\x" ++ hexPadded 2 n
  else String.ofList [Char.ofNat n]

def displayOctets (bs : List UInt8) : String :=
  let quote := if bs.contains 39 && !bs.contains 34 then 34 else 39
  let mark := String.ofList [Char.ofNat quote]
  "b" ++ mark ++ String.join (bs.map (quoteOctet quote)) ++ mark

def memberSort : Value → String
  | .cls _ => "SmaliClass"
  | .method _ => "SmaliMethod"
  | .field _ => "SmaliField"
  | _ => "SmaliAnnotation"

/-- A value as it is shown inside a list, where nothing is nested more than `n` deep. The lists that are
being shown already are given. -/
def displayWithin : Nat → List Nat → Value → Act String
  | _, _, .null => pure "None"
  | _, _, .bool b => pure (if b then "True" else "False")
  | _, _, .int n => pure (toString n)
  | _, _, .float x => pure x.toText
  | _, _, .text t => pure (quoted t)
  | _, _, .octets bs => pure (displayOctets bs)
  | _, _, .type _ d => pure (Literal.type d).display
  | 0, _, .list _ => throw .endless
  | n + 1, active, .list i => do
    if active.contains i then pure "[...]"
    else
      let shown ← (← items i).mapM (displayWithin n (i :: active))
      pure ("[" ++ ", ".intercalate shown ++ "]")
  | _, _, .object i => do
    let id ← number (.value (.object i))
    pure s!"<SmaliObject@{hexadecimal id}>"
  | _, _, .overloads i => do
    let name := (← overloadInfo i).name
    let id ← number (.value (.overloads i))
    pure (Overload.display name id)
  | _, _, .error i => do
    let name := (← errorInfo i).name
    let id ← number (.value (.error i))
    pure s!"<{name} at {id}"
  | _, _, v => do
    match ← member? v with
    | some m =>
      let id ← number (.value v)
      pure s!"<{memberSort v} '{m.signature}' at 0x{hexadecimal id}>"
    | none => pure ""

def display (v : Value) : Act String :=
  displayWithin nestingLimit [] v

/-- A value as it is shown on its own, where errors carry each other at most `n` deep. -/
def showWithin : Nat → Value → Act Text
  | _, .text t => pure t
  | _, .type _ d => pure (.ofString d.text)
  | _, .object i => do
    let o ← objectInfo i
    let sig := (← classInfo o.cls).signature
    let id ← number (.value (.object i))
    pure (.ofString s!"<SmaliObject@{hexadecimal id} fields={o.values.length} type=<SmaliClass {sig}>")
  | _, .overloads i => do pure (.ofString (← overloadInfo i).name)
  | 0, .error _ => throw .endless
  | n + 1, .error i => do
    let e ← errorInfo i
    match e.carried with
    | none => pure (.ofString "")
    | some v =>
      let t ← showWithin n v
      if t.hasSurrogate then pure t
      else pure (.ofString (e.name.intercalate (splitParts "ExecutionError" t.toString)))
  | _, v => do
    match ← member? v with
    | some m => pure (.ofString s!"<{memberSort v} {m.signature}>")
    | none => pure (.ofString (← display v))

def plainText (v : Value) : Act Text :=
  showWithin nestingLimit v

def plain (v : Value) : Act String := do
  pure (← plainText v).toString

def raiseValue {α : Type} : Value → Act α
  | .error i => do
    let name := (← errorInfo i).name
    throw (.raised name (← plain (.error i)))
  | v => do raise (← plain v) ""

end Dalvik.Store
