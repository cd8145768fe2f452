import Dalvik.Descriptor

/-!
# Method signatures

A signature is a text of the form `owner->name(parameters)result`; its parts are read off on demand,
and a part that is not there is a fault of its own.
-/

namespace Dalvik

open Dalvik.Text

structure Signature where
  text : String
  deriving DecidableEq, Repr, Inhabited

namespace Signature

/-- A signature as it stands inside a list. -/
def display (s : Signature) : String :=
  s!"Signature(\"{s.text}\")"

def init : String := "<init>"

def classInit : String := "<clinit>"

/-- A name without the angle brackets around it. -/
def plainName (s : String) : String :=
  trimStart (· == '<') (trimEnd (· == '>') s)

/-- The name in front of the parameter list; only the two special names keep their brackets. -/
def name (s : Signature) : Except Fault String :=
  match find? ['('] s.text.toList with
  | none => .error (.namelessSignature s.text)
  | some i =>
    let front := s.text.toList.take i
    let local_ := match find? ['-', '>'] front with
      | some j => front.drop (j + 2)
      | none => front
    let n := String.ofList local_
    .ok (if n = init ∨ n = classInit then n else plainName n)

/-- The class in front of the arrow. -/
def owner? (s : Signature) : Except Fault (Option Descriptor) :=
  match splitParts "->" s.text with
  | owner :: _ :: _ => (Descriptor.ofString owner).map some
  | _ => .ok none

/-- Cuts a parameter list into descriptors: a bracket or the inside of a class name goes on, anything
else ends a descriptor. The flag says whether a class name is open. -/
def cutParameters : Bool → List Char → List Char → List (List Char)
  | _, part, [] => if part.isEmpty then [] else [part.reverse]
  | inName, part, c :: s =>
    let part := c :: part
    if c == 'L' then cutParameters true part s
    else
      let inName := inName && c != ';'
      if c == '[' || inName then cutParameters inName part s
      else part.reverse :: cutParameters inName [] s

def parameterTypes (s : Signature) : Except Fault (List Descriptor) :=
  match find? ['('] s.text.toList, find? [')'] s.text.toList with
  | some i, some j =>
    (cutParameters false [] ((s.text.toList.take j).drop (i + 1))).mapM fun p =>
      Descriptor.ofString (String.ofList p)
  | _, _ => .error .invalidSignature

def returnType (s : Signature) : Except Fault Descriptor :=
  match find? [')'] s.text.toList with
  | none => .error .invalidSignature
  | some j => Descriptor.ofString (String.ofList (s.text.toList.drop (j + 1)))

def descriptor (s : Signature) : Except Fault String :=
  match find? ['('] s.text.toList with
  | none => .error .missingDescriptor
  | some i => .ok (String.ofList (s.text.toList.drop i))

end Signature

/-- The signature that a descriptor stands for, if it stands for one. -/
def Descriptor.signature? (d : Descriptor) : Option Signature :=
  if d.isSignature then some ⟨d.text⟩ else none

end Dalvik
