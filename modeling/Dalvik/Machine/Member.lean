import Dalvik.Access
import Dalvik.Machine.Compare
import Dalvik.Machine.Show
import Dalvik.Signature

/-!
# Classes, members and objects

How classes and their members are made and found, and how objects keep the values of their fields. A
static field keeps its value itself; the objects of its class see it there.
-/

namespace Dalvik.Store

/-- What all members have in common. A member can belong only to a member, or to nothing. -/
def newMember (type : String) (parent : Value) (signature : String) (modifiers : Int)
    (annots : List Value) : Act Member := do
  let d ← attempt (Descriptor.ofString type)
  if !parent.isMember && (← holds parent) then throw .foreignParent
  pure ⟨d, signature, modifiers, annots, parent⟩

/-- A member of a class that is derived from a class of members is refused, once its type is read. -/
def newDerived (base type : String) : Act Member := do
  let _ ← attempt (Descriptor.ofString type)
  throw (.sealedMember base)

def newClass (parent : Value) (signature : String) (modifiers : Int) (annots : List Value) :
    Act Nat := do
  let m ← newMember signature parent signature modifiers annots
  let i := (← get).classes.size
  let info : ClassInfo :=
    { toMember := m, name := .ofString m.type.prettyName, simpleName := m.type.simpleName, fields := [],
      methods := [], super := .null, interfaces := [], inner := [] }
  modify fun s => { s with classes := s.classes.push info }
  pure i

def newField (type : String) (parent : Value) (signature : String) (modifiers : Int) (name : String)
    (value : Value) : Act Nat := do
  let m ← newMember type parent signature modifiers []
  let i := (← get).fields.size
  modify fun s => { s with fields := s.fields.push { toMember := m, name := name, value := value } }
  pure i

def newAnnot (parent : Value) (signature : String) (modifiers : Int) : Act Nat := do
  let m ← newMember signature parent signature modifiers []
  let i := (← get).annots.size
  modify fun s => { s with annots := s.annots.push { toMember := m, values := [] } }
  pure i

/-- Makes a method of a class. Its type is the type of the class and its signature. -/
def newMethod (vm? : Option Nat) (owner : Nat) (signature : String) (modifiers : Int) : Act Nat := do
  let type := (← classInfo owner).type.text ++ "->" ++ signature
  let m ← newMember type (.cls owner) signature modifiers []
  match m.type.signature? with
  | none => throw (.notASignature m.type.text)
  | some sig =>
    let name ← attempt sig.name
    let parameters ← attempt sig.parameterTypes
    let result ← attempt sig.returnType
    let i := (← get).methods.size
    let info : MethodInfo :=
      { toMember := m, vm? := vm?, name := .ofString name, parameters := parameters, result := result,
        locals? := none }
    modify fun s => { s with methods := s.methods.push info }
    pure i

/-- Enters a field, a method or a class into a class. Methods of one name are collected. -/
def setMember (owner : Nat) (key : String) (v : Value) : Act Unit := do
  if key.isEmpty then throw .invalidKey
  match v with
  | .method m =>
    match (← classInfo owner).methods.get? key with
    | some i =>
      modify fun s =>
        { s with overloads := s.overloads.modify i fun o => { o with methods := o.methods ++ [m] } }
    | none =>
      let i := (← get).overloads.size
      modify fun s => { s with overloads := s.overloads.push ⟨key, [m]⟩ }
      updateClass owner fun c => { c with methods := c.methods.set key i }
  | .field f => updateClass owner fun c => { c with fields := c.fields.set key f }
  | .cls d => updateClass owner fun c => { c with inner := c.inner.set key d }
  | _ => pure ()

def withSignature (signature : String) : List Nat → Act (Option Nat)
  | [] => pure none
  | m :: ms => do
    if (← methodInfo m).signature == signature then pure (some m) else withSignature signature ms

/-- Finds the methods of a name, or the method of a signature, in a table of methods. -/
def methodIn (signature : String) : Table String Nat → Act (Option Value)
  | [] => pure none
  | (name, i) :: rest => do
    if name == signature then pure (some (.overloads i))
    else
      match ← withSignature signature (← overloadInfo i).methods with
      | some m => pure (some (.method m))
      | none => methodIn signature rest

def methodOf (owner : Nat) (signature : String) : Act Value := do
  match ← methodIn signature (← classInfo owner).methods with
  | some v => pure v
  | none => throw (.noSuchMethod signature)

def fieldOf (owner : Nat) (name : String) : Act Nat := do
  match (← classInfo owner).fields.get? name with
  | some f => pure f
  | none => throw (.noSuchField name)

def innerOf (owner : Nat) (name : String) : Act Nat := do
  match (← classInfo owner).inner.get? name with
  | some c => pure c
  | none => throw (.noSuchInner name)

/-- All methods of a class, by name and then in order. -/
def declaredMethods (owner : Nat) : Act (List Nat) := do
  let mut result := []
  for (_, i) in (← classInfo owner).methods do
    result := result ++ (← overloadInfo i).methods
  pure result

/-- The methods of a class that meet a set of modifiers, if one is given. -/
def methodsWith (owner : Nat) (access : Option Nat) : Act (List Nat) := do
  match access with
  | none => declaredMethods owner
  | some mask =>
    (← declaredMethods owner).filterM fun m => do
      pure (Access.meets (← methodInfo m).modifiers mask)

/-- The names of the fields of a class. A set of modifiers cannot tell names apart, so only an empty one is
accepted where there are any. -/
def fieldsWith (owner : Nat) (access : Option Nat) : Act (List String) := do
  let names := (← classInfo owner).fields.map (·.1)
  if access.getD 0 = 0 ∨ names = [] then pure names else throw .noOperation

/-- Whether an annotation of a type is present among the annotations of a member: the annotations are
compared with the name of the type. -/
def annotPresent (m : Member) (of : Value) : Act Bool := do
  let name? : Option Value := match of with
    | .type _ d => some (.ofString d.text)
    | .text t => some (.text t)
    | _ => none
  match name? with
  | none => pure false
  | some name => m.annots.anyM fun a => equal name a

/-- The annotations of a type; they cannot be looked up by name. -/
def annotsOf (of : Value) : Act (List Value) :=
  match of with
  | .type _ _ | .text _ => throw .noOperation
  | _ => pure []

/-- The field under a key, which has to be a text that is not empty. -/
def fieldAt (owner : Nat) (key : Value) : Act Value := do
  match key with
  | .text t =>
    if t.points.isEmpty then throw .emptyKey else pure (.field (← fieldOf owner t.toString))
  | _ => throw .emptyKey

inductive Attribute where
  | super | name | value | locals
  deriving DecidableEq, Repr

/-- Sets an attribute. The name of a field is fixed and the number of a method's local registers has to be
an integer; an attribute that a member does not have is ignored. -/
def setAttribute (a : Attribute) (m v : Value) : Act Unit :=
  match a, m with
  | .super, .cls c => updateClass c fun x => { x with super := v }
  | .name, .cls c => updateClass c fun x => { x with name := v }
  | .name, .method i => updateMethod i fun x => { x with name := v }
  | .name, .field _ => throw .noOperation
  | .value, .field f => updateField f fun x => { x with value := v }
  | .locals, .method i =>
    match v.int? with
    | some n => updateMethod i fun x => { x with locals? := some n }
    | none => throw .badLocals
  | _, _ => pure ()

def registerClass (c : Nat) : Act Unit := do
  let sig := (← classInfo c).signature
  modify fun s => { s with classTable := s.classTable.set sig c }

/-- Registers a class that may be missing, where there has to be one. -/
def registerClass? (c? : Option Nat) : Act Nat := do
  match c? with
  | none => throw .nullClass
  | some c =>
    registerClass c
    pure c

def classNamed (name : String) : Act Nat := do
  match (← get).classTable.get? name with
  | some c => pure c
  | none => throw (.noSuchClass name)

/-- Registers the frame of a method, unless a method of the same type has one. -/
def registerFrame (vm method frame : Nat) : Act Unit := do
  let key := (← methodInfo method).type.text
  unless (← get).frameTable.has key do
    modify fun s => { s with frameTable := s.frameTable.set key frame }
    updateFrame frame fun f => { f with vm? := some vm }

/-- The fields of a new object: all that are not static, without values. -/
def freshValues : Table String Nat → Act (Table String Value)
  | [] => pure []
  | (_, f) :: rest => do
    let info ← fieldInfo f
    let others ← freshValues rest
    pure (if Access.meets info.modifiers Access.static then others else (info.name, .null) :: others)

/-- Makes an object of a class. A class that is only abstract, or only an interface, has none. -/
def newObject (c : Nat) : Act Value := do
  let info ← classInfo c
  if info.modifiers = Access.abstract ∨ info.modifiers = Access.interface then throw .abstractClass
  let values := (← freshValues info.fields).foldl (fun t (k, v) => Table.set t k v) ([] : Table String Value)
  let i := (← get).objects.size
  modify fun s => { s with objects := s.objects.push ⟨c, values⟩ }
  pure (.object i)

def getField (o : Nat) (name : String) : Act Value := do
  let info ← objectInfo o
  let field ← fieldInfo (← fieldOf info.cls name)
  if Access.meets field.modifiers Access.static then pure field.value
  else
    match info.values.get? name with
    | some v => pure v
    | none => throw (.unsetField name)

/-- Sets the value of an object's field, which must not be final. -/
def setField (o : Nat) (name : String) (v : Value) : Act Unit := do
  let info ← objectInfo o
  let f ← fieldOf info.cls name
  let field ← fieldInfo f
  if Access.meets field.modifiers Access.final then
    throw (.readOnlyField (← plain (← classInfo info.cls).name) name)
  if Access.meets field.modifiers Access.static then updateField f fun x => { x with value := v }
  updateObject o fun x => { x with values := x.values.set name v }

def hasField (o : Nat) (name : String) : Act Bool := do
  pure ((← classInfo (← objectInfo o).cls).fields.has name)

/-- Whether objects of a class can be used where another class is wanted. Only the very same super class
counts; a search that would go on for ever is a fault. -/
def assignable (c : Nat) (other : Option Nat) : Act Bool := do
  match other with
  | none => pure false
  | some d =>
    let super := (← classInfo d).super
    if !(← holds super) then pure false
    else if !(← unequal super (.ofString "Ljava/lang/Object;")) then pure false
    else if ← equal super (.cls c) then pure true
    else if ← equal super (← classInfo c).super then pure true
    else throw .endless

end Dalvik.Store
