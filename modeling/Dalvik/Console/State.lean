import Dalvik.Console.Files
import Dalvik.Machine.Loader

/-!
# The state of the console

The console has a machine with one object, the root, and one frame. What is typed is read into that frame
and done at once; definitions become members of the class of the root. Everything printed is kept in
order. The constructs that are open at the console are the console itself and whatever is being loaded.
-/

namespace Dalvik

structure Console where
  store : Store
  vm : Nat
  rootClass : Nat
  root : Value
  frame : Nat
  importing : Bool
  readsOnce : Bool
  imported : List String
  lastLine : String
  output : String
  deriving Inhabited

inductive Site where
  /-- The console itself, which is a class and a method at once. -/
  | console
  | loading (n : LoadNode)
  deriving DecidableEq, Repr, Inhabited

namespace Site

def hears : Site → Verb → Bool
  | console, v => Shape.classDef.hears v || Shape.method.hears v
  | loading n, v => n.shape.hears v

def hasShape : Site → Shape → Bool
  | console, s => s == .classDef || s == .method
  | loading n, s => n.shape == s

end Site

namespace Console

def rootRegister : String := "p0"

abbrev Step (α : Type) : Type := Read Site Console α

def state : Step Console := do
  pure (← get).world

def update (f : Console → Console) : Step Unit :=
  modify fun s => { s with world := f s.world }

def machine {α : Type} (x : Store.Act α) : Step α := do
  let (r, s) := x.run.run (← state).store
  update fun c => { c with store := s }
  Read.attempt r

def write (s : String) : Step Unit :=
  update fun c => { c with output := c.output ++ s }

def print (s : String) : Step Unit :=
  write (s ++ "\n")

/-- Prints what went wrong; a request is passed on. -/
def report (f : Fault) : Step Unit :=
  if f.isRequest then throw f else print ("Traceback: " ++ f.summary)

def setRegister (name : String) (v : Value) : Step Unit := do
  let frame := (← state).frame
  machine (Store.updateFrame frame fun f => { f with registers := f.registers.set name v })

def frameInfo : Step Frame := do
  machine (Store.frameInfo (← state).frame)

def rootSignature : String := "L<Root>;"

/-- Makes the machine of a console, its root and its frame. -/
def prepare : Store.Act (Nat × Nat × Value × Nat) := do
  let vm ← Store.newVm [] false false
  let c ← Store.newClass .null rootSignature (Access.publicBit + Access.final : Nat) []
  Store.registerClass c
  let root ← Store.newObject c
  let frame ← Store.newFrame { Frame.empty with vm? := some vm, registers := [(rootRegister, root)] }
  pure (vm, c, root, frame)

/-- A console over a store, which knows what files were read. -/
def make (readsOnce : Bool) (store : Store) (imported : List String) : Console :=
  match prepare.run.run store with
  | (.ok (vm, c, root, frame), store) =>
    ⟨store, vm, c, root, frame, false, readsOnce, imported, "", ""⟩
  | (.error _, store) => ⟨store, 0, 0, .null, 0, false, readsOnce, imported, "", ""⟩

def start (readsOnce : Bool) : Session Site Console :=
  ⟨⟨[]⟩, .start, [], make readsOnce .initial []⟩

/-- Another console beside one: it shares the store, the open constructs and the files that were read. -/
def another (readsOnce : Bool) (s : Session Site Console) : Session Site Console :=
  { s with world := make readsOnce s.world.store s.world.imported }

end Console

end Dalvik
