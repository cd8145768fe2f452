import Dalvik.Datum
import Dalvik.Number.Power

/-!
# Access flags

Every modifier has a keyword and a bit of its own. A set of modifiers is an integer, of which only the
bits below count; negative integers have all high bits set. Members, listings and the names of a set ask with
plain integers, which have to share a bit with the set (`meets`). A set that is compared with another set has to be
covered by it (`coversDatum`); nothing in this library compares sets so, only its callers do.
-/

namespace Dalvik.Access

/-- The keywords of the modifiers; the position of a keyword is the position of its bit. -/
def keywords : List String :=
  ["public", "private", "protected", "static", "final", "synchronized", "volatile", "bridge",
   "transient", "varargs", "native", "interface", "abstract", "strictfp", "synthetic", "annotation",
   "enum", "constructor", "declared-synchronized", "system", "runtime", "build"]

def isKeyword (s : String) : Bool :=
  keywords.contains s

/-- The bits of an integer below the highest bit of a mask, as a number. -/
def lowBits (n : Int) (mask : Nat) : Nat :=
  (n % (Number.twoPow (mask.log2 + 1) : Nat)).toNat

def common (n : Int) (mask : Nat) : Nat :=
  lowBits n mask &&& mask

def meets (n : Int) (mask : Nat) : Bool :=
  common n mask != 0

/-- A keyword in lower case; no character beyond the Latin letters has a keyword's letter as its lower
case. -/
def lowerCase (s : String) : String :=
  String.ofList (s.toList.map Char.toLower)

/-- The bit of a keyword, in any case of its letters; zero for any other text. -/
def bit (s : String) : Nat :=
  match keywords.findIdx? (· == lowerCase s) with
  | some i => Number.twoPow i
  | none => 0

def flags (names : List String) : Nat :=
  names.foldl (fun n s => n ||| bit s) 0

/-- The keywords of the bits of a plain integer. -/
def names (n : Int) : List String :=
  keywords.zipIdx.filterMap fun (s, i) => if meets n (Number.twoPow i) then some s else none

/-- The set of modifiers of an integer, as a mask. A negative integer is taken modulo a power of two that
covers it and all modifiers. -/
def mask (n : Int) : Nat :=
  let width :=
    max keywords.length (if -n ≤ (Number.twoPow keywords.length : Nat) then 0 else n.natAbs.log2 + 1)
  if 0 ≤ n then n.toNat else (n + (Number.twoPow width : Nat)).toNat

/-- Whether a set of modifiers meets a datum, which has to be an integer. -/
def meetsDatum (d : Datum) (of : Int) : Except Fault Bool :=
  match d.int? with
  | some n => .ok (meets n (mask of))
  | none => .error (.unsupportedFlags d.typeName)

/-- Whether a set of modifiers covers the set of a datum, which has to be an integer. -/
def coversDatum (d : Datum) (of : Int) : Except Fault Bool :=
  match d.int? with
  | some n => .ok (common (mask n) (mask of) == mask n)
  | none => .error .numeral

/-- The integer of a datum that can be walked over: texts count as keywords, all else is passed over. -/
def flagsOf? (d : Datum) : Except Fault Nat :=
  match d.items? with
  | some items => .ok (flags (items.filterMap Datum.text?))
  | none => .error .operandType

def publicBit : Nat := 0x1

def static : Nat := 0x8

def final : Nat := 0x10

def interface : Nat := 0x800

def abstract : Nat := 0x1000

end Dalvik.Access
