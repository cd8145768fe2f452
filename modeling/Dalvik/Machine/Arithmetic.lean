import Dalvik.Machine.Compare

/-!
# Arithmetic

Operators on values. Integers are unbounded, division and remainder round down, and a truth value counts
as zero or one except where only bits are combined. A floating-point operand makes the result a
floating-point number. Texts, octets and lists can be joined and repeated.
-/

namespace Dalvik.Store

def floatOf (n : Int) : Act Double :=
  match Double.ofInt? n with
  | some x => pure x
  | none => throw .tooLarge

/-- Two numbers, brought to one type. -/
inductive Pair where
  | ints (a b : Int)
  | floats (a b : Double)

def pairOf (a b : Value) : Act (Option Pair) := do
  match a, b with
  | .float x, .float y => pure (some (.floats x y))
  | .float x, v =>
    match v.int? with
    | some n => pure (some (.floats x (← floatOf n)))
    | none => pure none
  | v, .float y =>
    match v.int? with
    | some n => pure (some (.floats (← floatOf n) y))
    | none => pure none
  | v, w =>
    match v.int?, w.int? with
    | some n, some m => pure (some (.ints n m))
    | _, _ => pure none

def repeated {α : Type} (n : Int) (xs : List α) : List α :=
  (List.replicate n.toNat xs).flatten

/-- A sequence repeated: a text, octets or a list. -/
def repeatValue (n : Int) : Value → Act Value
  | .text t => pure (.text (t.times n.toNat))
  | .octets bs => pure (.octets (repeated n bs))
  | .list i => do newList (repeated n (← items i))
  | _ => throw .operandType

/-- The sum of two values that are no numbers. -/
def join (a b : Value) : Act Value :=
  match a, b with
  | .text s, .text t => pure (.text (s ++ t))
  | .octets s, .octets t => pure (.octets (s ++ t))
  | .list i, .list j => do newList ((← items i) ++ (← items j))
  | _, _ => throw .operandType

/-- The product of two values that are no two numbers. -/
def multiple (a b : Value) : Act Value :=
  match a.int?, b.int? with
  | _, some n => repeatValue n a
  | some n, _ => repeatValue n b
  | _, _ => throw .operandType

def ratio (a b : Int) : Act Value :=
  if b = 0 then throw .zeroDivisor
  else
    let x := Double.ofRatio (decide (a < 0) != decide (b < 0)) a.natAbs b.natAbs
    if x.isFinite then pure (.float x) else throw .tooLarge

/-- The largest shift that is carried out. -/
def longestShift : Nat := Number.twoPow 40

def shiftUp (a b : Int) : Act Value :=
  if b < 0 then throw .negativeShift
  else if a = 0 then pure (.int 0)
  else if (longestShift : Int) < b then throw .tooLarge
  else pure (.int (a * Number.twoPow b.toNat))

def shiftDown (a b : Int) : Act Value :=
  if b < 0 then throw .negativeShift
  else if (a.natAbs.log2 : Int) < b then pure (.int (if a < 0 then -1 else 0))
  else pure (.int (a >>> b.toNat))

/-- Two integers combined bit by bit, as if each had its sign repeated without end. -/
def combineBits (f : Bool → Bool → Bool) (g : Nat → Nat → Nat) (a b : Int) : Int :=
  let width := max a.natAbs.log2 b.natAbs.log2 + 2
  let low (n : Int) : Nat := (n % (Number.twoPow width : Nat)).toNat
  let r := g (low a) (low b)
  if f (decide (a < 0)) (decide (b < 0)) then (r : Int) - (Number.twoPow width : Nat) else (r : Int)

/-- Whether a value gives its members by key, so that a text without places for them takes it. -/
def givesByKey : Value → Bool
  | .octets _ | .list _ | .object _ | .cls _ | .annot _ | .overloads _ => true
  | _ => false

/-- A text, or octets, with a value in its places, which are marked by percent signs. Only what has no
places is filled, by what gives its members by key; octets are not filled by octets. -/
def fill (template v : Value) : Act Value :=
  let (hasPlaces, fits) := match template, v with
    | .octets bs, .octets _ => (bs.contains 37, false)
    | .octets bs, _ => (bs.contains 37, givesByKey v)
    | .text t, _ => (t.points.contains 37, givesByKey v)
    | _, _ => (false, false)
  if hasPlaces || !fits then throw .operandType else pure template

def onInts (op : Operator) (a b : Int) : Act Value :=
  match op with
  | .add => pure (.int (a + b))
  | .sub => pure (.int (a - b))
  | .mul => pure (.int (a * b))
  | .floorDiv => if b = 0 then throw .zeroDivisor else pure (.int (a.fdiv b))
  | .trueDiv => ratio a b
  | .mod => if b = 0 then throw .zeroDivisor else pure (.int (a.fmod b))
  | .shl => shiftUp a b
  | .shr => shiftDown a b
  | .and => pure (.int (combineBits (· && ·) (· &&& ·) a b))
  | .or => pure (.int (combineBits (· || ·) (· ||| ·) a b))
  | .xor => pure (.int (combineBits (· != ·) (· ^^^ ·) a b))

def onFloats (op : Operator) (x y : Double) : Act Value :=
  match op with
  | .add => pure (.float (x.add y))
  | .sub => pure (.float (x.sub y))
  | .mul => pure (.float (x.mul y))
  | .floorDiv => if y.isZero then throw .zeroDivisor else pure (.float (x.floorDivMod y).1)
  | .trueDiv => if y.isZero then throw .zeroDivisor else pure (.float (x.div y))
  | .mod => if y.isZero then throw .zeroDivisor else pure (.float (x.floorDivMod y).2)
  | .shl | .shr | .and | .or | .xor => throw .operandType

def onOthers (op : Operator) (a b : Value) : Act Value :=
  match op, a with
  | .add, _ => join a b
  | .mul, _ => multiple a b
  | .mod, .text _ | .mod, .octets _ => fill a b
  | _, _ => throw .operandType

def apply (op : Operator) (a b : Value) : Act Value := do
  match op, a, b with
  | .and, .bool p, .bool q => pure (.bool (p && q))
  | .or, .bool p, .bool q => pure (.bool (p || q))
  | .xor, .bool p, .bool q => pure (.bool (p != q))
  | .shl, .float _, _ | .shl, _, .float _ | .shr, .float _, _ | .shr, _, .float _
  | .and, .float _, _ | .and, _, .float _ | .or, .float _, _ | .or, _, .float _
  | .xor, .float _, _ | .xor, _, .float _ => throw .operandType
  | _, _, _ =>
    match ← pairOf a b with
    | some (.ints n m) => onInts op n m
    | some (.floats x y) => onFloats op x y
    | none => onOthers op a b

/-- The members of a value that a list can be extended by. -/
def membersOf : Value → Act (List Value)
  | .list i => items i
  | .text t => pure (t.points.map fun n => .text ⟨[n]⟩)
  | .octets bs => pure (bs.map fun b => .int b.toNat)
  | .overloads i => do pure ((← overloadInfo i).methods.map Value.method)
  | .object _ => throw (.noSuchField "0")
  | .cls _ => throw .emptyKey
  | .annot _ => throw .endless
  | _ => throw .operandType

/-- What an operator does in place: a list is extended or repeated itself. -/
def applyInPlace (op : Operator) (a b : Value) : Act Value := do
  match op, a with
  | .add, .list i =>
    let more ← membersOf b
    setItems i ((← items i) ++ more)
    pure a
  | .mul, .list i =>
    match b.int? with
    | some n =>
      setItems i (repeated n (← items i))
      pure a
    | none => throw .operandType
  | _, _ => apply op a b

def negated (v : Value) : Act Value :=
  match v with
  | .float x => pure (.float x.neg)
  | _ =>
    match v.int? with
    | some n => pure (.int (-n))
    | none => throw .operandType

def complemented (v : Value) : Act Value :=
  match v.int? with
  | some n => pure (.int (-n - 1))
  | none => throw .operandType

/-- The bits of an integer that a mask keeps. -/
def masked (v : Value) (mask : Nat) : Act Int :=
  match v.int? with
  | some n => pure (combineBits (· && ·) (· &&& ·) n mask)
  | none => throw .operandType

/-- A value as a floating-point number: a number, or a numeral as a text or as octets. -/
def toFloat (v : Value) : Act Value :=
  let numeral (cs : List Char) : Act Value :=
    match Number.parseDouble? cs with
    | some x => pure (.float x)
    | none => throw .numeral
  match v with
  | .float x => pure (.float x)
  | .text t => if t.hasSurrogate then throw .numeral else numeral t.toString.toList
  | .octets bs => if bs.all (· < 128) then numeral (bs.map fun b => Char.ofNat b.toNat) else throw .numeral
  | _ =>
    match v.int? with
    | some n => do pure (.float (← floatOf n))
    | none => throw .operandType

/-- The integer that is packed into four octets, highest first. -/
def unpacked (v : Value) : Act Value :=
  match v with
  | .octets [a, b, c, d] =>
    let n := ((a.toNat * 256 + b.toNat) * 256 + c.toNat) * 256 + d.toNat
    pure (.int (if n < Number.twoPow 31 then n else (n : Int) - Number.twoPow 32))
  | .octets _ => throw .packing
  | _ => throw .operandType

end Dalvik.Store
