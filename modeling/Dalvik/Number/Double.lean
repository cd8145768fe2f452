import Dalvik.Number.Power

/-!
# Double-precision numbers

A floating-point value is kept as its 64 bits. Finite values are read as `m · 2^q`, rationals are
rounded to the nearest value with ties to the even one, and comparison with integers is exact.
-/

namespace Dalvik

/-- A double-precision number by its bits. -/
structure Double where
  bits : UInt64
  deriving DecidableEq, Repr, Inhabited

namespace Double

def ofFloat (x : Float) : Double :=
  ⟨x.toBits⟩

def toFloat (x : Double) : Float :=
  Float.ofBits x.bits

def infinityBits : Nat := 0x7FF0000000000000

def signBit : Nat := 0x8000000000000000

def isNegative (x : Double) : Bool :=
  decide (signBit ≤ x.bits.toNat)

def magnitude (x : Double) : Nat :=
  x.bits.toNat % signBit

def isNaN (x : Double) : Bool :=
  decide (infinityBits < x.magnitude)

def isFinite (x : Double) : Bool :=
  decide (x.magnitude < infinityBits)

def isZero (x : Double) : Bool :=
  x.magnitude == 0

/-- The number with a sign and the bits of a magnitude. -/
def ofMagnitude (negative : Bool) (bits : Nat) : Double :=
  ⟨UInt64.ofNat (if negative then signBit + bits else bits)⟩

/-- The integer `m` of a finite value `m · 2^q`, without the sign. -/
def mantissa (x : Double) : Nat :=
  let e := x.magnitude / Number.twoPow 52
  let f := x.magnitude % Number.twoPow 52
  if e == 0 then f else Number.twoPow 52 + f

/-- The exponent `q` of a finite value `m · 2^q`. -/
def exponent (x : Double) : Int :=
  let e : Nat := x.magnitude / Number.twoPow 52
  if e == 0 then -1074 else (e : Int) - 1075

/-- The quotient of two naturals, rounded to the nearest natural with ties to the even one. -/
def roundQuotient (n d : Nat) : Nat :=
  let q := n / d
  let r := n % d
  if 2 * r < d then q else if d < 2 * r then q + 1 else if q % 2 == 0 then q else q + 1

/-- The exponent of the leading binary digit of `num / den`, both positive. -/
def leadingExponent (num den : Nat) : Int :=
  let k : Int := (num.log2 : Int) - (den.log2 : Int)
  if den * Number.twoPow k.toNat ≤ num * Number.twoPow (-k).toNat then k else k - 1

/-- The bits of the value nearest to `num / den`; a quotient that is too large gives infinity. -/
def roundRatio (num den : Nat) : Nat :=
  if num == 0 then 0
  else
    let q : Int := max (leadingExponent num den - 52) (-1074)
    let m := roundQuotient (num * Number.twoPow (-q).toNat) (den * Number.twoPow q.toNat)
    min ((q + 1074).toNat * Number.twoPow 52 + m) infinityBits

def ofRatio (negative : Bool) (num den : Nat) : Double :=
  ofMagnitude negative (roundRatio num den)

/-- The value nearest to an integer, or `none` when it is out of range. -/
def ofInt? (n : Int) : Option Double :=
  let x := ofRatio (decide (n < 0)) n.natAbs 1
  if x.isFinite then some x else none

def zero : Double := ⟨0⟩

def infinity : Double := ofMagnitude false infinityBits

/-- A number that compares with nothing. -/
def nan : Double := ofMagnitude false (infinityBits + Number.twoPow 51)

/-- A finite value as a numerator over a power of two: `n / 2^k`, with `k` natural. -/
def scaled (x : Double) : Int × Nat :=
  let n := x.mantissa * Number.twoPow x.exponent.toNat
  (if x.isNegative then -(n : Int) else (n : Int), (-x.exponent).toNat)

/-- The order of an integer and a number, exact. There is none with NaN. -/
def compareInt? (n : Int) (x : Double) : Option Ordering :=
  if x.isNaN then none
  else if x.isFinite then
    let (m, k) := x.scaled
    some (compare (n * Number.twoPow k) m)
  else some (if x.isNegative then .gt else .lt)

/-- The order of two numbers. There is none with NaN, and both zeros are equal. -/
def compare? (x y : Double) : Option Ordering :=
  if x.isNaN || y.isNaN then none
  else
    let key (z : Double) : Int := if z.isNegative then -(z.magnitude : Int) else (z.magnitude : Int)
    some (compare (key x) (key y))

def add (x y : Double) : Double := ofFloat (x.toFloat + y.toFloat)

def sub (x y : Double) : Double := ofFloat (x.toFloat - y.toFloat)

def mul (x y : Double) : Double := ofFloat (x.toFloat * y.toFloat)

/-- The quotient; the divisor is not zero. -/
def div (x y : Double) : Double := ofFloat (x.toFloat / y.toFloat)

def neg (x : Double) : Double :=
  ofMagnitude (!x.isNegative) x.magnitude

def copySign (x y : Double) : Double :=
  ofMagnitude y.isNegative x.magnitude

/-- The remainder of a division that rounds toward zero; it is exact and has the sign of the
dividend. -/
def truncRem (x y : Double) : Double :=
  if x.isNaN || y.isNaN || !x.isFinite || y.isZero then nan
  else if !y.isFinite then x
  else
    let e := min x.exponent y.exponent
    let a := x.mantissa * Number.twoPow (x.exponent - e).toNat
    let b := y.mantissa * Number.twoPow (y.exponent - e).toNat
    let r := a % b
    ofRatio x.isNegative (r * Number.twoPow e.toNat) (Number.twoPow (-e).toNat)

def floor (x : Double) : Double := ofFloat x.toFloat.floor

/-- Quotient and remainder of a division that rounds down: the remainder has the sign of the divisor,
which is not zero. -/
def floorDivMod (x y : Double) : Double × Double :=
  let m := truncRem x y
  let d := (x.sub m).div y
  let (m, d) :=
    if m.isZero then (zero.copySign y, d)
    else if y.isNegative != m.isNegative then (m.add y, d.sub (ofRatio false 1 1))
    else (m, d)
  let q :=
    if d.isZero then zero.copySign (x.div y)
    else
      let f := d.floor
      if (d.sub f).compare? (ofRatio false 1 2) == some .gt then f.add (ofRatio false 1 1) else f
  (q, m)

end Double

end Dalvik
