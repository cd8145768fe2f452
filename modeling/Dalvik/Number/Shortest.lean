import Dalvik.Number.Double

/-!
# Shortest decimal texts

The text of a floating-point number has the fewest digits that read back as the number; of two such
decimals the nearer one is written, and of two equally near the one with the even last digit. Small
and large magnitudes are written with an exponent.
-/

namespace Dalvik.Double

structure Decimal where
  digits : Nat
  exp : Int
  deriving DecidableEq, Repr

/-- The order of `a · 10^i` and `n · 2^j`, exact. -/
def compareScaled (a : Nat) (i : Int) (n : Nat) (j : Int) : Ordering :=
  compare (a * Number.tenPow i.toNat * Number.twoPow (-j).toNat)
    (n * Number.twoPow j.toNat * Number.tenPow (-i).toNat)

/-- Whether the gap to the next smaller magnitude is half the gap to the next larger one. -/
def narrowBelow (x : Double) : Bool :=
  x.magnitude % Number.twoPow 52 == 0 && decide (1 < x.magnitude / Number.twoPow 52)

/-- Whether a decimal lies among the magnitudes that round to the magnitude of `x`. -/
def readsBack (x : Double) (d : Decimal) : Bool :=
  let m := x.mantissa
  let lo := if x.narrowBelow then 4 * m - 1 else 4 * m - 2
  let hi := 4 * m + 2
  let closed := m % 2 == 0
  let below := compareScaled d.digits d.exp lo (x.exponent - 2)
  let above := compareScaled d.digits d.exp hi (x.exponent - 2)
  (below == .gt || (closed && below == .eq)) && (above == .lt || (closed && above == .eq))

/-- The least `k` with `m · 2^q < 10^k`, for a positive magnitude. -/
def decimalScale (x : Double) : Int :=
  let two : Int := (x.mantissa.log2 : Int) + x.exponent
  let guess : Int := two * 30103 / 100000 - 1
  let rec raise : Nat → Int → Int
    | 0, k => k
    | n + 1, k => if compareScaled 1 k x.mantissa x.exponent == .gt then k else raise n (k + 1)
  raise 6 guess

/-- The better of the two neighbours of the magnitude on the grid `10^e`, if one reads back. -/
def onGrid (x : Double) (e : Int) : Option Decimal :=
  let num := x.mantissa * Number.twoPow x.exponent.toNat * Number.tenPow (-e).toNat
  let den := Number.twoPow (-x.exponent).toNat * Number.tenPow e.toNat
  let lower : Decimal := ⟨num / den, e⟩
  let upper : Decimal := ⟨num / den + 1, e⟩
  match x.readsBack lower, x.readsBack upper with
  | false, false => none
  | true, false => some lower
  | false, true => some upper
  | true, true => some ⟨roundQuotient num den, e⟩

/-- Moves the zeros at the end of the digits into the exponent. -/
def stripZeros : Nat → Decimal → Decimal
  | 0, d => d
  | n + 1, d =>
    if d.digits ≠ 0 ∧ d.digits % 10 = 0 then stripZeros n ⟨d.digits / 10, d.exp + 1⟩ else d

/-- The decimal that is written for a positive magnitude. Seventeen digits always suffice; the exact
value stands behind them. -/
def shortest (x : Double) : Decimal :=
  let k := x.decimalScale
  let found := (List.range 17).findSome? fun (n : Nat) => x.onGrid (k - (n : Int) - 1)
  stripZeros 400 (found.getD
    ⟨x.mantissa * Number.twoPow x.exponent.toNat * Number.fivePow (-x.exponent).toNat, min x.exponent 0⟩)

/-- A decimal's layout: positional where the leading digit's exponent is from -4 to 15, otherwise with
an exponent of at least two digits and a sign. -/
def layout (d : Decimal) : String :=
  let ds := Nat.toDigits 10 d.digits
  let lead : Int := d.exp + (ds.length : Int) - 1
  if -4 ≤ lead ∧ lead < 16 then
    if 0 ≤ d.exp then String.ofList (ds ++ List.replicate d.exp.toNat '0') ++ ".0"
    else if 0 ≤ lead then
      String.ofList (ds.take (lead.toNat + 1)) ++ "." ++ String.ofList (ds.drop (lead.toNat + 1))
    else "0." ++ String.ofList (List.replicate (-lead - 1).toNat '0' ++ ds)
  else
    let fraction := if ds.length ≤ 1 then "" else "." ++ String.ofList (ds.drop 1)
    let e := Nat.toDigits 10 lead.natAbs
    String.ofList (ds.take 1) ++ fraction ++ "e" ++ (if lead < 0 then "-" else "+")
      ++ String.ofList (List.replicate (2 - e.length) '0' ++ e)

def toText (x : Double) : String :=
  if x.isNaN then "nan"
  else
    let sign := if x.isNegative then "-" else ""
    if !x.isFinite then sign ++ "inf"
    else if x.isZero then sign ++ "0.0"
    else sign ++ layout x.shortest

end Dalvik.Double
