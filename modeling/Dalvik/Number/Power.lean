/-!
# Powers

The powers of natural numbers that words, flags and decimals are made of.
-/

namespace Dalvik.Number

abbrev twoPow (k : Nat) : Nat := Nat.pow 2 k

abbrev fivePow (k : Nat) : Nat := Nat.pow 5 k

abbrev tenPow (k : Nat) : Nat := Nat.pow 10 k

end Dalvik.Number
