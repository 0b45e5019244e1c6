/-!
# Binary32 numbers as dyadic fractions

`Dyadic.ofFinite` takes a finite scalar apart into `significand * 2 ^ exponent`, without its sign.
The reals that round to it form an interval around it, whose ends belong to it when the
significand is even; below a power of two the interval reaches only half as far.
-/

namespace PolicyValue.Decimal

/-- The fraction `significand * 2 ^ exponent`, as a binary32 number. -/
structure Dyadic where
  /-- The integral significand, below `2 ^ 24`. -/
  significand : Nat
  /-- The power of two it is multiplied by. -/
  exponent : Int
  /-- The next smaller number is only half as far as the next greater one. -/
  narrow : Bool
deriving DecidableEq, Repr

namespace Dyadic

/-- The magnitude of a finite scalar. -/
def ofFinite (x : Float32) : Dyadic :=
  let bits := x.toBits.toNat % Nat.pow 2 31
  let biased : Nat := bits / Nat.pow 2 23
  let field : Nat := bits % Nat.pow 2 23
  if biased = 0 then ⟨field, -149, false⟩
  else ⟨field + Nat.pow 2 23, (biased : Int) - 150, field = 0 && 1 < biased⟩

/-- The factors `a` and `b` for which `n * 2 ^ exponent` compares with `d * 10 ^ k` as `n * a` does
with `d * b`. -/
def factors (exponent k : Int) : Nat × Nat :=
  (Nat.pow 2 exponent.toNat * Nat.pow 10 (-k).toNat,
    Nat.pow 10 k.toNat * Nat.pow 2 (-exponent).toNat)

/-- A power of ten above the fraction: its exponent, read off the number of bits. -/
def decadeAbove (v : Dyadic) : Int :=
  (v.exponent + v.significand.log2 + 1) * 30103 / 100000 + 1

end Dyadic

/-- Whether the sign bit of a scalar is set. -/
def isNegative (x : Float32) : Bool := x.toBits.toNat / Nat.pow 2 31 = 1

end PolicyValue.Decimal
