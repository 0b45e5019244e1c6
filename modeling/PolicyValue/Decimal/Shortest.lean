import PolicyValue.Decimal.Dyadic

/-!
# Shortest decimals

The shortest decimal of a binary32 number is the multiple of the greatest power of ten that still
rounds to the number; of several such multiples it is the nearest one, and a tie is broken by rule.

* `multiples`: the multiples of a power of ten that round to a number, as a range;
* `coarsen`: the same for the greatest power of ten that has any;
* `nearest`: the one of a range that is nearest to the number;
* `shortest`: all of this together.
-/

namespace PolicyValue.Decimal

/-- The number `digits * 10 ^ exponent`. -/
structure Shortest where
  /-- The significant digits, as a number. -/
  digits : Nat
  /-- The power of ten they are multiplied by. -/
  exponent : Int
deriving DecidableEq, Repr

/-- Which of two equally near decimals is taken. -/
inductive Tie where
  /-- The one whose last digit is even. -/
  | toEven
  /-- The greater one. -/
  | up
deriving DecidableEq, Repr

/-- The multiples `d * 10 ^ exponent` with `low ≤ d ≤ high`. -/
structure Multiples where
  /-- The least factor. -/
  low : Nat
  /-- The greatest factor. -/
  high : Nat
  /-- The exponent of the power of ten. -/
  exponent : Int
deriving DecidableEq, Repr

/-- The multiples of `10 ^ k` that round to a number.  In quarters of its last place, the reals
that do so reach from two below it, or one below a power of two, to two above it. -/
def multiples (v : Dyadic) (k : Int) : Multiples :=
  let (a, b) := Dyadic.factors (v.exponent - 2) k
  let low := (4 * v.significand - if v.narrow then 1 else 2) * a
  let high := (4 * v.significand + 2) * a
  if v.significand % 2 = 0 then ⟨(low + b - 1) / b, high / b, k⟩
  else ⟨low / b + 1, (high + b - 1) / b - 1, k⟩

/-- The multiples of the greatest power of ten among those of a smaller one: a multiple of the next
power is ten times its factor. -/
def coarsen (m : Multiples) : Multiples :=
  let low := (m.low + 9) / 10
  let high := m.high / 10
  if h : low ≤ high ∧ 0 < high then coarsen ⟨low, high, m.exponent + 1⟩ else m
termination_by m.high
decreasing_by simp only [high] at *; omega

/-- The multiple nearest to a number, which lies between two of them or beyond the last. -/
def nearest (tie : Tie) (v : Dyadic) (m : Multiples) : Nat :=
  let (a, b) := Dyadic.factors (v.exponent - 2) m.exponent
  let number := 4 * v.significand * a
  let below := number / b
  if below < m.low then below + 1
  else if m.high ≤ below then below
  else
    let middle := (2 * below + 1) * b
    if 2 * number < middle then below
    else if middle < 2 * number then below + 1
    else match tie with
      | .up => below + 1
      | .toEven => below + below % 2

/-- The exponent of a power of ten in whose multiples a number has nine or ten digits, enough to
tell it from all others. -/
def Dyadic.finest (v : Dyadic) : Int := v.decadeAbove - 10

/-- The shortest decimal of a positive number. -/
def shortest (tie : Tie) (v : Dyadic) : Shortest :=
  let m := coarsen (multiples v v.finest)
  ⟨nearest tie v m, m.exponent⟩

end PolicyValue.Decimal
