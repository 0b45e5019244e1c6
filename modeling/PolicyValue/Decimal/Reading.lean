import PolicyValue.Scalar.Arithmetic
import PolicyValue.Scalar.Narrow
import PolicyValue.Decimal.Literal
import PolicyValue.Decimal.Style

/-!
# The value of a literal

A literal without point and exponent that fits a 64-bit word is an integer.  Every other literal
is a double: its digits are cut to a 64-bit significand, which is then multiplied or divided by a
power of ten.  A literal whose double is infinite has no value.

`ScalarText` is what the formats need of scalars, a way to write them and to read them back;
`ScalarText.decimal` writes shortest decimals.
-/

namespace PolicyValue.Decimal

/-- One more than the greatest 64-bit word. -/
def wordBound : Nat := UInt64.size

/-- The longest start of a number's digits that fits a word, and how many digits follow it. -/
def fitWord (n : Nat) : Nat × Nat :=
  if _h : n < wordBound then (n, 0)
  else
    let (start, dropped) := fitWord (n / 10)
    (start, dropped + 1)
termination_by n
decreasing_by simp only [wordBound, UInt64.size] at *; omega

/-- A significand extended by digits while it fits a word, and how many of them it took in. -/
def extendWord (significand : Nat) : List Digit → Nat × Nat
  | [] => (significand, 0)
  | d :: ds =>
    if 10 * significand + d.val < wordBound then
      let (extended, taken) := extendWord (10 * significand + d.val) ds
      (extended, taken + 1)
    else (significand, 0)

/-- The double nearest to a power of ten. -/
def powerOfTen (n : Nat) : Float := Float.ofScientific 1 false n

/-- The greatest power of ten a double holds, as its exponent. -/
def greatestDecade : Nat := 308

/-- A double divided by `10 ^ n`, by the greatest power of ten as often as needed. -/
def divideByPower (f : Float) (n : Nat) : Float :=
  if _h : n ≤ greatestDecade then f / powerOfTen n
  else if f == 0 then f
  else divideByPower (f / powerOfTen greatestDecade) (n - greatestDecade)
termination_by n
decreasing_by simp only [greatestDecade] at *; omega

/-- The double `significand * 10 ^ e`, unless it is infinite. -/
def scaled? (significand : Nat) (e : Int) : Option Float :=
  let f := significand.toUInt64.toFloat
  if e < 0 then some (divideByPower f e.natAbs)
  else if e.toNat ≤ greatestDecade then
    let g := f * powerOfTen e.toNat
    if g.isInf then none else some g
  else if f == 0 then some f
  else none

namespace Literal

/-- The integer that a literal denotes: no point, no exponent, and within a 64-bit word.  A minus
sign in front of zero denotes a double. -/
def integer? (l : Literal) : Option Int :=
  match l.fraction, l.exponent with
  | [], none =>
    if l.negative then
      if 0 < l.whole ∧ l.whole ≤ wordBound / 2 then some (-l.whole) else none
    else if l.whole < wordBound then some l.whole
    else none
  | _, _ => none

/-- The double that a literal denotes, unless it is infinite. -/
def double? (l : Literal) : Option Float :=
  let (start, dropped) := fitWord l.whole
  let (significand, taken) := extendWord start l.fraction
  let magnitude := scaled? significand ((dropped : Int) - taken + l.exponent.getD 0)
  if l.negative then magnitude.map (-·) else magnitude

end Literal

end PolicyValue.Decimal

namespace PolicyValue

open Decimal (Literal)

/-- How scalars are written in a format and read back. -/
class ScalarText where
  /-- The literal of a finite scalar. -/
  write : Float32 → Literal
  /-- The scalar of a literal; there is none for a literal out of range. -/
  read : Literal → Option Float32

/-- Scalars as shortest decimals, read as doubles and rounded; integers are rounded directly. -/
instance ScalarText.decimal : ScalarText where
  write x := Decimal.Style.json.literal x
  read l :=
    match l.integer? with
    | some (.ofNat n) => some (Scalar.ofCount n)
    | some (.negSucc n) => some (-(Scalar.ofCount (n + 1)))
    | none => l.double?.map Scalar.ofDouble

/-- Whether a literal denotes a number at all. -/
def Decimal.Literal.inRange [ScalarText] (l : Literal) : Bool :=
  l.integer?.isSome || (ScalarText.read l).isSome

end PolicyValue
