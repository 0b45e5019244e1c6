/-!
# Scalars and their arithmetic

Every number of the model is a binary32 scalar.  The rounded operations a forward pass is written
in are a parameter, `Arithmetic`: what is proved for every instance uses only the order in which
operations are applied, never a law of rounding.

Comparisons are those of `Float32`.  On top of them stand

* `larger`: the greater of two scalars, where a NaN gives way to the other operand;
* `rectify`: the positive part, which sends a NaN and a negative zero to zero;
* `sum`, `dot`: accumulations, always from the left and from zero.
-/

namespace PolicyValue

/-- The rounded operations forward passes are built from. -/
class Arithmetic where
  /-- Rounded sum. -/
  add : Float32 → Float32 → Float32
  /-- Rounded difference. -/
  sub : Float32 → Float32 → Float32
  /-- Rounded product. -/
  mul : Float32 → Float32 → Float32
  /-- Rounded quotient. -/
  div : Float32 → Float32 → Float32
  /-- Rounded square root. -/
  sqrt : Float32 → Float32
  /-- Rounded exponential. -/
  exp : Float32 → Float32
  /-- Rounded hyperbolic tangent. -/
  tanh : Float32 → Float32

export Arithmetic (add sub mul div sqrt exp tanh)

namespace Scalar

/-- Positive infinity. -/
def infinity : Float32 := Float32.ofBits 0x7f800000

/-- Negative infinity, the score of a padded slot. -/
def negInfinity : Float32 := Float32.ofBits 0xff800000

/-- Positive zero. -/
def zero : Float32 := Float32.ofBits 0

/-- One. -/
def one : Float32 := Float32.ofBits 0x3f800000

/-- The scalar nearest to a count. -/
def ofCount (n : Nat) : Float32 := n.toUInt64.toFloat32

end Scalar

open Scalar (zero)

/-! ## Maximum -/

/-- The greater of two scalars, of equal ones the second; a NaN gives way to the other operand. -/
def larger (x y : Float32) : Float32 :=
  if x.isNaN then y else if y.isNaN then x else if y < x then x else y

/-- The positive part; a NaN and a negative zero become zero. -/
def rectify (x : Float32) : Float32 := larger x zero

/-! ## Accumulation -/

section

variable [Arithmetic]

/-- The sum of a list, accumulated from the left. -/
def sum (xs : List Float32) : Float32 := xs.foldl add zero

/-- The sum of products of two lists, accumulated from the left and cut to the shorter one. -/
def dot (xs ws : List Float32) : Float32 :=
  (xs.zip ws).foldl (fun acc (x, w) => add acc (mul x w)) zero

end

end PolicyValue
