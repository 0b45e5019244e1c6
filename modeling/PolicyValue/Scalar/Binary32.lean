import PolicyValue.Scalar.Arithmetic

/-!
# Binary32 arithmetic

The instance of `Arithmetic` that runs, made of the operations of `Float32`: sums, products,
quotients and square roots are correctly rounded; the exponential and the hyperbolic tangent are
those of the platform, and no law of theirs is used.
-/

namespace PolicyValue

/-- IEEE binary32 arithmetic. -/
instance Arithmetic.binary32 : Arithmetic where
  add x y := x + y
  sub x y := x - y
  mul x y := x * y
  div x y := x / y
  sqrt x := x.sqrt
  exp x := x.exp
  tanh x := x.tanh

end PolicyValue
