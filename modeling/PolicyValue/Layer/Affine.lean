import PolicyValue.Feature
import PolicyValue.Layer.Linear

/-!
# The affine map over a flat kernel

`affine` computes what `Linear.forward` computes, from a kernel laid out input by input in one
list.  All outputs advance together, one input at a time, so each output adds up its products in
the same order.
-/

namespace PolicyValue

variable [Arithmetic]

/-- Adds the products of one input with its row of the kernel to all outputs. -/
def advance (acc : List Float32) (x : Float32) (row : List Float32) : List Float32 :=
  List.zipWith (fun a w => add a (mul x w)) acc row

/-- The outputs before the bias, over rows of the kernel. -/
def accumulate (outputs : Nat) (input : List Float32) (rows : List (List Float32)) :
    List Float32 :=
  (input.zip rows).foldl (fun acc (x, row) => advance acc x row)
    (List.replicate outputs Scalar.zero)

/-- The affine map of a flat input-by-output kernel and a bias. -/
def affine (input kernel bias : List Float32) : List Float32 :=
  let outputs := bias.length
  if outputs = 0 then []
  else List.zipWith add (accumulate outputs input (chunks outputs kernel)) bias

end PolicyValue
