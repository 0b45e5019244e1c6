import PolicyValue.Layer.Linear
import PolicyValue.Sampling.Uniform

/-!
# Initial parameters

A fresh affine layer draws its weights, one output after the other, and then its biases from the
uniform range between `-1 / √inputs` and `1 / √inputs`.  With no inputs that range has infinite ends
and there is nothing to draw from.
-/

namespace PolicyValue

open Sampling

/-- The range of a layer's initial parameters; a layer without inputs has none. -/
def initialRange? (inputs : Nat) : Option UniformRange :=
  if inputs = 0 then none
  else some (.symmetric (Scalar.one / (Scalar.ofCount inputs).sqrt))

/-- A fresh layer drawn from a generator. -/
def Linear.draw (inputs outputs : Nat) (g : Generator) : Except Error (Linear × Generator) :=
  match initialRange? inputs with
  | none => .error .unboundedRange
  | some range =>
    let (weight, g) := draws (draws range.sample inputs) outputs g
    let (bias, g) := draws range.sample outputs g
    .ok (⟨inputs, outputs, weight, bias⟩, g)

end PolicyValue
