import PolicyValue.Error
import PolicyValue.Scalar.Arithmetic

/-!
# Layer normalization

`normalize` standardizes a vector by its own mean and biased variance, then scales by gamma and
shifts by beta.  A `LayerNorm` holds gamma, beta and the epsilon that is added to the variance.
-/

namespace PolicyValue

open Scalar (zero one ofCount)

section

variable [Arithmetic]

/-- The mean of a vector. -/
def mean (xs : List Float32) : Float32 := div (sum xs) (ofCount xs.length)

/-- The sum of squared deviations from `center`. -/
def squares (center : Float32) (xs : List Float32) : Float32 :=
  sum (xs.map fun x => mul (sub x center) (sub x center))

/-- The number whose square root normalization divides by. -/
def radicand (epsilon : Float32) (xs : List Float32) : Float32 :=
  add (div (squares (mean xs) xs) (ofCount xs.length)) epsilon

/-- Standardizes `xs`, then scales and shifts; the result is cut to the shortest of the three. -/
def normalize (xs gamma beta : List Float32) (epsilon : Float32) : List Float32 :=
  let center := mean xs
  let scale := div one (sqrt (radicand epsilon xs))
  List.zipWith (fun x (g, b) => add (mul (mul (sub x center) scale) g) b) xs (gamma.zip beta)

end

/-- A normalization with its learned correction. -/
structure LayerNorm where
  /-- The factors. -/
  gamma : List Float32
  /-- The shifts. -/
  beta : List Float32
  /-- What is added to the variance. -/
  epsilon : Float32
deriving DecidableEq, BEq

namespace LayerNorm

/-- The correction that changes nothing. -/
def initial (features : Nat) (epsilon : Float32) : LayerNorm :=
  ⟨List.replicate features one, List.replicate features zero, epsilon⟩

/-- The number of features. -/
def features (n : LayerNorm) : Nat := n.gamma.length

/-- The number of factors and shifts. -/
def parameterCount (n : LayerNorm) : Nat := n.gamma.length + n.beta.length

/-- The normalized input. -/
def forward [Arithmetic] (n : LayerNorm) (input : List Float32) : List Float32 :=
  normalize input n.gamma n.beta n.epsilon

/-- Overwrites the correction, unless a length differs. -/
def assign (n : LayerNorm) (key : String) (gamma beta : List Float32) :
    LayerNorm × Except Error Unit :=
  if gamma.length ≠ n.gamma.length then
    (n, .error (.shapeMismatch (key ++ ".gamma") gamma.length n.gamma.length))
  else if beta.length ≠ n.beta.length then
    (n, .error (.shapeMismatch (key ++ ".beta") beta.length n.beta.length))
  else ({ n with gamma := gamma, beta := beta }, .ok ())

end LayerNorm

end PolicyValue
