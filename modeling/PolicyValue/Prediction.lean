import PolicyValue.Feature
import PolicyValue.Scalar.Arithmetic

/-!
# Scores, policies and evaluators

An evaluator gives each action of a batch a score and the state a value.  Padded slots score
negative infinity.  The policy is the softmax of the scores, shifted by the greatest finite one.

* `maskScores`: overwrites the scores of padded slots;
* `maskedSoftmax`: exactly zero on negative infinity, and zero everywhere if no score is finite;
* `Evaluator`: what the trained network and the graph executor have in common.
-/

namespace PolicyValue

open Scalar (zero negInfinity)

/-- One score per slot of a batch, and the value of the state. -/
structure ScoredBatch where
  /-- The scores. -/
  scores : List Float32
  /-- The value. -/
  value : Float32
deriving DecidableEq

/-- One probability per slot of a batch, and the value of the state. -/
structure Prediction where
  /-- The probabilities. -/
  policy : List Float32
  /-- The value. -/
  value : Float32
deriving DecidableEq

/-- Scores with those of padded slots replaced by negative infinity. -/
def maskScores : List Float32 → List Bool → List Float32
  | s :: scores, valid :: mask => (if valid then s else negInfinity) :: maskScores scores mask
  | scores, [] => scores
  | [], _ => []

/-- Masking keeps the number of scores. -/
theorem length_maskScores (scores : List Float32) (mask : List Bool) :
    (maskScores scores mask).length = scores.length := by
  induction scores generalizing mask with
  | nil => cases mask <;> rfl
  | cons s scores ih =>
    cases mask with
    | nil => rfl
    | cons valid mask => rw [maskScores, List.length_cons, ih, List.length_cons]

/-- The greatest of some scores, from the left. -/
def greatest? : List Float32 → Option Float32
  | [] => none
  | s :: scores => some (scores.foldl larger s)

section

variable [Arithmetic]

/-- The weight of a score before normalization; that of negative infinity is zero. -/
def weightOf (top score : Float32) : Float32 :=
  if score == negInfinity then zero else exp (sub score top)

/-- Exponentials of scores relative to the greatest finite one, divided by their sum. -/
def maskedSoftmax (scores : List Float32) : List Float32 :=
  match greatest? (scores.filter Float32.isFinite) with
  | none => scores.map fun _ => zero
  | some top =>
    let weights := scores.map (weightOf top)
    let total := sum weights
    weights.map (div · total)

/-- There is one probability per score. -/
theorem length_maskedSoftmax (scores : List Float32) :
    (maskedSoftmax scores).length = scores.length := by
  unfold maskedSoftmax
  split <;> simp

end

/-- Models that score the actions of a state. -/
class Evaluator (ε : Type) where
  /-- The scores of a batch and the value of its state. -/
  score : ε → StateVector → ActionBatch → Except Error ScoredBatch

/-- The softmax of the scores, with the value. -/
def Evaluator.policy [Arithmetic] {ε : Type} [Evaluator ε] (model : ε) (state : StateVector)
    (batch : ActionBatch) : Except Error Prediction := do
  let scored ← Evaluator.score model state batch
  return ⟨maskedSoftmax scored.scores, scored.value⟩

end PolicyValue
