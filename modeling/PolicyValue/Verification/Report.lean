import PolicyValue.Verification.Settings
import PolicyValue.Verification.TestVector

/-!
# Verification reports

`verify` replays a test vector through a model and compares every output with the recorded one.
An output diverges when it is neither equal to the recorded one nor within the tolerance; a NaN is
neither.  Divergences are collected, not raised.
-/

namespace PolicyValue.Verification

open Scalar (zero infinity)

/-- Which output of a model is compared. -/
inductive Output where
  /-- The score of a slot. -/
  | score (slot : Nat)
  /-- The value. -/
  | value
  /-- The probability of a slot. -/
  | policy (slot : Nat)
deriving DecidableEq, Repr

/-- The name of an output. -/
def Output.name : Output → String
  | .score slot => "scores[" ++ slot.repr ++ "]"
  | .value => "value"
  | .policy slot => "policy[" ++ slot.repr ++ "]"

/-- One output outside its tolerance. -/
structure Divergence where
  /-- The name of the output. -/
  output : String
  /-- The recorded output. -/
  expected : Float32
  /-- The model's output. -/
  actual : Float32
  /-- How far it may be off. -/
  tolerance : Float32
deriving DecidableEq

/-- The greatest errors and all divergences. -/
structure Report where
  /-- The greatest error of a score. -/
  scoreError : Float32
  /-- The error of the value. -/
  valueError : Float32
  /-- The greatest error of a probability. -/
  policyError : Float32
  /-- The divergences, in the order of the outputs. -/
  divergences : List Divergence
deriving DecidableEq

/-- Whether nothing diverged. -/
def Report.passed (r : Report) : Bool := r.divergences.isEmpty

/-! ## Comparison -/

/-- A recorded output beside the model's. -/
structure Comparison where
  /-- Which output it is. -/
  output : Output
  /-- The recorded output. -/
  expected : Float32
  /-- The model's output. -/
  actual : Float32
  /-- How far it may be off. -/
  tolerance : Float32

section

variable [Arithmetic]

namespace Comparison

/-- The distance of the two outputs. -/
def distance (c : Comparison) : Float32 := (sub c.expected c.actual).abs

/-- The distance, infinite when it is a NaN. -/
def error (c : Comparison) : Float32 := if c.distance.isNaN then infinity else c.distance

/-- Whether the outputs are neither equal nor within the tolerance. -/
def diverges (c : Comparison) : Bool :=
  !(decide (c.distance ≤ c.tolerance)) && !(c.expected == c.actual)

/-- The divergence, if there is one. -/
def divergence? (c : Comparison) : Option Divergence :=
  if c.diverges then some ⟨c.output.name, c.expected, c.actual, c.tolerance⟩ else none

end Comparison

/-- The comparisons of two lists, slot by slot from `slot` on. -/
def compareSlots (output : Nat → Output) (tolerance : Float32) (slot : Nat) :
    List Float32 → List Float32 → List Comparison
  | e :: expected, a :: actual =>
    ⟨output slot, e, a, tolerance⟩ :: compareSlots output tolerance (slot + 1) expected actual
  | _, _ => []

/-- The greatest error of some comparisons. -/
def greatestError (cs : List Comparison) : Float32 :=
  cs.foldl (fun top c => larger top c.error) zero

/-- The report on a model's outputs. -/
def Report.ofOutputs (v : TestVector) (scored : ScoredBatch) (prediction : Prediction)
    (settings : Settings) : Report :=
  let scores := compareSlots .score settings.scoreTolerance 0 v.scores scored.scores
  let value : Comparison := ⟨.value, v.value, scored.value, settings.valueTolerance⟩
  let policy := compareSlots .policy settings.policyTolerance 0 v.policy prediction.policy
  ⟨greatestError scores, value.error, greatestError policy,
    (scores ++ value :: policy).filterMap Comparison.divergence?⟩

/-- Replays a test vector; an error means that the vector itself is not sound. -/
def verify {ε : Type} [Evaluator ε] (model : ε) (v : TestVector) (settings : Settings) :
    Except Error Report := do
  let (state, batch) ← v.inputs
  let scored ← Evaluator.score model state batch
  let prediction ← Evaluator.policy model state batch
  return Report.ofOutputs v scored prediction settings

end

/-! ## JSON form -/

section

variable [ScalarText]

/-- The members of a divergence. -/
def Divergence.layout : Layout Divergence where
  initial := ⟨"", zero, zero, zero⟩
  fields := [
    Codec.text.required "output" (·.output) fun x d => { d with output := x },
    Codec.scalar.required "expected" (·.expected) fun x d => { d with expected := x },
    Codec.scalar.required "actual" (·.actual) fun x d => { d with actual := x },
    Codec.scalar.required "tolerance" (·.tolerance) fun x d => { d with tolerance := x }]

/-- The JSON form of a divergence. -/
def Divergence.codec : Codec Divergence := Divergence.layout.codec

/-- The members of a report. -/
def Report.layout : Layout Report where
  initial := ⟨zero, zero, zero, []⟩
  fields := [
    Codec.scalar.required "max_score_error" (·.scoreError) fun x r => { r with scoreError := x },
    Codec.scalar.required "value_error" (·.valueError) fun x r => { r with valueError := x },
    Codec.scalar.required "max_policy_error" (·.policyError) fun x r => { r with policyError := x },
    Divergence.codec.list.required "divergences" (·.divergences)
      fun x r => { r with divergences := x }]

/-- The JSON form of a report. -/
def Report.codec : Codec Report := Report.layout.codec

end

end PolicyValue.Verification
