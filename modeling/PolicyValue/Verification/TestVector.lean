import PolicyValue.Json.Codec
import PolicyValue.Prediction
import PolicyValue.Sampling.Normal

/-!
# Test vectors

A `TestVector` holds the inputs of one batch without padding and the outputs a model gave for them.

* `generateInputs`: a state and actions drawn from a sampler, the state first;
* `TestVector.record`: what a model gives on generated inputs;
* `TestVector.inputs`: the stored inputs, checked.
-/

namespace PolicyValue.Verification

open Sampling

/-- Inputs and expected outputs of one batch. -/
structure TestVector where
  /-- The features of the state. -/
  state : List Float32
  /-- The features of each action. -/
  actions : List (List Float32)
  /-- A score per action. -/
  scores : List Float32
  /-- The value of the state. -/
  value : Float32
  /-- A probability per action. -/
  policy : List Float32
deriving DecidableEq, BEq

/-! ## Inputs -/

/-- A state and a batch without padding, drawn from a sampler of features. -/
def drawInputs {σ : Type} (feature : Sampler σ Float32) (actions : Nat) (s : σ) :
    Except Error (StateVector × ActionBatch) := do
  let (features, s) := draws feature stateSize s
  let (rows, _) := draws (draws feature actionSize) actions s
  let state ← StateVector.ofList features
  let vectors ← rows.mapM ActionVector.ofList
  return (state, ← ActionBatch.allValid vectors)

/-- Standard normal inputs of a seed. -/
def generateInputs (seed : UInt64) (actions : Nat) : Except Error (StateVector × ActionBatch) :=
  drawInputs normal actions (.seeded seed)

namespace TestVector

/-- The stored inputs: the state, each action, and the numbers of scores and probabilities are
checked, then the batch is put together. -/
def inputs (v : TestVector) : Except Error (StateVector × ActionBatch) := do
  let state ← StateVector.ofList v.state
  let actions ← v.actions.mapM ActionVector.ofList
  if v.scores.length ≠ actions.length then
    throw (.shapeMismatch "expected_scores" v.scores.length actions.length)
  if v.policy.length ≠ actions.length then
    throw (.shapeMismatch "expected_policy" v.policy.length actions.length)
  return (state, ← ActionBatch.allValid actions)

/-- A model's outputs on given inputs, together with these. -/
def ofOutputs [Arithmetic] {ε : Type} [Evaluator ε] (model : ε) (state : StateVector)
    (batch : ActionBatch) : Except Error TestVector := do
  let scored ← Evaluator.score model state batch
  let prediction ← Evaluator.policy model state batch
  return ⟨state.values, batch.actions.map (·.values), scored.scores, scored.value,
    prediction.policy⟩

/-- A model's outputs on inputs drawn from a sampler. -/
def recordFrom [Arithmetic] {ε σ : Type} [Evaluator ε] (model : ε) (feature : Sampler σ Float32)
    (actions : Nat) (s : σ) : Except Error TestVector := do
  let (state, batch) ← drawInputs feature actions s
  ofOutputs model state batch

/-- A model's outputs on standard normal inputs of a seed. -/
def record [Arithmetic] {ε : Type} [Evaluator ε] (model : ε) (seed : UInt64) (actions : Nat) :
    Except Error TestVector :=
  recordFrom model normal actions (.seeded seed)

/-! ## JSON form -/

section

variable [ScalarText]

/-- The members of a test vector. -/
def layout : Layout TestVector where
  initial := ⟨[], [], [], Scalar.zero, []⟩
  fields := [
    Codec.scalar.list.required "state" (·.state) fun x v => { v with state := x },
    Codec.scalar.list.list.required "actions" (·.actions) fun x v => { v with actions := x },
    Codec.scalar.list.required "expected_scores" (·.scores) fun x v => { v with scores := x },
    Codec.scalar.required "expected_value" (·.value) fun x v => { v with value := x },
    Codec.scalar.list.required "expected_policy" (·.policy) fun x v => { v with policy := x }]

/-- The JSON form of a test vector. -/
def codec : Codec TestVector := layout.codec

/-- The text of a test vector. -/
def toString (v : TestVector) : String := codec.toString v

/-- Reads a test vector. -/
def ofString (s : String) : Except Error TestVector := (codec.ofString s).mapError .json

end

end TestVector

end PolicyValue.Verification
