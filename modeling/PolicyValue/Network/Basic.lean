import PolicyValue.Network.Config
import PolicyValue.Network.Part
import PolicyValue.Prediction

/-!
# The policy and value network

A `Network` has two state encoders, so that policy and value share no weights, an action encoder,
an action scorer and a value head.

* `Network.draw`: a network with parameters drawn from a seed;
* `Network.components`: the sub-networks' layers by name, in the order of an archive;
* the instance of `Evaluator`: scores and value of a batch.
-/

namespace PolicyValue

open Sampling

/-- The network that is trained. -/
structure Network where
  /-- The widths and the epsilon. -/
  config : Network.Config
  /-- Encodes the state for the policy. -/
  state : StateEncoder
  /-- Encodes the state for the value. -/
  valueState : StateEncoder
  /-- Encodes an action. -/
  action : ActionEncoder
  /-- Scores an action. -/
  scorer : ActionScorer
  /-- Predicts the value. -/
  head : ValueHead
deriving DecidableEq, BEq

namespace Network

/-- A fresh network drawn from a generator, sub-network after sub-network. -/
def drawFrom (c : Config) (g : Generator) : Except Error Network := do
  let (state, g) ← StateEncoder.draw c.stateHidden.toNat c.stateEmbed.toNat c.epsilon g
  let (valueState, g) ← StateEncoder.draw c.stateHidden.toNat c.stateEmbed.toNat c.epsilon g
  let (action, g) ← ActionEncoder.draw c.actionHidden.toNat c.actionEmbed.toNat c.epsilon g
  let (scorer, g) ←
    ActionScorer.draw c.stateEmbed.toNat c.actionEmbed.toNat c.scorerHidden.toNat c.epsilon g
  let (head, _) ← ValueHead.draw c.stateEmbed.toNat c.valueHidden.toNat g
  return ⟨c, state, valueState, action, scorer, head⟩

/-- A fresh network drawn from a seed. -/
def draw (c : Config) (seed : UInt64) : Except Error Network := drawFrom c (.seeded seed)

/-- The sub-networks by name. -/
def components (net : Network) : List (String × Layers) :=
  [(stateEncoder, net.state.layers), (valueStateEncoder, net.valueState.layers),
    (actionEncoder, net.action.layers), (actionScorer, net.scorer.layers),
    (valueHead, net.head.layers)]

/-- The number of parameters. -/
def parameterCount (net : Network) : Nat :=
  Layers.parameterCount (net.components.flatMap fun (_, layers) => layers)

variable [Arithmetic]

/-- The score of one action in a state with a known embedding. -/
def scoreAction (net : Network) (embedding : List Float32) (action : ActionVector) :
    Except Error Float32 :=
  net.scorer.forward embedding (net.action.forward action.values)

/-- The scores of a batch and the value of its state. -/
def score (net : Network) (state : StateVector) (batch : ActionBatch) :
    Except Error ScoredBatch := do
  if batch.validCount = 0 then throw .emptyActionBatch
  let embedding := net.state.forward state.values
  let scores ← batch.actions.mapM (net.scoreAction embedding)
  let value ← net.head.forward (net.valueState.forward state.values)
  return ⟨maskScores scores batch.mask, value⟩

instance : Evaluator Network := ⟨Network.score⟩

end Network

end PolicyValue
