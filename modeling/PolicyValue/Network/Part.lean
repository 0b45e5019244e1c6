import PolicyValue.Feature
import PolicyValue.Layer.Initial
import PolicyValue.Layer.Norm

/-!
# The sub-networks

The four kinds of sub-networks of the model, each with its layers, its forward pass and its fresh
form:

* `StateEncoder`: two affine layers, each normalized and rectified;
* `ActionEncoder`: the same, with the second affine layer left linear;
* `ActionScorer`: one number for a pair of embeddings;
* `ValueHead`: one number between -1 and 1 for an embedding, without normalization.

The names of the five places they take in a network are `stateEncoder`, `valueStateEncoder`,
`actionEncoder`, `actionScorer` and `valueHead`.
-/

namespace PolicyValue

open Sampling

/-- The name of the state encoder the policy reads. -/
def stateEncoder : String := "state_encoder"

/-- The name of the state encoder the value reads. -/
def valueStateEncoder : String := "value_state_encoder"

/-- The name of the action encoder. -/
def actionEncoder : String := "action_encoder"

/-- The name of the action scorer. -/
def actionScorer : String := "action_scorer"

/-- The name of the value head. -/
def valueHead : String := "value_head"

/-- A layer with parameters. -/
inductive Layer where
  /-- An affine layer. -/
  | linear (l : Linear)
  /-- A normalization. -/
  | norm (n : LayerNorm)
deriving DecidableEq, BEq

/-- The number of a layer's parameters. -/
def Layer.parameterCount : Layer → Nat
  | .linear l => l.parameterCount
  | .norm n => n.parameterCount

/-- A sub-network's layers with their names, in the order of the forward pass. -/
abbrev Layers := List (String × Layer)

/-- The number of parameters of some layers. -/
def Layers.parameterCount (layers : Layers) : Nat :=
  layers.foldr (fun (_, layer) n => layer.parameterCount + n) 0

/-- The key under which an archive keeps the parameters of a layer. -/
def parameterKey (component layer : String) : String := component ++ "_" ++ layer

/-- The number that a sub-network with one output gives. -/
def singleOutput (xs : List Float32) : Except Error Float32 :=
  match xs with
  | [] => .error .missingOutput
  | x :: _ => .ok x

/-! ## State encoder -/

/-- Encodes a state. -/
structure StateEncoder where
  /-- From features to the hidden width. -/
  fc1 : Linear
  /-- Normalizes the hidden vector. -/
  ln1 : LayerNorm
  /-- From the hidden width to the embedding. -/
  fc2 : Linear
  /-- Normalizes the embedding. -/
  ln2 : LayerNorm
deriving DecidableEq, BEq

namespace StateEncoder

/-- A fresh state encoder. -/
def draw (hidden embed : Nat) (epsilon : Float32) (g : Generator) :
    Except Error (StateEncoder × Generator) := do
  let (fc1, g) ← Linear.draw stateSize hidden g
  let (fc2, g) ← Linear.draw hidden embed g
  return (⟨fc1, .initial hidden epsilon, fc2, .initial embed epsilon⟩, g)

/-- The embedding of a state. -/
def forward [Arithmetic] (e : StateEncoder) (state : List Float32) : List Float32 :=
  let hidden := (e.ln1.forward (e.fc1.forward state)).map rectify
  (e.ln2.forward (e.fc2.forward hidden)).map rectify

/-- The layers by name. -/
def layers (e : StateEncoder) : Layers :=
  [("fc1", .linear e.fc1), ("ln1", .norm e.ln1), ("fc2", .linear e.fc2), ("ln2", .norm e.ln2)]

end StateEncoder

/-! ## Action encoder -/

/-- Encodes an action. -/
structure ActionEncoder where
  /-- From features to the hidden width. -/
  fc1 : Linear
  /-- Normalizes the hidden vector. -/
  ln1 : LayerNorm
  /-- From the hidden width to the embedding. -/
  fc2 : Linear
deriving DecidableEq, BEq

namespace ActionEncoder

/-- A fresh action encoder. -/
def draw (hidden embed : Nat) (epsilon : Float32) (g : Generator) :
    Except Error (ActionEncoder × Generator) := do
  let (fc1, g) ← Linear.draw actionSize hidden g
  let (fc2, g) ← Linear.draw hidden embed g
  return (⟨fc1, .initial hidden epsilon, fc2⟩, g)

/-- The embedding of an action. -/
def forward [Arithmetic] (e : ActionEncoder) (action : List Float32) : List Float32 :=
  e.fc2.forward ((e.ln1.forward (e.fc1.forward action)).map rectify)

/-- The layers by name. -/
def layers (e : ActionEncoder) : Layers :=
  [("fc1", .linear e.fc1), ("ln1", .norm e.ln1), ("fc2", .linear e.fc2)]

end ActionEncoder

/-! ## Action scorer -/

/-- Scores an action in a state, both given by their embeddings. -/
structure ActionScorer where
  /-- From both embeddings to the hidden width. -/
  fc1 : Linear
  /-- Normalizes the hidden vector. -/
  ln1 : LayerNorm
  /-- From the hidden width to one number. -/
  fc2 : Linear
deriving DecidableEq, BEq

namespace ActionScorer

/-- A fresh action scorer. -/
def draw (stateWidth actionWidth hidden : Nat) (epsilon : Float32) (g : Generator) :
    Except Error (ActionScorer × Generator) := do
  let (fc1, g) ← Linear.draw (stateWidth + actionWidth) hidden g
  let (fc2, g) ← Linear.draw hidden 1 g
  return (⟨fc1, .initial hidden epsilon, fc2⟩, g)

/-- The score of an action. -/
def forward [Arithmetic] (s : ActionScorer) (state action : List Float32) :
    Except Error Float32 :=
  singleOutput (s.fc2.forward ((s.ln1.forward (s.fc1.forward (state ++ action))).map rectify))

/-- The layers by name. -/
def layers (s : ActionScorer) : Layers :=
  [("fc1", .linear s.fc1), ("ln1", .norm s.ln1), ("fc2", .linear s.fc2)]

end ActionScorer

/-! ## Value head -/

/-- Predicts the outcome from the embedding of a state. -/
structure ValueHead where
  /-- From the embedding to the hidden width. -/
  fc1 : Linear
  /-- From the hidden width to one number. -/
  fc2 : Linear
deriving DecidableEq, BEq

namespace ValueHead

/-- A fresh value head. -/
def draw (stateWidth hidden : Nat) (g : Generator) : Except Error (ValueHead × Generator) := do
  let (fc1, g) ← Linear.draw stateWidth hidden g
  let (fc2, g) ← Linear.draw hidden 1 g
  return (⟨fc1, fc2⟩, g)

/-- The value of a state. -/
def forward [Arithmetic] (h : ValueHead) (state : List Float32) : Except Error Float32 :=
  singleOutput ((h.fc2.forward ((h.fc1.forward state).map rectify)).map tanh)

/-- The layers by name. -/
def layers (h : ValueHead) : Layers := [("fc1", .linear h.fc1), ("fc2", .linear h.fc2)]

end ValueHead

end PolicyValue
