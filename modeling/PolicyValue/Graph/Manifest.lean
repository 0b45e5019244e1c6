import PolicyValue.Graph.Operation
import PolicyValue.Network.Basic

/-!
# The graph of a network

`Network.graph` describes a network's forward pass as operations.  A normalization is followed by
the positive part.  The value head has no normalization; there each affine map but the last is
followed by the positive part, and a hyperbolic tangent ends the list.
-/

namespace PolicyValue

/-- Whether a layer is affine. -/
def Layer.isLinear : Layer → Bool
  | .linear _ => true
  | .norm _ => false

/-- The operations of an encoder or scorer. -/
def encoderOperations (component : String) : Layers → List Operation
  | [] => []
  | (name, .linear _) :: rest =>
    .affine (parameterKey component name) :: encoderOperations component rest
  | (name, .norm _) :: rest =>
    .normalize (parameterKey component name) :: .relu :: encoderOperations component rest

/-- The operations of a head before its last nonlinearity. -/
def headSteps (component : String) : Layers → List Operation
  | [] => []
  | (name, .linear _) :: rest =>
    let following := headSteps component rest
    .affine (parameterKey component name) ::
      if rest.any fun (_, layer) => layer.isLinear then .relu :: following else following
  | (name, .norm _) :: rest =>
    .normalize (parameterKey component name) :: headSteps component rest

/-- The operations of a sub-network, by its name. -/
def operationsOf (component : String) (layers : Layers) : List Operation :=
  if component = valueHead then headSteps component layers ++ [.tanh]
  else encoderOperations component layers

/-- The operations of all sub-networks. -/
def Network.graph (net : Network) : Graph :=
  .ofList (net.components.map fun (name, layers) => (name, operationsOf name layers))

end PolicyValue
