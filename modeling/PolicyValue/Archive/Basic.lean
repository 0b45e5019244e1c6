import PolicyValue.Graph.Manifest

/-!
# Weight archives

An `Archive` is one exported model: a header with the graph, and a record per parameter key.  A
record holds either a kernel, one row per input, with a bias, or a gamma with a beta.

`Archive.validate` checks the header: the version, the two vector lengths, and that the epsilon is
finite and not negative, in this order.
-/

namespace PolicyValue

/-- The parameters of one layer. -/
inductive Record where
  /-- An input-by-output kernel and a bias. -/
  | affine (kernel : List (List Float32)) (bias : List Float32)
  /-- The correction of a normalization. -/
  | norm (gamma beta : List Float32)
deriving DecidableEq, BEq

/-- What an archive says about itself. -/
structure Header where
  /-- The layout version. -/
  version : UInt32
  /-- The length of state vectors. -/
  stateSize : UInt64
  /-- The length of action vectors. -/
  actionSize : UInt64
  /-- The operations of the sub-networks. -/
  graph : Graph
  /-- The epsilon of the normalizations. -/
  epsilon : Float32
deriving DecidableEq, BEq

/-- One exported model. -/
structure Archive where
  /-- The header. -/
  header : Header
  /-- The records by parameter key. -/
  parameters : Dict Record
deriving DecidableEq, BEq

/-- The layout version that is written and read. -/
def archiveVersion : UInt32 := 2

/-- The sub-networks an archive may leave out. -/
def optionalComponents : List String := [valueStateEncoder]

/-- The record of a layer. -/
def Layer.record : Layer → Record
  | .linear l => .affine l.kernel l.bias
  | .norm n => .norm n.gamma n.beta

namespace Archive

/-- The record under a key. -/
def record? (a : Archive) (key : String) : Option Record := a.parameters.get? key

/-- Checks version, vector lengths and epsilon. -/
def validate (a : Archive) : Except Error Unit :=
  if a.header.version ≠ archiveVersion then .error (.unknownGraphVersion a.header.version)
  else if a.header.stateSize.toNat ≠ stateSize then
    .error (.sizeMismatch .state a.header.stateSize.toNat stateSize)
  else if a.header.actionSize.toNat ≠ actionSize then
    .error (.sizeMismatch .action a.header.actionSize.toNat actionSize)
  else if !a.header.epsilon.isFinite || a.header.epsilon < Scalar.zero then .error .invalidEpsilon
  else .ok ()

end Archive

/-- The keys and records of the layers of a sub-network. -/
def Layers.records (component : String) (layers : Layers) : List (String × Record) :=
  layers.map fun (name, layer) => (parameterKey component name, layer.record)

/-- A snapshot of a network: its graph and a copy of every parameter. -/
def Network.toArchive (net : Network) : Archive where
  header := ⟨archiveVersion, stateSize.toUInt64, actionSize.toUInt64, net.graph, net.config.epsilon⟩
  parameters := .ofList (net.components.flatMap fun (name, layers) => layers.records name)

end PolicyValue
