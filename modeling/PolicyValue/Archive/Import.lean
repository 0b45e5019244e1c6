import PolicyValue.Archive.Basic

/-!
# Loading an archive into a network

`Network.load` copies every parameter of an archive into a network, or leaves the network as it is.
Values are staged on a copy: each layer's record must be there, be of the layer's kind and have the
layer's shape.  The state encoder of the value may be missing altogether; it then keeps its
parameters, and the report says so.

`Network.ofArchive` builds a fresh network of given widths first and takes the epsilon from the
archive.
-/

namespace PolicyValue

/-- What a load did. -/
structure LoadReport where
  /-- The keys whose records were copied, in order. -/
  loaded : List String
  /-- The sub-networks that kept their parameters. -/
  fallbacks : List String
deriving DecidableEq, Repr

/-- Whether a sub-network kept its parameters. -/
def LoadReport.usedFallback (r : LoadReport) : Bool := !r.fallbacks.isEmpty

/-- The keys of the parameters of a sub-network. -/
def Layers.keys (component : String) (layers : Layers) : List String :=
  layers.map fun (name, _) => parameterKey component name

namespace Archive

/-- The record under a key, which has to be there. -/
def require (a : Archive) (key : String) : Except Error Record :=
  match a.record? key with
  | some r => .ok r
  | none => .error (.missingParameter key)

/-- An affine layer with the parameters under a key. -/
def loadLinear (a : Archive) (component name : String) (l : Linear) : Except Error Linear := do
  let key := parameterKey component name
  match ← a.require key with
  | .affine kernel bias =>
    let (l, outcome) := l.assign key kernel bias
    outcome
    return l
  | .norm _ _ => throw (.wrongRecord key .affine)

/-- A normalization with the parameters under a key. -/
def loadNorm (a : Archive) (component name : String) (n : LayerNorm) : Except Error LayerNorm := do
  let key := parameterKey component name
  match ← a.require key with
  | .norm gamma beta =>
    let (n, outcome) := n.assign key gamma beta
    outcome
    return n
  | .affine _ _ => throw (.wrongRecord key .norm)

/-- A state encoder with the parameters of a sub-network. -/
def loadStateEncoder (a : Archive) (component : String) (e : StateEncoder) :
    Except Error StateEncoder := do
  let fc1 ← a.loadLinear component "fc1" e.fc1
  let ln1 ← a.loadNorm component "ln1" e.ln1
  let fc2 ← a.loadLinear component "fc2" e.fc2
  let ln2 ← a.loadNorm component "ln2" e.ln2
  return ⟨fc1, ln1, fc2, ln2⟩

/-- An action encoder with the parameters of a sub-network. -/
def loadActionEncoder (a : Archive) (component : String) (e : ActionEncoder) :
    Except Error ActionEncoder := do
  let fc1 ← a.loadLinear component "fc1" e.fc1
  let ln1 ← a.loadNorm component "ln1" e.ln1
  let fc2 ← a.loadLinear component "fc2" e.fc2
  return ⟨fc1, ln1, fc2⟩

/-- An action scorer with the parameters of a sub-network. -/
def loadActionScorer (a : Archive) (component : String) (s : ActionScorer) :
    Except Error ActionScorer := do
  let fc1 ← a.loadLinear component "fc1" s.fc1
  let ln1 ← a.loadNorm component "ln1" s.ln1
  let fc2 ← a.loadLinear component "fc2" s.fc2
  return ⟨fc1, ln1, fc2⟩

/-- A value head with the parameters of a sub-network. -/
def loadValueHead (a : Archive) (component : String) (h : ValueHead) : Except Error ValueHead := do
  let fc1 ← a.loadLinear component "fc1" h.fc1
  let fc2 ← a.loadLinear component "fc2" h.fc2
  return ⟨fc1, fc2⟩

/-- Whether a sub-network may be left out and is: none of its keys is there. -/
def omits (a : Archive) (component : String) (layers : Layers) : Bool :=
  optionalComponents.contains component && (layers.keys component).all fun key =>
    !a.parameters.contains key

/-- Checks that an archive is valid and was exported with the given epsilon. -/
def checkEpsilon (a : Archive) (epsilon : Float32) : Except Error Unit := do
  a.validate
  if a.header.epsilon ≠ epsilon then throw (.epsilonMismatch a.header.epsilon epsilon)

end Archive

namespace Network

/-- The report of a complete load of an archive. -/
def loadReport (net : Network) (a : Archive) : LoadReport where
  loaded := net.components.flatMap fun (name, layers) =>
    if a.omits name layers then [] else layers.keys name
  fallbacks := (net.components.filter fun (name, layers) => a.omits name layers).map (·.1)

/-- The network with an archive's parameters, staged on a copy. -/
def stage (net : Network) (a : Archive) : Except Error Network := do
  a.checkEpsilon net.config.epsilon
  let state ← a.loadStateEncoder stateEncoder net.state
  let valueState ←
    if a.omits valueStateEncoder net.valueState.layers then pure net.valueState
    else a.loadStateEncoder valueStateEncoder net.valueState
  let action ← a.loadActionEncoder actionEncoder net.action
  let scorer ← a.loadActionScorer actionScorer net.scorer
  let head ← a.loadValueHead valueHead net.head
  return ⟨net.config, state, valueState, action, scorer, head⟩

/-- Loads an archive: the network afterwards, which is the network before if there is an error. -/
def load (net : Network) (a : Archive) : Network × Except Error LoadReport :=
  match net.stage a with
  | .ok staged => (staged, .ok (net.loadReport a))
  | .error e => (net, .error e)

/-- A fresh network of the given widths with the archive's epsilon and parameters; the seed only
matters to a sub-network that the archive leaves out. -/
def ofArchive (a : Archive) (c : Config) (seed : UInt64) : Except Error (Network × LoadReport) := do
  let net ← draw { c with epsilon := a.header.epsilon } seed
  let (net, outcome) := net.load a
  return (net, ← outcome)

end Network

end PolicyValue
