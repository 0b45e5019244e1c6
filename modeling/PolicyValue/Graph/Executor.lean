import PolicyValue.Archive.Basic
import PolicyValue.Layer.Affine
import PolicyValue.Layer.Norm

/-!
# The graph executor

An `Executor` runs the graph of an archive with the archive's parameters.  It knows the roles of
the sub-networks and nothing of their depth or widths; these it finds in the stored tensors.

* `Executor.ofArchive` loads the parameters that the graph names and checks every width once;
* `Executor.run` replays one sub-network;
* the instance of `Evaluator` scores a batch.

Where an archive brings no value state encoder, the value head reads the policy's embedding.
-/

namespace PolicyValue

/-- The parameters of one operation, laid out to be run. -/
inductive Tensors where
  /-- A flat kernel of so many rows and columns, and a bias. -/
  | affine (rows columns : Nat) (kernel bias : List Float32)
  /-- The correction of a normalization. -/
  | norm (gamma beta : List Float32)
deriving DecidableEq

/-- The number of parameters. -/
def Tensors.count : Tensors → Nat
  | .affine _ _ kernel bias => kernel.length + bias.length
  | .norm gamma beta => gamma.length + beta.length

/-- Tensors by parameter key. -/
abbrev Parameters := Dict Tensors

/-- Which embedding the value head reads. -/
inductive ValuePath where
  /-- That of the value state encoder. -/
  | separate
  /-- That of the policy's state encoder. -/
  | shared
deriving DecidableEq, Repr

/-- The sub-network of a value path. -/
def ValuePath.component : ValuePath → String
  | .separate => valueStateEncoder
  | .shared => stateEncoder

/-- A loaded archive, ready to run. -/
structure Executor where
  /-- The operations. -/
  graph : Graph
  /-- The tensors. -/
  parameters : Parameters
  /-- The epsilon of the normalizations. -/
  epsilon : Float32
  /-- Which embedding the value head reads. -/
  valuePath : ValuePath
  /-- The width of a state's embedding. -/
  stateWidth : Nat
  /-- The width of an action's embedding. -/
  actionWidth : Nat
deriving DecidableEq

/-! ## Loading -/

/-- The sub-networks every graph has to have. -/
def requiredComponents : List String := [stateEncoder, actionEncoder, actionScorer, valueHead]

namespace Archive

/-- Checks that the graph has all required sub-networks. -/
def checkComponents (a : Archive) : List String → Except Error Unit
  | [] => .ok ()
  | name :: names =>
    if a.header.graph.contains name then a.checkComponents names
    else .error (.unknownSubNetwork name)

/-- The value path of an archive: separate when the graph has the value state encoder and some
record that it names is there. -/
def valuePath (a : Archive) : ValuePath :=
  match a.header.graph.get? valueStateEncoder with
  | some ops =>
    if (ops.filterMap Operation.key?).any a.parameters.contains then .separate else .shared
  | none => .shared

/-- The operations of a sub-network, none if the graph lacks it. -/
def operations (a : Archive) (name : String) : List Operation :=
  (a.header.graph.get? name).getD []

/-- A kernel laid out flat; all rows have to be as long as the first. -/
def flatten (key : String) (kernel : List (List Float32)) (bias : List Float32) :
    Except Error Tensors :=
  let columns := (kernel.head?.map List.length).getD 0
  match Linear.firstRagged? columns kernel with
  | none => .ok (.affine kernel.length columns kernel.flatten bias)
  | some r =>
    let got := ((kernel[r]?).map List.length).getD 0
    .error (.shapeMismatch (key ++ ".kernel[" ++ r.repr ++ "]") got columns)

/-- The tensors of an operation, under its key. -/
def tensors? (a : Archive) : Operation → Except Error (Option (String × Tensors))
  | .affine key =>
    match a.record? key with
    | some (.affine kernel bias) => (flatten key kernel bias).map fun t => some (key, t)
    | some (.norm _ _) => .error (.wrongRecord key .affine)
    | none => .error (.missingParameter key)
  | .normalize key =>
    match a.record? key with
    | some (.norm gamma beta) => .ok (some (key, .norm gamma beta))
    | some (.affine _ _) => .error (.wrongRecord key .norm)
    | none => .error (.missingParameter key)
  | .relu => .ok none
  | .tanh => .ok none

/-- Adds the tensors of operations to those already loaded. -/
def collect (a : Archive) (loaded : Parameters) : List Operation → Except Error Parameters
  | [] => .ok loaded
  | op :: ops => do
    match ← a.tensors? op with
    | some (key, t) => a.collect (loaded.insert key t) ops
    | none => a.collect loaded ops

end Archive

/-! ## Widths -/

namespace Operation

/-- The width of an operation's output, given that of its input and the loaded tensors. -/
def outputWidth (parameters : Parameters) (width : Nat) : Operation → Except Error Nat
  | .affine key =>
    match parameters.get? key with
    | some (.affine rows columns _ bias) =>
      if rows ≠ width then .error (.shapeMismatch (key ++ ".kernel rows") rows width)
      else if columns = 0 then .error (.shapeMismatch (key ++ ".kernel columns") 0 1)
      else if bias.length ≠ columns then
        .error (.shapeMismatch (key ++ ".bias") bias.length columns)
      else .ok columns
    | _ => .error (.missingParameter key)
  | .normalize key =>
    match parameters.get? key with
    | some (.norm gamma beta) =>
      if width = 0 then .error (.shapeMismatch (key ++ ".gamma") 0 1)
      else if gamma.length ≠ width then
        .error (.shapeMismatch (key ++ ".gamma") gamma.length width)
      else if beta.length ≠ width then .error (.shapeMismatch (key ++ ".beta") beta.length width)
      else .ok width
    | _ => .error (.missingParameter key)
  | .relu => .ok width
  | .tanh => .ok width

end Operation

/-- The width after operations that run one after the other. -/
def outputWidth (parameters : Parameters) (width : Nat) (ops : List Operation) :
    Except Error Nat :=
  ops.foldlM (Operation.outputWidth parameters) width

/-- Checks that a sub-network with one output has one. -/
def checkSingle (component : String) (width : Nat) : Except Error Unit :=
  if width = 1 then .ok () else .error (.shapeMismatch component width 1)

namespace Executor

/-- Loads an archive: its tensors, then all widths from the feature vectors to the two outputs. -/
def ofArchive (a : Archive) : Except Error Executor := do
  a.validate
  a.checkComponents requiredComponents
  let path := a.valuePath
  let roles := [stateEncoder, path.component, actionEncoder, actionScorer, valueHead]
  let parameters ← a.collect .empty (roles.flatMap a.operations)
  let stateWidth ← outputWidth parameters stateSize (a.operations stateEncoder)
  let actionWidth ← outputWidth parameters actionSize (a.operations actionEncoder)
  let valueWidth ← outputWidth parameters stateSize (a.operations path.component)
  checkSingle actionScorer
    (← outputWidth parameters (stateWidth + actionWidth) (a.operations actionScorer))
  checkSingle valueHead (← outputWidth parameters valueWidth (a.operations valueHead))
  return ⟨a.header.graph, parameters, a.header.epsilon, path, stateWidth, actionWidth⟩

/-- Whether the archive brought a value state encoder. -/
def hasValueEncoder (e : Executor) : Bool := e.valuePath = .separate

/-- The number of loaded parameters. -/
def parameterCount (e : Executor) : Nat :=
  e.parameters.entries.foldr (fun (_, t) n => t.count + n) 0

/-! ## Running -/

variable [Arithmetic]

/-- Runs one operation. -/
def step (e : Executor) (x : List Float32) : Operation → Except Error (List Float32)
  | .affine key =>
    match e.parameters.get? key with
    | some (.affine rows _ kernel bias) =>
      if x.length ≠ rows then .error (.shapeMismatch (key ++ " input") x.length rows)
      else .ok (affine x kernel bias)
    | _ => .error (.missingParameter key)
  | .normalize key =>
    match e.parameters.get? key with
    | some (.norm gamma beta) =>
      if x.length ≠ gamma.length then
        .error (.shapeMismatch (key ++ " input") x.length gamma.length)
      else .ok (normalize x gamma beta e.epsilon)
    | _ => .error (.missingParameter key)
  | .relu => .ok (x.map rectify)
  | .tanh => .ok (x.map tanh)

/-- Replays a sub-network. -/
def run (e : Executor) (component : String) (input : List Float32) :
    Except Error (List Float32) := do
  let ops ← e.graph.operations? component
  ops.foldlM e.step input

/-- The score of one action in a state with a known embedding. -/
def scoreAction (e : Executor) (embedding : List Float32) (action : ActionVector) :
    Except Error Float32 := do
  let encoded ← e.run actionEncoder action.values
  singleOutput (← e.run actionScorer (embedding ++ encoded))

/-- The scores of a batch and the value of its state. -/
def score (e : Executor) (state : StateVector) (batch : ActionBatch) :
    Except Error ScoredBatch := do
  if batch.validCount = 0 then throw .emptyActionBatch
  let embedding ← e.run stateEncoder state.values
  let valueEmbedding ← match e.valuePath with
    | .separate => e.run valueStateEncoder state.values
    | .shared => pure embedding
  let scores ← batch.actions.mapM (e.scoreAction embedding)
  let value ← singleOutput (← e.run valueHead valueEmbedding)
  return ⟨maskScores scores batch.mask, value⟩

instance : Evaluator Executor := ⟨Executor.score⟩

end Executor

end PolicyValue
