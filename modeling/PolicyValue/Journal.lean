import PolicyValue.Archive.Import
import PolicyValue.Decimal.Fixed
import PolicyValue.Graph.Executor
import PolicyValue.Verification.Report

/-!
# The journal

What the operations note while they work.  Notes never change a result, so they are computed
beside it: for each operation that notes something, the entries it makes on given arguments, also
where it fails half-way.
-/

namespace PolicyValue

/-- How serious an entry is. -/
inductive Level where
  /-- Something was done. -/
  | info
  /-- Something was done in another way than wished. -/
  | warn
  /-- Something was found wrong. -/
  | error
deriving DecidableEq, Repr

/-- The name of a level. -/
def Level.name : Level → String
  | .info => "INFO"
  | .warn => "WARN"
  | .error => "ERROR"

/-- One entry of the journal. -/
structure Entry where
  /-- How serious it is. -/
  level : Level
  /-- What it says. -/
  text : String
deriving DecidableEq, Repr

/-- An entry as a line. -/
def Entry.line (e : Entry) : String := e.level.name ++ " " ++ e.text

namespace Journal

/-- An export notes how much was written. -/
def ofExport (net : Network) : List Entry :=
  [⟨.info, "exported " ++ net.toArchive.parameters.size.repr ++ " parameter tensors (" ++
    net.parameterCount.repr ++ " values, graph v" ++ archiveVersion.toNat.repr ++ ")"⟩]

/-- A load notes a sub-network that is left out as soon as it gets there, and its end. -/
def ofLoad (net : Network) (a : Archive) : List Entry :=
  let reached : Except Error Unit := do
    a.checkEpsilon net.config.epsilon
    discard (a.loadStateEncoder stateEncoder net.state)
  let omitted := reached.toBool && a.omits valueStateEncoder net.valueState.layers
  let warning := if omitted then
      [⟨.warn, valueStateEncoder ++ " not found in archive, keeping its initial parameters"⟩]
    else []
  let ending := match net.load a with
    | (_, .ok r) => [⟨.info, "loaded " ++ r.loaded.length.repr ++ " parameter tensors, " ++
        r.fallbacks.length.repr ++ " fallback(s)"⟩]
    | (_, .error _) => []
  warning ++ ending

/-- An import notes what its load notes. -/
def ofImport (a : Archive) (c : Network.Config) (seed : UInt64) : List Entry :=
  match Network.draw { c with epsilon := a.header.epsilon } seed with
  | .ok net => ofLoad net a
  | .error _ => []

/-- An executor notes that it lacks a value state encoder, and its widths. -/
def ofExecutor (a : Archive) : List Entry :=
  let reached : Except Error Unit := do
    a.validate
    a.checkComponents requiredComponents
  let warning := if reached.toBool && a.valuePath = .shared then
      [⟨.warn, valueStateEncoder ++ " missing from archive, value head reads the " ++
        stateEncoder ++ " embedding"⟩]
    else []
  let ending := match Executor.ofArchive a with
    | .ok e => [⟨.info, "graph executor ready: " ++ e.parameters.size.repr ++
        " tensors, state embed " ++ e.stateWidth.repr ++ ", action embed " ++
        e.actionWidth.repr⟩]
    | .error _ => []
  warning ++ ending

/-- A verification notes its verdict. -/
def ofReport (r : Verification.Report) : List Entry :=
  if r.passed then
    [⟨.info, "verification passed: max score err " ++ Decimal.scientific 3 r.scoreError ++
      ", value err " ++ Decimal.scientific 3 r.valueError ++ ", max policy err " ++
      Decimal.scientific 3 r.policyError⟩]
  else
    [⟨.error, "verification failed with " ++ r.divergences.length.repr ++ " divergence(s)"⟩]

end Journal

end PolicyValue
