import PolicyValue.Decimal.Scalar
import PolicyValue.Error.Message
import PolicyValue.Verification.Bundle

/-!
# The command line

Two commands: `export` writes a bundle, `verify` checks one.  `Command.parse` reads arguments, and
`Command.run` carries a command out and gives the exit code and what is printed.

An option is followed by its value or joined to it by an equals sign.  A value that follows must
not look like an option, and no option may be given twice.
-/

namespace PolicyValue

open Verification (Bundle Settings)

/-- What a command line asks for. -/
inductive Command where
  /-- Write a bundle of a network, described by a file or the default one, into a directory. -/
  | exportBundle (dir : String) (network : Option String) (settings : Settings)
  /-- Check the bundle of a directory. -/
  | verifyBundle (dir : String) (tolerance : Float32)

/-- The end of a run: its exit code and the lines printed. -/
structure Outcome where
  /-- The exit code. -/
  code : Nat
  /-- Lines on standard output. -/
  stdout : List String
  /-- Lines on standard error. -/
  stderr : List String
deriving DecidableEq

namespace Command

/-! ## Arguments -/

/-- Splits an argument at its first equals sign. -/
def splitAtEquals (arg : String) : String × Option String :=
  let cs := arg.toList
  match cs.dropWhile (· != '=') with
  | [] => (arg, none)
  | _ :: value => (String.ofList (cs.takeWhile (· != '=')), some (String.ofList value))

/-- Whether an argument looks like an option and so is no value. -/
def looksLikeOption (arg : String) : Bool := arg.startsWith "-" && arg != "-"

/-- The options among arguments with their values; nothing if there is anything else, an unknown
option, a missing value, or an option given twice. -/
def options? (known : List String) : List String → Option (List (String × String))
  | [] => some []
  | ["--"] => some []
  | arg :: rest => do
    let (name, joined) := splitAtEquals arg
    guard (known.contains name)
    match joined, rest with
    | some value, rest => insertNew name value (← options? known rest)
    | none, value :: rest =>
      guard (!looksLikeOption value)
      insertNew name value (← options? known rest)
    | none, [] => none
where
  /-- Adds an option that was not given yet. -/
  insertNew (name value : String) (given : List (String × String)) :
      Option (List (String × String)) :=
    if (given.lookup name).isSome then none else some ((name, value) :: given)

/-- The value of an option read by `parse`, or its default when it is not given. -/
def valueOf? {α : Type} (given : List (String × String)) (name : String)
    (parse : String → Option α) (default : α) : Option α :=
  match given.lookup name with
  | some value => parse value
  | none => some default

/-- A path, which must not be empty. -/
def parsePath? (s : String) : Option String := if s = "" then none else some s

/-- The directory of a bundle unless told otherwise. -/
def defaultDir : String := "models"

/-- Reads the arguments of `export`. -/
def parseExport? (args : List String) : Option Command := do
  let given ← options? ["--out-dir", "--network", "--init-seed", "--input-seed", "--num-actions"]
    args
  let dir ← valueOf? given "--out-dir" parsePath? defaultDir
  let network ← valueOf? given "--network" (fun s => (parsePath? s).map some) none
  let initSeed ← valueOf? given "--init-seed" Decimal.parseWord? Settings.default.initSeed
  let inputSeed ← valueOf? given "--input-seed" Decimal.parseWord? Settings.default.inputSeed
  let actions ← valueOf? given "--num-actions" Decimal.parseWord? Settings.default.actions
  return .exportBundle dir network
    { Settings.default with initSeed := initSeed, inputSeed := inputSeed, actions := actions }

/-- Reads the arguments of `verify`. -/
def parseVerify? (args : List String) : Option Command := do
  let given ← options? ["--dir", "--tolerance"] args
  let dir ← valueOf? given "--dir" parsePath? defaultDir
  let tolerance ← valueOf? given "--tolerance" Decimal.parseScalar? Settings.defaultTolerance
  return .verifyBundle dir tolerance

/-- Reads arguments. -/
def parse? : List String → Option Command
  | "export" :: args => parseExport? args
  | "verify" :: args => parseVerify? args
  | _ => none

/-! ## Runs -/

/-- Scalars as a printed list. -/
def listText (xs : List Float32) : String :=
  "[" ++ ", ".intercalate (xs.map Decimal.Style.listed.text) ++ "]"

/-- The end of a run with wrong arguments. -/
def usageError : Outcome := ⟨2, [], []⟩

/-- The end of a run with an error; a layer that cannot be drawn aborts the program. -/
def failure (stdout : List String) : Error → Outcome
  | .unboundedRange => ⟨101, stdout, []⟩
  | .missingOutput => ⟨101, stdout, []⟩
  | e => ⟨1, stdout, ["Error: " ++ e.message]⟩

/-- The lines about a saved bundle. -/
def bundleLines (bundle : Bundle) : List String :=
  ["State size:  " ++ bundle.vector.state.length.repr,
    "Num actions: " ++ bundle.vector.actions.length.repr,
    "Scores: " ++ listText bundle.vector.scores,
    "Value:  " ++ Decimal.fixed 6 bundle.vector.value,
    "Policy: " ++ listText bundle.vector.policy]

/-- The lines about the errors of a report. -/
def reportLines (r : Verification.Report) : List String :=
  ["max score error:  " ++ Decimal.scientific 3 r.scoreError,
    "value error:      " ++ Decimal.scientific 3 r.valueError,
    "max policy error: " ++ Decimal.scientific 3 r.policyError]

/-- The line about a divergence. -/
def divergenceLine (d : Verification.Divergence) : String :=
  let plain := Decimal.Style.plain.text
  "  " ++ d.output ++ ": expected " ++ plain d.expected ++ " got " ++ plain d.actual ++ " (tol " ++
    plain d.tolerance ++ ")"

/-- The end of a run that produced a report. -/
def reportOutcome (r : Verification.Report) : Outcome :=
  if r.passed then ⟨0, reportLines r ++ ["OK"], []⟩
  else ⟨1, reportLines r, r.divergences.map divergenceLine ++
    ["Error: " ++ r.divergences.length.repr ++ " output(s) diverged"]⟩

variable [ScalarText] {m : Type → Type} [Monad m] [Outside m]

/-- The network a command asks for, or the line that says why there is none. -/
def readNetwork : Option String → m (Except String Network.Config)
  | none => pure (.ok Network.Config.default)
  | some path => do
    match ← (readText path).run with
    | .error _ => return .error ("reading " ++ path)
    | .ok text =>
      match Network.Config.codec.ofString text with
      | .error _ => return .error ("parsing " ++ path)
      | .ok c => return .ok c

variable [Arithmetic]

/-- Carries a command out. -/
def run : Command → m Outcome
  | .exportBundle dir network settings => do
    match ← readNetwork network with
    | .error context => return ⟨1, [], ["Error: " ++ context]⟩
    | .ok c =>
      match ← (Bundle.save dir c settings).run with
      | .ok bundle => return ⟨0, bundleLines bundle, []⟩
      | .error e => return failure [] e
  | .verifyBundle dir tolerance => do
    let settings : Settings := { Settings.default with
      scoreTolerance := tolerance, valueTolerance := tolerance, policyTolerance := tolerance }
    match ← (Bundle.check dir settings).run with
    | .ok r => return reportOutcome r
    | .error e => return failure [] e

/-- Reads arguments and carries out what they ask for. -/
def runArguments (args : List String) : m Outcome :=
  match parse? args with
  | some command => command.run
  | none => pure usageError

end Command

end PolicyValue
