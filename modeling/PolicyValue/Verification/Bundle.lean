import PolicyValue.Archive.Format
import PolicyValue.Store.World

/-!
# Reference bundles

A bundle is an archive and the test vector recorded from the same network.

* `Bundle.build`: seeds a network, takes a snapshot and records its outputs;
* `Bundle.save`: builds a bundle and writes its two files into a directory;
* `Bundle.check`: loads a directory into an executor and verifies it.
-/

namespace PolicyValue.Verification

/-- The file name of a bundle's archive. -/
def weightsFile : String := "test_weights.json"

/-- The file name of a bundle's test vector. -/
def testCaseFile : String := "test_case.json"

/-- A name below a directory: a slash goes between them, unless the directory is empty or ends in
one. -/
def below (dir name : String) : String :=
  if dir.toList.getLast?.all (· = '/') then dir ++ name else dir ++ "/" ++ name

/-- An archive and the test vector of the same network. -/
structure Bundle where
  /-- The snapshot. -/
  archive : Archive
  /-- The recorded outputs. -/
  vector : TestVector
deriving DecidableEq

namespace Bundle

variable [Arithmetic]

/-- A bundle of a fresh network. -/
def build (c : Network.Config) (settings : Settings) : Except Error Bundle := do
  let net ← Network.draw c settings.initSeed
  let vector ← TestVector.record net settings.inputSeed settings.actions.toNat
  return ⟨net.toArchive, vector⟩

variable [ScalarText] {m : Type → Type} [Monad m] [Outside m]

/-- What building a bundle notes: the export of its network. -/
def noteBuild (c : Network.Config) (settings : Settings) : ExceptT Error m Unit :=
  match Network.draw c settings.initSeed with
  | .ok net => noteAll (Journal.ofExport net)
  | .error _ => pure ()

/-- Builds a bundle and writes the archive, then the test vector, into a directory. -/
def save (dir : String) (c : Network.Config) (settings : Settings) : ExceptT Error m Bundle := do
  createDirectories dir
  noteBuild c settings
  let bundle ← (build c settings : Except Error Bundle)
  writeText (below dir weightsFile) bundle.archive.toString
  writeText (below dir testCaseFile) bundle.vector.toString
  noteAll [⟨.info, "wrote " ++ weightsFile ++ " and " ++ testCaseFile ++ " to " ++ dir⟩]
  return bundle

/-- Loads the archive of a directory into an executor and replays the directory's test vector. -/
def check (dir : String) (settings : Settings) : ExceptT Error m Report := do
  let archive ← (Archive.ofString (← readText (below dir weightsFile)) : Except Error Archive)
  noteAll (Journal.ofExecutor archive)
  let executor ← (Executor.ofArchive archive : Except Error Executor)
  let vector ← (TestVector.ofString (← readText (below dir testCaseFile)) : Except Error TestVector)
  let report ← (verify executor vector settings : Except Error Report)
  noteAll (Journal.ofReport report)
  return report

end Bundle

end PolicyValue.Verification
