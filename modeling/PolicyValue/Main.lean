import PolicyValue.CommandLine
import PolicyValue.Scalar.Binary32

/-!
# The program

The command line on the files of the system, its journal on standard error.
-/

namespace PolicyValue

/-- An action on files, of whose failures only the fact is kept, as some error. -/
def attempt {α : Type} (error : Error) (action : IO α) : ExceptT Error IO α :=
  ExceptT.mk do
    try
      return .ok (← action)
    catch _ =>
      return .error error

instance : Outside IO where
  createDirectories path := attempt .file (IO.FS.createDirAll path)
  readText path := attempt .file (IO.FS.readFile path)
  writeText path text := do
    let file ← attempt .file (IO.FS.Handle.mk path .write)
    attempt (.json .unwritten) (file.putStr text)
    attempt .file file.flush
  note e := IO.eprintln e.line

end PolicyValue

/-- Runs the command line. -/
def main (args : List String) : IO UInt32 := do
  let outcome ← PolicyValue.Command.runArguments (m := IO) args
  outcome.stdout.forM (IO.println ·)
  outcome.stderr.forM (IO.eprintln ·)
  return outcome.code.toUInt32
