import PolicyValue.Error
import PolicyValue.Decimal.Style

/-!
# The wording of errors

`Error.message` words an error; scalars in it are written without exponents.
-/

namespace PolicyValue

/-- The fields of a record, as errors name them. -/
def RecordKind.fields : RecordKind → String
  | .affine => "kernel/bias"
  | .norm => "gamma/beta"

/-- The name of a declared length in an archive. -/
def DeclaredSize.name : DeclaredSize → String
  | .state => "state_size"
  | .action => "action_size"

/-- The text of an error. -/
def Error.message : Error → String
  | .shapeMismatch what got expected =>
    "shape mismatch for " ++ what ++ ": got " ++ got.repr ++ ", expected " ++ expected.repr
  | .missingParameter key => "missing parameter: " ++ key
  | .unknownGraphVersion version => "unknown graph version: " ++ version.toNat.repr
  | .sizeMismatch field got expected =>
    "archive declares " ++ field.name ++ " = " ++ got.repr ++ ", this build expects " ++
      expected.repr
  | .wrongRecord key expected =>
    "parameter " ++ key ++ " has the wrong record kind, expected " ++ expected.fields
  | .invalidEpsilon =>
    "parameter _meta.layer_norm_eps has the wrong record kind, expected " ++
      "finite non-negative epsilon"
  | .epsilonMismatch archive network =>
    "archive layer norm epsilon " ++ Decimal.Style.plain.text archive ++
      " differs from the network's " ++ Decimal.Style.plain.text network
  | .unknownSubNetwork name => "graph has no sub-network named " ++ name
  | .emptyActionBatch => "action batch has no valid action"
  | .json _ => "json"
  | .file => "io"
  | .unboundedRange => "a layer without inputs has no finite initial range"
  | .missingOutput => "a sub-network gave no output"

end PolicyValue
