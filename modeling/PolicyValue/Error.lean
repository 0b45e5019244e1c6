/-!
# Errors

`Error` lists everything that can go wrong between the collaborators of the model, and `Fault`
the ways in which a JSON text fails to be read or written.  A disagreement of numbers is not an
error; it is reported by a verification.

`Error.message` is the one place that words an error.
-/

namespace PolicyValue

/-- What is wrong with a JSON text. -/
inductive Fault where
  /-- The text breaks the grammar. -/
  | malformed
  /-- The text ended too early. -/
  | truncated
  /-- The text is well formed and has the wrong shape. -/
  | mismatched
  /-- The disk failed before the text was written to its end. -/
  | unwritten
deriving DecidableEq, Repr

/-- The two kinds of parameter records, as errors name them. -/
inductive RecordKind where
  /-- A kernel and a bias. -/
  | affine
  /-- A gamma and a beta. -/
  | norm
deriving DecidableEq, Repr

/-- The fields of an archive's header that declare a vector length. -/
inductive DeclaredSize where
  /-- The length of a state vector. -/
  | state
  /-- The length of an action vector. -/
  | action
deriving DecidableEq, Repr

/-- A contract between collaborators was broken. -/
inductive Error where
  /-- Something has `got` entries where `expected` are needed. -/
  | shapeMismatch (what : String) (got expected : Nat)
  /-- An archive holds no record under this key. -/
  | missingParameter (key : String)
  /-- An archive is of a layout this library does not read. -/
  | unknownGraphVersion (version : UInt32)
  /-- An archive declares another vector length. -/
  | sizeMismatch (field : DeclaredSize) (got expected : Nat)
  /-- A record is of the other kind. -/
  | wrongRecord (key : String) (expected : RecordKind)
  /-- An archive's normalization epsilon is negative or not finite. -/
  | invalidEpsilon
  /-- An archive was exported with another normalization epsilon. -/
  | epsilonMismatch (archive network : Float32)
  /-- A graph lacks a sub-network. -/
  | unknownSubNetwork (name : String)
  /-- A batch has no action that is real. -/
  | emptyActionBatch
  /-- A JSON text was refused, or not written. -/
  | json (fault : Fault)
  /-- A file could not be read or written. -/
  | file
  /-- A layer without inputs has no finite range to draw its initial parameters from. -/
  | unboundedRange
  /-- A sub-network that answers with one number gave none. -/
  | missingOutput
deriving DecidableEq

end PolicyValue
