import PolicyValue.Feature

/-!
# Inputs from a host

Hosts hand over plain buffers: the features of a state, one row of features per action, and
perhaps a byte per action that is zero at padding.  `hostInputs` checks them in this order and
puts a state and a batch together.
-/

namespace PolicyValue

/-- The rows one after the other, the first of wrong length being refused under its number. -/
def joinRows (index : Nat) : List (List Float32) → Except Error (List Float32)
  | [] => .ok []
  | row :: rows => do
    if row.length ≠ actionSize then
      throw (.shapeMismatch ("action " ++ index.repr) row.length actionSize)
    let flat ← joinRows (index + 1) rows
    return row ++ flat

/-- The mask of a host: any byte but zero marks a real action, and without bytes all are real. -/
def hostMask (rows : List (List Float32)) : Option (List UInt8) → List Bool
  | some bytes => bytes.map (· != 0)
  | none => rows.map fun _ => true

/-- A state and a batch from a host's buffers. -/
def hostInputs (state : List Float32) (rows : List (List Float32)) (bytes : Option (List UInt8)) :
    Except Error (StateVector × ActionBatch) := do
  let state ← StateVector.ofList state
  let flat ← joinRows 0 rows
  let mask := hostMask rows bytes
  if mask.length ≠ rows.length then
    throw (.shapeMismatch "action mask" mask.length rows.length)
  return (state, ← ActionBatch.ofFlat flat mask)

end PolicyValue
