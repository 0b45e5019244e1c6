import PolicyValue.Error

/-!
# Feature vectors and action batches

A game state is a vector of `stateSize` features, an action one of `actionSize`.  An
`ActionBatch` holds the actions of one state with a mask that tells real actions from padding; at
least one action is real.

* `ActionBatch.ofActions`, `ActionBatch.allValid`: from vectors;
* `ActionBatch.ofFlat`: from one buffer that holds the actions one after the other.
-/

namespace PolicyValue

/-- The number of features of a game state. -/
def stateSize : Nat := 501

/-- The number of features of an action. -/
def actionSize : Nat := 54

/-- One game state. -/
structure StateVector where
  /-- The features. -/
  values : List Float32
  /-- There are `stateSize` of them. -/
  length_values : values.length = stateSize
deriving DecidableEq

/-- One action. -/
structure ActionVector where
  /-- The features. -/
  values : List Float32
  /-- There are `actionSize` of them. -/
  length_values : values.length = actionSize
deriving DecidableEq

/-- A state from its features, refused unless there are `stateSize`. -/
def StateVector.ofList (values : List Float32) : Except Error StateVector :=
  if h : values.length = stateSize then .ok ⟨values, h⟩
  else .error (.shapeMismatch "state vector" values.length stateSize)

/-- An action from its features, refused unless there are `actionSize`. -/
def ActionVector.ofList (values : List Float32) : Except Error ActionVector :=
  if h : values.length = actionSize then .ok ⟨values, h⟩
  else .error (.shapeMismatch "action vector" values.length actionSize)

/-- The features of a state give that state back. -/
theorem StateVector.ofList_values (s : StateVector) : StateVector.ofList s.values = .ok s := by
  rw [StateVector.ofList, dif_pos s.length_values]

/-- The features of an action give that action back. -/
theorem ActionVector.ofList_values (a : ActionVector) : ActionVector.ofList a.values = .ok a := by
  rw [ActionVector.ofList, dif_pos a.length_values]

/-- An action is made of its features and of no others. -/
theorem ActionVector.ofList_eq_ok {values : List Float32} {a : ActionVector} :
    ActionVector.ofList values = .ok a ↔ a.values = values := by
  constructor
  · intro h
    unfold ActionVector.ofList at h
    split at h
    · cases h
      rfl
    · cases h
  · rintro rfl
    exact a.ofList_values

/-- The actions of one state, padded; the mask is true at real actions. -/
structure ActionBatch where
  /-- Real actions and padding. -/
  actions : List ActionVector
  /-- Which of them are real. -/
  mask : List Bool
  /-- One mask entry per action. -/
  length_mask : mask.length = actions.length
  /-- Some action is real. -/
  mem_mask : true ∈ mask
deriving DecidableEq

namespace ActionBatch

/-- A batch from actions and their mask. -/
def ofActions (actions : List ActionVector) (mask : List Bool) : Except Error ActionBatch :=
  if hl : mask.length = actions.length then
    if hm : true ∈ mask then .ok ⟨actions, mask, hl, hm⟩ else .error .emptyActionBatch
  else .error (.shapeMismatch "action mask" mask.length actions.length)

/-- The actions and the mask of a batch give that batch back. -/
theorem ofActions_actions (b : ActionBatch) :
    ofActions b.actions b.mask = .ok b := by
  rw [ofActions, dif_pos b.length_mask, dif_pos b.mem_mask]

/-- A batch is put together from its actions and its mask, and from no others. -/
theorem ofActions_eq_ok {actions : List ActionVector} {mask : List Bool} {b : ActionBatch} :
    ofActions actions mask = .ok b ↔ b.actions = actions ∧ b.mask = mask := by
  constructor
  · intro h
    unfold ofActions at h
    split at h
    · split at h
      · cases h
        exact ⟨rfl, rfl⟩
      · cases h
    · cases h
  · rintro ⟨rfl, rfl⟩
    exact b.ofActions_actions

/-- A batch without padding. -/
def allValid (actions : List ActionVector) : Except Error ActionBatch :=
  ofActions actions (actions.map fun _ => true)

/-- The number of slots, padding included. -/
def size (b : ActionBatch) : Nat := b.actions.length

/-- The number of real actions. -/
def validCount (b : ActionBatch) : Nat := b.mask.count true

/-- Some action of a batch is real. -/
theorem validCount_pos (b : ActionBatch) : 0 < b.validCount := List.count_pos_iff.2 b.mem_mask

end ActionBatch

/-! ## Flat buffers -/

/-- The first `count` runs of `size` entries of a list. -/
def runs {α : Type} (size : Nat) : Nat → List α → List (List α)
  | 0, _ => []
  | count + 1, xs => xs.take size :: runs size count (xs.drop size)

/-- A list cut into runs of `size` entries; an incomplete last run is left out. -/
def chunks {α : Type} (size : Nat) (xs : List α) : List (List α) := runs size (xs.length / size) xs

/-- There are as many runs as asked for. -/
theorem length_runs {α : Type} (size count : Nat) (xs : List α) :
    (runs size count xs).length = count := by
  induction count generalizing xs with
  | zero => rfl
  | succ count ih => rw [runs, List.length_cons, ih]

/-- Runs put one after the other give the part of the list they cover. -/
theorem flatten_runs {α : Type} (size count : Nat) (xs : List α) :
    (runs size count xs).flatten = xs.take (count * size) := by
  induction count generalizing xs with
  | zero => simp [runs]
  | succ count ih =>
    rw [runs, List.flatten_cons, ih, Nat.succ_mul, Nat.add_comm, List.take_add]

/-- Runs of rows of one length, put one after the other, are these rows. -/
theorem runs_flatten {α : Type} (size : Nat) (rows : List (List α))
    (h : ∀ row ∈ rows, row.length = size) : runs size rows.length rows.flatten = rows := by
  induction rows with
  | nil => rfl
  | cons row rows ih =>
    have hrow : row.length = size := h row (.head _)
    rw [List.length_cons, runs, List.flatten_cons, ← hrow, List.take_left, List.drop_left, hrow,
      ih fun r hr => h r (.tail _ hr)]

/-- The length of rows of one length put one after the other. -/
theorem length_flatten_of_length {α : Type} (size : Nat) (rows : List (List α))
    (h : ∀ row ∈ rows, row.length = size) : rows.flatten.length = rows.length * size := by
  induction rows with
  | nil => simp
  | cons row rows ih =>
    rw [List.flatten_cons, List.length_append, h row (.head _), ih fun r hr => h r (.tail _ hr),
      List.length_cons, Nat.succ_mul, Nat.add_comm]

/-- Cutting undoes putting rows of one positive length one after the other. -/
theorem chunks_flatten {α : Type} (size : Nat) (rows : List (List α)) (hsize : 0 < size)
    (h : ∀ row ∈ rows, row.length = size) : chunks size rows.flatten = rows := by
  rw [chunks, length_flatten_of_length size rows h, Nat.mul_div_cancel _ hsize,
    runs_flatten size rows h]

/-- A batch from a buffer that holds one action per mask entry, one after the other. -/
def ActionBatch.ofFlat (flat : List Float32) (mask : List Bool) : Except Error ActionBatch :=
  let expected := mask.length * actionSize
  if flat.length = expected then do
    let actions ← (chunks actionSize flat).mapM ActionVector.ofList
    ofActions actions mask
  else .error (.shapeMismatch "flattened action buffer" flat.length expected)

end PolicyValue
