import PolicyValue.Error
import PolicyValue.Scalar.Arithmetic

/-!
# Affine layers

A `Linear` layer keeps one row of weights per output.  Archives keep the same numbers one row per
input, as a kernel: `Linear.kernel` transposes, `Linear.assign` transposes back.

* `Linear.forward`: per output, the products summed up, then the bias;
* `affine`: per input, all outputs advanced at once, over a kernel laid out flat;
* `Linear.assign`: overwrites a layer, or refuses and says what did not fit.
-/

namespace PolicyValue

/-! ## Rows and columns -/

/-- The columns of rows of the given width. -/
def transpose {α : Type} (width : Nat) (rows : List (List α)) : List (List α) :=
  rows.foldr (List.zipWith List.cons) (List.replicate width [])

/-- No rows have `width` empty columns. -/
@[simp]
theorem transpose_nil {α : Type} (width : Nat) :
    transpose width ([] : List (List α)) = List.replicate width [] := rfl

/-- A further row puts its entries in front of the columns. -/
@[simp]
theorem transpose_cons {α : Type} (width : Nat) (row : List α) (rows : List (List α)) :
    transpose width (row :: rows) = List.zipWith List.cons row (transpose width rows) := rfl

/-- There are as many columns as the rows are wide. -/
theorem length_transpose {α : Type} (width : Nat) (rows : List (List α))
    (h : ∀ row ∈ rows, row.length = width) : (transpose width rows).length = width := by
  unfold transpose
  induction rows with
  | nil => simp
  | cons row rows ih =>
    rw [List.foldr_cons, List.length_zipWith, ih fun r hr => h r (.tail _ hr), h row (.head _),
      Nat.min_self]

/-- Each column has an entry of every row. -/
theorem length_of_mem_transpose {α : Type} (width : Nat) (rows : List (List α)) :
    ∀ column ∈ transpose width rows, column.length = rows.length := by
  unfold transpose
  induction rows with
  | nil =>
    intro column hc
    rw [List.foldr_nil] at hc
    rw [List.eq_of_mem_replicate hc]
    rfl
  | cons row rows ih =>
    intro column hc
    rw [List.foldr_cons] at hc
    obtain ⟨i, hi, rfl⟩ := List.getElem_of_mem hc
    rw [List.getElem_zipWith, List.length_cons, List.length_cons, ih _ (List.getElem_mem _)]

/-- Without width there are no columns. -/
theorem transpose_zero {α : Type} (rows : List (List α)) : transpose 0 rows = [] := by
  cases rows with
  | nil => rfl
  | cons row rows => rw [transpose_cons, transpose_zero rows, List.zipWith_nil_right]

/-- A further entry in front of each row is a further column. -/
theorem transpose_zipWith_cons {α : Type} (width : Nat) (column : List α) (rows : List (List α))
    (h : column.length = rows.length) :
    transpose (width + 1) (List.zipWith List.cons column rows) =
      column :: transpose width rows := by
  induction column generalizing rows with
  | nil =>
    cases rows with
    | nil => rfl
    | cons row rows => cases h
  | cons x column ih =>
    cases rows with
    | nil => cases h
    | cons row rows =>
      rw [List.zipWith_cons_cons, transpose_cons, ih rows (Nat.succ.inj h), List.zipWith_cons_cons,
        transpose_cons]

/-- The columns of the columns are the rows. -/
theorem transpose_transpose {α : Type} (width : Nat) (rows : List (List α))
    (h : ∀ row ∈ rows, row.length = width) :
    transpose rows.length (transpose width rows) = rows := by
  induction rows with
  | nil => exact transpose_zero _
  | cons row rows ih =>
    have hrest : ∀ r ∈ rows, r.length = width := fun r hr => h r (.tail _ hr)
    have hrow : row.length = (transpose width rows).length := by
      rw [h row (.head _), length_transpose width rows hrest]
    rw [transpose_cons, List.length_cons, transpose_zipWith_cons _ _ _ hrow, ih hrest]

/-! ## Layers -/

/-- An affine layer. -/
structure Linear where
  /-- The number of inputs. -/
  inputs : Nat
  /-- The number of outputs. -/
  outputs : Nat
  /-- One row per output, one weight per input. -/
  weight : List (List Float32)
  /-- One bias per output. -/
  bias : List Float32
deriving DecidableEq, BEq

namespace Linear

/-- The layer has as many rows, weights in each, and biases as it declares. -/
structure WellShaped (l : Linear) : Prop where
  /-- One row per output. -/
  length_weight : l.weight.length = l.outputs
  /-- One weight per input in each row. -/
  length_row : ∀ row ∈ l.weight, row.length = l.inputs
  /-- One bias per output. -/
  length_bias : l.bias.length = l.outputs
  /-- There is an input. -/
  inputs_pos : 0 < l.inputs

/-- The number of weights and biases. -/
def parameterCount (l : Linear) : Nat := l.weight.flatten.length + l.bias.length

/-- The weights as an input-by-output kernel. -/
def kernel (l : Linear) : List (List Float32) := transpose l.inputs l.weight

/-- The outputs: products summed from the left, then the bias. -/
def forward [Arithmetic] (l : Linear) (input : List Float32) : List Float32 :=
  List.zipWith (fun row b => add (dot input row) b) l.weight l.bias

/-- The position of the first row whose length is not `width`. -/
def firstRagged? (width : Nat) (rows : List (List Float32)) : Option Nat :=
  rows.findIdx? (·.length != width)

/-- Overwrites the layer with an input-by-output kernel and a bias.  The numbers of rows and of
biases are checked first; a row of wrong length is found while rows are copied, so those before it
have already been taken over, while the bias has not. -/
def assign (l : Linear) (key : String) (kernel : List (List Float32)) (bias : List Float32) :
    Linear × Except Error Unit :=
  if kernel.length ≠ l.inputs then
    (l, .error (.shapeMismatch (key ++ ".kernel rows") kernel.length l.inputs))
  else if bias.length ≠ l.outputs then
    (l, .error (.shapeMismatch (key ++ ".bias") bias.length l.outputs))
  else
    match firstRagged? l.outputs kernel with
    | none => ({ l with weight := transpose l.outputs kernel, bias := bias }, .ok ())
    | some r =>
      let mixed := kernel.take r ++ l.kernel.drop r
      let got := ((kernel[r]?).map List.length).getD 0
      ({ l with weight := transpose l.outputs mixed },
        .error (.shapeMismatch (key ++ ".kernel[" ++ r.repr ++ "]") got l.outputs))

end Linear

end PolicyValue
