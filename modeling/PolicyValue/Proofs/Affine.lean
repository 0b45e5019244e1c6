import PolicyValue.Feature
import PolicyValue.Layer.Affine
import PolicyValue.Layer.Norm

/-!
# Affine maps by rows and by columns

`Linear.forward` finishes one output after the other; `affine` advances all outputs together, one
input after the other.  Both add up the same products in the same order, whatever addition and
multiplication are:

* `foldl_advance`: all outputs advanced over the columns are each output's own sum over its row;
* `affine_flatten_kernel`: the affine map over a layer's flat kernel is the layer's forward pass;
* `Linear.affine_eq_forward`: the same, with the place of every weight in the two flat layouts.

The lengths of all results are read off the shapes (`length_affine`, `length_normalize`).
-/

namespace PolicyValue

/-! ## Rows with a further column -/

/-- Rows of positive width are a column in front of narrower rows. -/
theorem exists_zipWith_cons {α : Type} (width : Nat) (rows : List (List α))
    (h : ∀ row ∈ rows, row.length = width + 1) :
    ∃ (column : List α) (rest : List (List α)), column.length = rows.length ∧
      rest.length = rows.length ∧ rows = List.zipWith List.cons column rest ∧
      ∀ row ∈ rest, row.length = width := by
  induction rows with
  | nil => exact ⟨[], [], rfl, rfl, rfl, fun _ hr => by cases hr⟩
  | cons row rows ih =>
    obtain ⟨column, rest, hc, hl, hz, hw⟩ := ih fun r hr => h r (.tail _ hr)
    have hrow : row.length = width + 1 := h row (.head _)
    cases row with
    | nil => cases hrow
    | cons x row =>
      refine ⟨x :: column, row :: rest, ?_, ?_, ?_, ?_⟩
      · rw [List.length_cons, List.length_cons, hc]
      · rw [List.length_cons, List.length_cons, hl]
      · rw [List.zipWith_cons_cons, ← hz]
      · intro r hr
        rcases List.mem_cons.1 hr with rfl | hr
        · exact Nat.succ.inj hrow
        · exact hw r hr

/-- All runs that lie within a list have the same length. -/
theorem length_of_mem_runs {α : Type} (size count : Nat) (xs : List α)
    (h : count * size ≤ xs.length) : ∀ run ∈ runs size count xs, run.length = size := by
  induction count generalizing xs with
  | zero => intro run hr; cases hr
  | succ count ih =>
    rw [Nat.succ_mul] at h
    intro run hr
    rw [runs, List.mem_cons] at hr
    rcases hr with rfl | hr
    · rw [List.length_take]
      omega
    · exact ih (xs.drop size) (by rw [List.length_drop]; omega) run hr

/-! ## Flat layouts -/

/-- Rows of one length, put one after the other: an entry stands behind all rows before its own. -/
theorem getElem?_flatten_of_length {α : Type} {size : Nat} {rows : List (List α)}
    (h : ∀ row ∈ rows, row.length = size) (i : Nat) {j : Nat} (hj : j < size) :
    rows.flatten[i * size + j]? = rows[i]?.bind (·[j]?) := by
  induction rows generalizing i with
  | nil => rfl
  | cons row rows ih =>
    have hrow : row.length = size := h row (.head _)
    rw [List.flatten_cons]
    cases i with
    | zero =>
      rw [Nat.zero_mul, Nat.zero_add, List.getElem?_append_left (by omega)]
      rfl
    | succ i =>
      have hindex : (i + 1) * size + j - row.length = i * size + j := by
        rw [hrow, Nat.succ_mul]
        omega
      rw [List.getElem?_append_right (by rw [hrow, Nat.succ_mul]; omega), hindex,
        ih (fun r hr => h r (.tail _ hr)) i, List.getElem?_cons_succ]

/-- The entries of a column are those the rows have at its position. -/
theorem getElem?_transpose {α : Type} {width : Nat} {rows : List (List α)}
    (h : ∀ row ∈ rows, row.length = width) (i o : Nat) :
    (transpose width rows)[i]?.bind (·[o]?) = rows[o]?.bind (·[i]?) := by
  induction rows generalizing o with
  | nil =>
    rw [transpose_nil, List.getElem?_replicate]
    split <;> rfl
  | cons row rows ih =>
    have hrow : row.length = width := h row (.head _)
    have hrest : ∀ r ∈ rows, r.length = width := fun r hr => h r (.tail _ hr)
    have hcolumns : (transpose width rows).length = width := length_transpose width rows hrest
    have ih := ih hrest
    rw [transpose_cons, List.getElem?_zipWith]
    rcases Nat.lt_or_ge i width with hi | hi
    · have hcolumn := List.getElem?_eq_getElem (Nat.lt_of_lt_of_eq hi hcolumns.symm)
      have hentry := List.getElem?_eq_getElem (Nat.lt_of_lt_of_eq hi hrow.symm)
      rw [hcolumn] at ih
      rw [hcolumn, hentry]
      cases o with
      | zero => exact hentry.symm
      | succ o => exact ih o
    · have hcolumn : (transpose width rows)[i]? = none :=
        List.getElem?_eq_none (by rwa [hcolumns])
      have hentry : row[i]? = none := List.getElem?_eq_none (by rwa [hrow])
      rw [hcolumn] at ih
      rw [hcolumn, hentry]
      cases o with
      | zero => exact hentry.symm
      | succ o => exact ih o

/-! ## Loop interchange -/

section

variable [Arithmetic]

/-- Adds the products of two lists to a number, from the left. -/
def addProducts (acc : Float32) (xs ws : List Float32) : Float32 :=
  (xs.zip ws).foldl (fun acc (x, w) => add acc (mul x w)) acc

/-- The sum of products starts from zero. -/
theorem dot_eq_addProducts (xs ws : List Float32) : dot xs ws = addProducts Scalar.zero xs ws := rfl

/-- Advancing all outputs by one input, then adding what is left of each row. -/
theorem zipWith_addProducts_advance (x : Float32) (xs acc column : List Float32)
    (rest : List (List Float32)) :
    List.zipWith (fun a row => addProducts a xs row) (advance acc x column) rest =
      List.zipWith (fun a row => addProducts a (x :: xs) row) acc
        (List.zipWith List.cons column rest) := by
  apply List.ext_getElem
  · simp only [advance, List.length_zipWith]
    omega
  · intro i hi hj
    simp only [List.getElem_zipWith, advance]
    rfl

/-- All outputs advanced over the columns are each output's sum over its own row. -/
theorem foldl_advance (input : List Float32) (rows : List (List Float32)) (acc : List Float32)
    (hrows : ∀ row ∈ rows, row.length = input.length) (hacc : acc.length = rows.length) :
    (input.zip (transpose input.length rows)).foldl (fun acc (x, row) => advance acc x row) acc =
      List.zipWith (fun a row => addProducts a input row) acc rows := by
  -- The first input advances every output by its column, which leaves the narrower rows.
  induction input generalizing rows acc with
  | nil =>
    rw [List.zip_nil_left, List.foldl_nil]
    apply List.ext_getElem
    · rw [List.length_zipWith, hacc, Nat.min_self]
    · intro i hi hj
      rw [List.getElem_zipWith]
      rfl
  | cons x xs ih =>
    obtain ⟨column, rest, hc, hl, rfl, hw⟩ := exists_zipWith_cons xs.length rows hrows
    have hlen : (advance acc x column).length = rest.length := by
      rw [advance, List.length_zipWith, hacc, hc, hl, Nat.min_self]
    rw [List.length_cons, transpose_zipWith_cons _ _ _ (hc.trans hl.symm), List.zip_cons_cons,
      List.foldl_cons, ih rest _ hw hlen, zipWith_addProducts_advance]

/-- The affine map over the flat kernel of a layer is its forward pass. -/
theorem affine_flatten_kernel {l : Linear} (h : l.WellShaped) {input : List Float32}
    (hinput : input.length = l.inputs) :
    affine input l.kernel.flatten l.bias = l.forward input := by
  have hcolumn : ∀ column ∈ l.kernel, column.length = l.bias.length := by
    intro column hc
    rw [length_of_mem_transpose _ _ column hc, h.length_weight, h.length_bias]
  unfold affine
  -- Without outputs there are no columns to cut the flat kernel into.
  by_cases hout : l.bias.length = 0
  · have hbias : l.bias = [] := List.eq_nil_of_length_eq_zero hout
    rw [if_pos hout, Linear.forward, hbias, List.zipWith_nil_right]
  · have hrows : ∀ row ∈ l.weight, row.length = input.length := fun row hr => by
      rw [h.length_row row hr, hinput]
    have hzeros : (List.replicate l.bias.length Scalar.zero).length = l.weight.length := by
      rw [List.length_replicate, h.length_bias, h.length_weight]
    rw [if_neg hout, chunks_flatten _ _ (Nat.pos_of_ne_zero hout) hcolumn, accumulate,
      Linear.kernel, ← hinput, foldl_advance input l.weight _ hrows hzeros, Linear.forward]
    apply List.ext_getElem
    · rw [List.length_zipWith, List.length_zipWith, List.length_zipWith, hzeros, Nat.min_self]
    · intro i hi hj
      simp only [List.getElem_zipWith, List.getElem_replicate, dot_eq_addProducts]

/-! ## Lengths -/

/-- Advancing keeps the number of outputs when rows are long enough. -/
theorem length_foldl_advance (outputs : Nat) (pairs : List (Float32 × List Float32))
    (acc : List Float32) (hacc : acc.length = outputs)
    (hrows : ∀ p ∈ pairs, p.2.length = outputs) :
    (pairs.foldl (fun acc (x, row) => advance acc x row) acc).length = outputs := by
  induction pairs generalizing acc with
  | nil => exact hacc
  | cons p pairs ih =>
    obtain ⟨x, row⟩ := p
    rw [List.foldl_cons]
    apply ih
    · show (advance acc x row).length = outputs
      rw [advance, List.length_zipWith, hacc, hrows (x, row) (.head _), Nat.min_self]
    · exact fun q hq => hrows q (.tail _ hq)

/-- An affine map has one output per bias. -/
theorem length_affine (input kernel bias : List Float32) :
    (affine input kernel bias).length = bias.length := by
  unfold affine
  by_cases hout : bias.length = 0
  · rw [if_pos hout, hout, List.length_nil]
  · rw [if_neg hout, List.length_zipWith, accumulate, length_foldl_advance bias.length,
      Nat.min_self]
    · rw [List.length_replicate]
    · intro p hp
      exact length_of_mem_runs _ _ kernel (Nat.div_mul_le_self _ _) p.2 (List.of_mem_zip hp).2

/-- The outputs of a well-shaped layer. -/
theorem Linear.length_forward {l : Linear} (h : l.WellShaped) (input : List Float32) :
    (l.forward input).length = l.outputs := by
  rw [Linear.forward, List.length_zipWith, h.length_weight, h.length_bias, Nat.min_self]

/-- Normalization keeps the length of a vector as long as its correction. -/
theorem length_normalize {xs gamma beta : List Float32} (epsilon : Float32)
    (hgamma : gamma.length = xs.length) (hbeta : beta.length = xs.length) :
    (normalize xs gamma beta epsilon).length = xs.length := by
  rw [normalize, List.length_zipWith, List.length_zip, hgamma, hbeta, Nat.min_self, Nat.min_self]

end

/-! ## Layers over their flat kernels -/

/-- The flat kernel of a layer holds its weights in the order of inputs. -/
theorem Linear.getElem?_flatten_kernel {l : Linear} (h : l.WellShaped) {i o : Nat}
    (hi : i < l.inputs) (ho : o < l.outputs) :
    l.kernel.flatten[i * l.outputs + o]? = l.weight.flatten[o * l.inputs + i]? := by
  have hcolumn : ∀ column ∈ l.kernel, column.length = l.outputs := fun column hc => by
    rw [length_of_mem_transpose _ _ column hc, h.length_weight]
  rw [getElem?_flatten_of_length hcolumn i ho, getElem?_flatten_of_length h.length_row o hi]
  exact getElem?_transpose h.length_row i o

/-- Over the columns of its weights, laid out one input after the other, the affine map computes
the forward pass of a layer, whatever addition and multiplication are. -/
theorem Linear.affine_eq_forward {l : Linear} (h : l.WellShaped) {input : List Float32}
    (hinput : input.length = l.inputs) :
    l.weight.flatten.length = l.inputs * l.outputs ∧
      l.kernel.flatten.length = input.length * l.bias.length ∧
      (∀ i < l.inputs, ∀ o < l.outputs,
        l.kernel.flatten[i * l.outputs + o]? = l.weight.flatten[o * l.inputs + i]?) ∧
      ∀ [Arithmetic], affine input l.kernel.flatten l.bias = l.forward input := by
  refine ⟨?_, ?_, fun i hi o ho => Linear.getElem?_flatten_kernel h hi ho, ?_⟩
  · rw [length_flatten_of_length _ _ h.length_row, h.length_weight, Nat.mul_comm]
  · rw [length_flatten_of_length l.outputs, Linear.kernel, length_transpose _ _ h.length_row,
      hinput, h.length_bias]
    intro column hc
    rw [length_of_mem_transpose _ _ column hc, h.length_weight]
  · intro _
    exact affine_flatten_kernel h hinput

/-- A layer of three inputs and two outputs, some of its weights infinite. -/
def Linear.twoOfThree : Linear :=
  ⟨3, 2, [[Scalar.one, Scalar.zero, Scalar.negInfinity],
    [Scalar.infinity, Scalar.one, Scalar.zero]], [Scalar.one, Scalar.zero]⟩

/-- The weights of `twoOfThree`, one input after the other. -/
theorem Linear.affine_eq_forward_twoOfThree : Linear.twoOfThree.WellShaped ∧
    ∀ [Arithmetic], affine [Scalar.one, Scalar.zero, Scalar.infinity]
        [Scalar.one, Scalar.infinity, Scalar.zero, Scalar.one, Scalar.negInfinity, Scalar.zero]
        [Scalar.one, Scalar.zero] =
      Linear.twoOfThree.forward [Scalar.one, Scalar.zero, Scalar.infinity] := by
  have hshape : Linear.twoOfThree.WellShaped := ⟨rfl, by decide, rfl, by decide⟩
  have hinput : [Scalar.one, Scalar.zero, Scalar.infinity].length = Linear.twoOfThree.inputs := rfl
  obtain ⟨-, -, -, hforward⟩ := Linear.affine_eq_forward hshape hinput
  refine ⟨hshape, ?_⟩
  intro _
  exact hforward

end PolicyValue
