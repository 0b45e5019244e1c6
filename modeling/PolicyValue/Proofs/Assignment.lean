import PolicyValue.Proofs.Affine
import PolicyValue.Proofs.Loading

/-!
# Assigning a kernel in place

`Linear.assign` exchanges rows of a layer's kernel, up to the first that is ragged.  A layer whose
weights lie in one buffer is overwritten cell by cell instead: the weights of one input are a stride
apart, and a row is measured when those before it have been written already.  `FlatLinear.assign?`
does that, and has no result where a cell is missing.

* `getElem?_set_cell`: a write reaches its own cell only;
* `HoldsKernel.exists_writeRows`: rows of the right length replace those of the buffer's kernel,
  whatever follows them;
* `Linear.Assigned`: the ways an assignment ends;
* `Linear.Assigned.assign?_flat`: no cell is missing, and the buffer ends as the weights that
  `Linear.assign` gives the layer;
* `Linear.assign_exact`: when a kernel is accepted, and what is left of the layer when it is not.
-/

namespace PolicyValue

/-! ## Layers in one buffer -/

/-- An affine layer with its weights one after the other, those of one output together. -/
structure FlatLinear where
  /-- The number of inputs. -/
  inputs : Nat
  /-- The number of outputs. -/
  outputs : Nat
  /-- The weight of input `i` for output `o` in cell `o * inputs + i`. -/
  cells : List Float32
  /-- One bias per output. -/
  bias : List Float32
deriving DecidableEq

/-- The weights of a layer in one buffer. -/
def Linear.flat (l : Linear) : FlatLinear := ⟨l.inputs, l.outputs, l.weight.flatten, l.bias⟩

/-- Writes the entries of a row of the kernel, from output `o` on, into the cells of input `i`. -/
def writeRow? (inputs i : Nat) : Nat → List Float32 → List Float32 → Option (List Float32)
  | _, [], cells => some cells
  | o, w :: row, cells =>
    if o * inputs + i < cells.length then
      writeRow? inputs i (o + 1) row (cells.set (o * inputs + i) w)
    else none

/-- Writes rows of a kernel, from input `i` on, up to the first of wrong length. -/
def writeRows? (key : String) (inputs outputs : Nat) :
    Nat → List (List Float32) → List Float32 → Option (List Float32 × Except Error Unit)
  | _, [], cells => some (cells, .ok ())
  | i, row :: rows, cells =>
    if row.length ≠ outputs then
      some (cells,
        .error (.shapeMismatch (key ++ ".kernel[" ++ i.repr ++ "]") row.length outputs))
    else (writeRow? inputs i 0 row cells).bind (writeRows? key inputs outputs (i + 1) rows)

namespace FlatLinear

/-- Overwrites a layer in its buffer.  The bias is copied last, over one of the same length. -/
def assign? (l : FlatLinear) (key : String) (kernel : List (List Float32)) (bias : List Float32) :
    Option (FlatLinear × Except Error Unit) :=
  if kernel.length ≠ l.inputs then
    some (l, .error (.shapeMismatch (key ++ ".kernel rows") kernel.length l.inputs))
  else if bias.length ≠ l.outputs then
    some (l, .error (.shapeMismatch (key ++ ".bias") bias.length l.outputs))
  else
    match writeRows? key l.inputs l.outputs 0 kernel l.cells with
    | none => none
    | some (cells, .error error) => some ({ l with cells := cells }, .error error)
    | some (cells, .ok ()) =>
      if bias.length = l.bias.length then some ({ l with cells := cells, bias := bias }, .ok ())
      else none

/-- Reads the kernel out of the buffer, a row per input. -/
def kernel? (l : FlatLinear) : Option (List (List Float32)) :=
  (List.range l.inputs).mapM fun i =>
    (List.range l.outputs).mapM fun o => l.cells[o * l.inputs + i]?

end FlatLinear

/-! ## Cells of the buffer -/

/-- The cell of an input below `inputs` and an output below `outputs` is in the buffer. -/
theorem cell_lt {inputs outputs i o : Nat} (hi : i < inputs) (ho : o < outputs) :
    o * inputs + i < outputs * inputs := by
  calc o * inputs + i < o * inputs + inputs := Nat.add_lt_add_left hi _
    _ = (o + 1) * inputs := (Nat.succ_mul o inputs).symm
    _ ≤ outputs * inputs := Nat.mul_le_mul_right inputs ho

/-- Different inputs and different outputs have different cells. -/
theorem cell_inj {inputs i j o p : Nat} (hi : i < inputs) (hj : j < inputs) :
    o * inputs + i = p * inputs + j ↔ o = p ∧ i = j := by
  have hquotient : ∀ k < inputs, ∀ q, (q * inputs + k) / inputs = q := by
    intro k hk q
    rw [Nat.add_comm, Nat.add_mul_div_right k q (Nat.zero_lt_of_lt hk), Nat.div_eq_of_lt hk,
      Nat.zero_add]
  constructor
  · intro h
    have hop : o = p := by rw [← hquotient i hi o, h, hquotient j hj p]
    subst hop
    exact ⟨rfl, Nat.add_left_cancel h⟩
  · rintro ⟨rfl, rfl⟩
    rfl

/-- A write reaches the cell of its input and output and no other. -/
theorem getElem?_set_cell {inputs i j o : Nat} (hi : i < inputs) (hj : j < inputs)
    {cells : List Float32} (hcell : o * inputs + i < cells.length) (w : Float32) (p : Nat) :
    (cells.set (o * inputs + i) w)[p * inputs + j]? =
      if o = p ∧ i = j then some w else cells[p * inputs + j]? := by
  rw [List.getElem?_set, if_pos hcell]
  simp only [cell_inj hi hj]

/-- The writes of one row reach the cells of its input, from its first output on, and no other. -/
theorem exists_writeRow {inputs outputs i : Nat} (hi : i < inputs) (row : List Float32)
    {o : Nat} (ho : o + row.length = outputs) {cells : List Float32}
    (hcells : cells.length = outputs * inputs) :
    ∃ written, writeRow? inputs i o row cells = some written ∧ written.length = cells.length ∧
      ∀ j < inputs, ∀ p, written[p * inputs + j]? =
        if i = j ∧ o ≤ p then row[p - o]? else cells[p * inputs + j]? := by
  induction row generalizing o cells with
  | nil =>
    refine ⟨cells, rfl, rfl, ?_⟩
    intro j hj p
    by_cases hp : i = j ∧ o ≤ p
    · -- behind the last output the buffer ends, as the row does
      have hend : cells.length ≤ p * inputs + j := by
        rw [hcells, ← ho]
        exact Nat.le_add_right_of_le (Nat.mul_le_mul_right inputs hp.2)
      rw [if_pos hp, List.getElem?_eq_none hend, List.getElem?_nil]
    · rw [if_neg hp]
  | cons w row ih =>
    rw [List.length_cons] at ho
    have hcell : o * inputs + i < cells.length := by
      rw [hcells]
      exact cell_lt hi (by omega)
    obtain ⟨written, hwritten, hlength, hentries⟩ :=
      ih (o := o + 1) (by omega) ((List.length_set (a := w)).trans hcells)
    refine ⟨written, ?_, ?_, ?_⟩
    · rw [writeRow?, if_pos hcell, hwritten]
    · rw [hlength, List.length_set]
    · intro j hj p
      rw [hentries j hj p, getElem?_set_cell hi hj hcell]
      -- A cell of this input lies before, at or behind the one that was written first.
      by_cases hij : i = j
      · rcases Nat.lt_trichotomy p o with hp | rfl | hp
        · rw [if_neg (by omega), if_neg (by omega), if_neg (by omega)]
        · rw [if_neg (by omega), if_pos ⟨rfl, hij⟩, if_pos ⟨hij, Nat.le_refl p⟩, Nat.sub_self,
            List.getElem?_cons_zero]
        · rw [if_pos ⟨hij, hp⟩, if_pos ⟨hij, Nat.le_of_lt hp⟩,
            show p - o = p - (o + 1) + 1 by omega, List.getElem?_cons_succ]
      · rw [if_neg fun h => hij h.1, if_neg fun h => hij h.2, if_neg fun h => hij h.1]

/-! ## Kernels in a buffer -/

/-- A pass over a range that finds every entry of a list gives the list. -/
theorem mapM_range_eq_some {α : Type} {f : Nat → Option α} {n : Nat} {ys : List α}
    (hlength : ys.length = n) (h : ∀ i < n, f i = ys[i]?) : (List.range n).mapM f = some ys := by
  induction ys generalizing f n with
  | nil =>
    subst hlength
    rfl
  | cons y ys ih =>
    subst hlength
    have hrest : (List.range ys.length).mapM (f ∘ Nat.succ) = some ys := by
      apply ih rfl
      intro i hi
      exact (h (i + 1) (Nat.succ_lt_succ hi)).trans List.getElem?_cons_succ
    rw [List.length_cons, List.range_succ_eq_map, List.mapM_cons, h 0 (Nat.succ_pos _),
      List.mapM_map, hrest]
    rfl

/-- A buffer holds a kernel: every entry lies in its cell, and there are no other cells. -/
structure HoldsKernel (inputs outputs : Nat) (cells : List Float32)
    (kernel : List (List Float32)) : Prop where
  /-- One row per input. -/
  length_kernel : kernel.length = inputs
  /-- One entry per output in each row. -/
  length_row : ∀ row ∈ kernel, row.length = outputs
  /-- One cell per input and output. -/
  length_cells : cells.length = outputs * inputs
  /-- The entry of input `i` for output `o` is in cell `o * inputs + i`. -/
  getElem?_cell : ∀ i < inputs, ∀ o < outputs,
    cells[o * inputs + i]? = kernel[i]?.bind (·[o]?)

/-- The flat weights of a layer hold its kernel. -/
theorem Linear.WellShaped.holdsKernel {l : Linear} (h : l.WellShaped) :
    HoldsKernel l.inputs l.outputs l.weight.flatten l.kernel where
  length_kernel := Linear.length_kernel h
  length_row := Linear.length_of_mem_kernel h
  length_cells := by rw [length_flatten_of_length _ _ h.length_row, h.length_weight]
  getElem?_cell i hi o _ := by
    rw [getElem?_flatten_of_length h.length_row o hi]
    exact (getElem?_transpose h.length_row i o).symm

namespace HoldsKernel

variable {inputs outputs : Nat} {cells : List Float32} {kernel : List (List Float32)}

/-- A buffer is determined by the kernel that it holds. -/
theorem unique (h : HoldsKernel inputs outputs cells kernel) {cells' : List Float32}
    (h' : HoldsKernel inputs outputs cells' kernel) : cells = cells' := by
  -- Every cell is that of some input and output, which quotient and remainder give back.
  apply List.ext_getElem?
  intro n
  rcases Nat.lt_or_ge n (outputs * inputs) with hn | hn
  · have hpos : 0 < inputs := Nat.pos_of_ne_zero fun hzero => by simp [hzero] at hn
    have hi : n % inputs < inputs := Nat.mod_lt n hpos
    have ho : n / inputs < outputs := Nat.div_lt_of_lt_mul (by rwa [Nat.mul_comm])
    have hcell : n / inputs * inputs + n % inputs = n := Nat.div_add_mod' n inputs
    rw [← hcell, h.getElem?_cell _ hi _ ho, h'.getElem?_cell _ hi _ ho]
  · rw [List.getElem?_eq_none (by rwa [h.length_cells]),
      List.getElem?_eq_none (by rwa [h'.length_cells])]

/-- A row of the right length replaces one row of the kernel. -/
theorem exists_writeRow (h : HoldsKernel inputs outputs cells kernel) {i : Nat} (hi : i < inputs)
    {row : List Float32} (hrow : row.length = outputs) :
    ∃ written, writeRow? inputs i 0 row cells = some written ∧
      HoldsKernel inputs outputs written (kernel.set i row) := by
  obtain ⟨written, hwritten, hlength, hentries⟩ :=
    PolicyValue.exists_writeRow hi row (by rwa [Nat.zero_add]) h.length_cells
  refine ⟨written, hwritten, ?_, ?_, ?_, ?_⟩
  · rw [List.length_set, h.length_kernel]
  · intro row' hrow'
    rcases List.mem_or_eq_of_mem_set hrow' with hold | rfl
    · exact h.length_row row' hold
    · exact hrow
  · rw [hlength, h.length_cells]
  · intro j hj o ho
    rw [hentries j hj o]
    by_cases hij : i = j
    · subst hij
      rw [if_pos ⟨rfl, Nat.zero_le o⟩, List.getElem?_set_self (by rwa [h.length_kernel])]
      rfl
    · rw [if_neg fun hp => hij hp.1, List.getElem?_set_ne hij, h.getElem?_cell j hj o ho]

/-- Rows of the right length replace those of the kernel, whatever follows them. -/
theorem exists_writeRows (key : String) (h : HoldsKernel inputs outputs cells kernel) {i : Nat}
    {rows : List (List Float32)} (hrows : ∀ row ∈ rows, row.length = outputs)
    (hi : i + rows.length ≤ inputs) :
    ∃ written, HoldsKernel inputs outputs written
        (kernel.take i ++ rows ++ kernel.drop (i + rows.length)) ∧
      ∀ rest, writeRows? key inputs outputs i (rows ++ rest) cells =
        writeRows? key inputs outputs (i + rows.length) rest written := by
  -- The buffer after the first row holds the kernel with this row, and the others start from there.
  induction rows generalizing i cells kernel with
  | nil =>
    refine ⟨cells, ?_, fun rest => rfl⟩
    rwa [List.append_nil, List.length_nil, Nat.add_zero, List.take_append_drop]
  | cons row rows ih =>
    rw [List.length_cons] at hi
    obtain ⟨hrow, hrest⟩ := List.forall_mem_cons.1 hrows
    obtain ⟨first, hfirst, hholds⟩ := h.exists_writeRow (i := i) (by omega) hrow
    obtain ⟨written, hwritten, hcontinue⟩ := ih hholds (i := i + 1) hrest (by omega)
    have hlt : i < kernel.length := by
      rw [h.length_kernel]
      omega
    have htake : (kernel.set i row).take (i + 1) = kernel.take i ++ [row] := by
      rw [List.take_add_one, List.take_set_of_le (Nat.le_refl i), List.getElem?_set_self hlt]
      rfl
    have hdrop : (kernel.set i row).drop (i + 1 + rows.length) =
        kernel.drop (i + 1 + rows.length) := List.drop_set_of_lt (by omega)
    have hlength : i + (row :: rows).length = i + 1 + rows.length := by
      rw [List.length_cons]
      omega
    refine ⟨written, ?_, ?_⟩
    · rw [htake, hdrop, List.append_assoc (kernel.take i)] at hwritten
      rw [hlength]
      exact hwritten
    · intro rest
      rw [List.cons_append, writeRows?, if_neg (not_not.2 hrow), hfirst, Option.bind_some,
        hcontinue, hlength]

/-- The kernel that a buffer holds is read out of it. -/
theorem kernel?_eq {l : FlatLinear} (h : HoldsKernel l.inputs l.outputs l.cells kernel) :
    l.kernel? = some kernel := by
  apply mapM_range_eq_some h.length_kernel
  intro i hi
  have hlt : i < kernel.length := by rwa [h.length_kernel]
  have hrow : kernel[i]? = some kernel[i] := List.getElem?_eq_getElem hlt
  rw [hrow]
  apply mapM_range_eq_some (h.length_row _ (List.getElem_mem _))
  intro o ho
  rw [h.getElem?_cell i hi o ho, hrow]
  rfl

end HoldsKernel

/-! ## What becomes of a layer -/

/-- Row `r` is the first whose length is not `width`. -/
structure RaggedAt (width : Nat) (rows : List (List Float32)) (r : Nat) (row : List Float32) :
    Prop where
  /-- The row. -/
  found : rows[r]? = some row
  /-- It has another length. -/
  length_ne : row.length ≠ width
  /-- The rows before it have this length. -/
  length_before : ∀ before ∈ rows.take r, before.length = width

/-- The search for a ragged row stops at the first. -/
theorem firstRagged?_eq_some_iff {width : Nat} {rows : List (List Float32)} {r : Nat} :
    Linear.firstRagged? width rows = some r ↔ ∃ row, RaggedAt width rows r row := by
  rw [Linear.firstRagged?, List.findIdx?_eq_some_iff_getElem]
  constructor
  · rintro ⟨hr, hne, hbefore⟩
    refine ⟨rows[r], List.getElem?_eq_getElem hr, by simpa using hne, ?_⟩
    intro before hmem
    obtain ⟨i, hi, rfl⟩ := List.getElem_of_mem hmem
    rw [List.length_take, Nat.lt_min] at hi
    simpa using hbefore i hi.1
  · rintro ⟨row, hfound, hne, hbefore⟩
    obtain ⟨hr, rfl⟩ := List.getElem?_eq_some_iff.1 hfound
    refine ⟨hr, by simpa using hne, ?_⟩
    intro i hi
    have hmem : rows[i] ∈ rows.take r :=
      List.mem_take_iff_getElem.2 ⟨i, by omega, rfl⟩
    simpa using hbefore _ hmem

namespace RaggedAt

variable {width : Nat} {rows : List (List Float32)} {r : Nat} {row : List Float32}

/-- There are as many rows before the first ragged one as its number says. -/
theorem length_take (h : RaggedAt width rows r row) : (rows.take r).length = r := by
  have hr : r < rows.length := (List.getElem?_eq_some_iff.1 h.found).1
  rw [List.length_take, Nat.min_eq_left (Nat.le_of_lt hr)]

/-- The rows before the first ragged one, this row and the rows behind it are all rows. -/
theorem take_append_drop (h : RaggedAt width rows r row) :
    rows.take r ++ row :: rows.drop (r + 1) = rows := by
  obtain ⟨hr, rfl⟩ := List.getElem?_eq_some_iff.1 h.found
  rw [List.getElem_cons_drop, List.take_append_drop]

/-- Only one row is the first that is ragged. -/
theorem unique (h : RaggedAt width rows r row) {r' : Nat} {row' : List Float32}
    (h' : RaggedAt width rows r' row') : r = r' ∧ row = row' := by
  have hsearch := firstRagged?_eq_some_iff.2 ⟨row, h⟩
  rw [firstRagged?_eq_some_iff.2 ⟨row', h'⟩] at hsearch
  cases hsearch
  exact ⟨rfl, Option.some.inj (h.found.symm.trans h'.found)⟩

end RaggedAt

namespace Linear

/-- A layer with another kernel. -/
def withKernel (l : Linear) (kernel : List (List Float32)) : Linear :=
  { l with weight := transpose l.outputs kernel }

/-- What becomes of a layer that is assigned a kernel and a bias, and the answer. -/
inductive Assigned (l : Linear) (key : String) (kernel : List (List Float32))
    (bias : List Float32) : Linear × Except Error Unit → Prop
  /-- The kernel has another number of rows than there are inputs. -/
  | rowCount (hrows : kernel.length ≠ l.inputs) :
      Assigned l key kernel bias
        (l, .error (.shapeMismatch (key ++ ".kernel rows") kernel.length l.inputs))
  /-- There is another number of biases than of outputs. -/
  | biasLength (hrows : kernel.length = l.inputs) (hbias : bias.length ≠ l.outputs) :
      Assigned l key kernel bias
        (l, .error (.shapeMismatch (key ++ ".bias") bias.length l.outputs))
  /-- A row is ragged: those before it have been taken over. -/
  | ragged (hrows : kernel.length = l.inputs) (hbias : bias.length = l.outputs) {r : Nat}
      {row : List Float32} (hragged : RaggedAt l.outputs kernel r row) :
      Assigned l key kernel bias
        (l.withKernel (kernel.take r ++ l.kernel.drop r),
          .error (.shapeMismatch (key ++ ".kernel[" ++ r.repr ++ "]") row.length l.outputs))
  /-- Kernel and bias have the layer's shape and are taken over. -/
  | whole (hrows : kernel.length = l.inputs) (hbias : bias.length = l.outputs)
      (hrow : ∀ row ∈ kernel, row.length = l.outputs) :
      Assigned l key kernel bias ({ l.withKernel kernel with bias := bias }, .ok ())

/-- An assignment ends in one of these ways. -/
theorem assigned (l : Linear) (key : String) (kernel : List (List Float32)) (bias : List Float32) :
    Assigned l key kernel bias (l.assign key kernel bias) := by
  unfold assign
  by_cases hrows : kernel.length = l.inputs
  · by_cases hbias : bias.length = l.outputs
    · rw [if_neg (not_not.2 hrows), if_neg (not_not.2 hbias)]
      cases hsearch : firstRagged? l.outputs kernel with
      | none => exact .whole hrows hbias (firstRagged?_eq_none_iff.1 hsearch)
      | some r =>
        obtain ⟨row, hragged⟩ := firstRagged?_eq_some_iff.1 hsearch
        simp only [hragged.found, Option.map_some, Option.getD_some]
        exact .ragged hrows hbias hragged
    · rw [if_neg (not_not.2 hrows), if_pos hbias]
      exact .biasLength hrows hbias
  · rw [if_pos hrows]
    exact .rowCount hrows

variable {l : Linear} {kernel : List (List Float32)}

/-- A kernel of a layer's shape is read back. -/
theorem kernel_withKernel (hrows : kernel.length = l.inputs)
    (hrow : ∀ row ∈ kernel, row.length = l.outputs) : (l.withKernel kernel).kernel = kernel := by
  show transpose l.inputs (transpose l.outputs kernel) = kernel
  rw [← hrows, transpose_transpose l.outputs kernel hrow]

/-- A kernel of a layer's shape keeps the layer well shaped. -/
theorem WellShaped.withKernel (h : l.WellShaped) (hrows : kernel.length = l.inputs)
    (hrow : ∀ row ∈ kernel, row.length = l.outputs) : (l.withKernel kernel).WellShaped where
  length_weight := length_transpose _ _ hrow
  length_row row hmem := by rw [length_of_mem_transpose _ _ row hmem, hrows]; rfl
  length_bias := h.length_bias
  inputs_pos := h.inputs_pos

/-- New rows in front of the old ones from there on make a kernel of the layer's shape. -/
theorem WellShaped.shape_append_drop (h : l.WellShaped) {rows : List (List Float32)}
    (hlength : rows.length ≤ l.inputs) (hrows : ∀ row ∈ rows, row.length = l.outputs) :
    (rows ++ l.kernel.drop rows.length).length = l.inputs ∧
      ∀ row ∈ rows ++ l.kernel.drop rows.length, row.length = l.outputs := by
  constructor
  · rw [List.length_append, List.length_drop, length_kernel h, Nat.add_sub_cancel' hlength]
  · intro row hmem
    rcases List.mem_append.1 hmem with hnew | hold
    · exact hrows row hnew
    · exact length_of_mem_kernel h row (List.mem_of_mem_drop hold)

/-- Rows before a ragged one and the old rows from there on make a kernel of the layer's shape. -/
theorem WellShaped.shape_of_raggedAt (h : l.WellShaped) (hrows : kernel.length = l.inputs) {r : Nat}
    {row : List Float32} (hragged : RaggedAt l.outputs kernel r row) :
    (kernel.take r ++ l.kernel.drop r).length = l.inputs ∧
      ∀ row ∈ kernel.take r ++ l.kernel.drop r, row.length = l.outputs := by
  have hle : (kernel.take r).length ≤ l.inputs := by
    rw [← hrows]
    exact List.length_take_le' r kernel
  have hshape := h.shape_append_drop hle hragged.length_before
  rwa [hragged.length_take] at hshape

/-- Writing rows of the right length leaves the flat weights of the layer with these rows. -/
theorem WellShaped.writeRows?_append (h : l.WellShaped) (key : String)
    {rows : List (List Float32)} (hlength : rows.length ≤ l.inputs)
    (hrows : ∀ row ∈ rows, row.length = l.outputs) (rest : List (List Float32)) :
    writeRows? key l.inputs l.outputs 0 (rows ++ rest) l.weight.flatten =
      writeRows? key l.inputs l.outputs rows.length rest
        (l.withKernel (rows ++ l.kernel.drop rows.length)).weight.flatten := by
  obtain ⟨written, hwritten, hwrites⟩ :=
    h.holdsKernel.exists_writeRows key (i := 0) hrows (by rwa [Nat.zero_add])
  rw [List.take_zero, List.nil_append, Nat.zero_add] at hwritten
  obtain ⟨hcount, hwidth⟩ := h.shape_append_drop hlength hrows
  have hlayer := (h.withKernel hcount hwidth).holdsKernel
  rw [kernel_withKernel hcount hwidth] at hlayer
  rw [hwrites rest, Nat.zero_add, hwritten.unique hlayer]

namespace Assigned

variable {key : String} {bias : List Float32} {result : Linear × Except Error Unit}

/-- A kernel and a bias are accepted exactly if they have the layer's shape. -/
theorem snd_eq_ok_iff (h : l.Assigned key kernel bias result) :
    result.2 = .ok () ↔ kernel.length = l.inputs ∧ (∀ row ∈ kernel, row.length = l.outputs) ∧
      bias.length = l.outputs := by
  cases h with
  | rowCount hrows => exact iff_of_false nofun fun hfits => hrows hfits.1
  | biasLength hrows hbias => exact iff_of_false nofun fun hfits => hbias hfits.2.2
  | ragged hrows hbias hragged =>
    refine iff_of_false nofun fun hfits => hragged.length_ne ?_
    exact hfits.2.1 _ (List.mem_of_getElem? hragged.found)
  | whole hrows hbias hrow => exact iff_of_true rfl ⟨hrows, hrow, hbias⟩

/-- An accepted kernel and its bias are read back. -/
theorem kernel_eq (h : l.Assigned key kernel bias result) (hok : result.2 = .ok ()) :
    result.1.kernel = kernel ∧ result.1.bias = bias := by
  cases h with
  | rowCount hrows => cases hok
  | biasLength hrows hbias => cases hok
  | ragged hrows hbias hragged => cases hok
  | whole hrows hbias hrow => exact ⟨kernel_withKernel hrows hrow, rfl⟩

/-- A wrong number of rows or of biases leaves the layer as it is. -/
theorem fst_eq (h : l.Assigned key kernel bias result)
    (hcounts : kernel.length ≠ l.inputs ∨ bias.length ≠ l.outputs) : result.1 = l := by
  cases h with
  | rowCount hrows => rfl
  | biasLength hrows hbias => rfl
  | ragged hrows hbias hragged => exact (hcounts.elim (· hrows) (· hbias)).elim
  | whole hrows hbias hrow => exact (hcounts.elim (· hrows) (· hbias)).elim

/-- A ragged row ends the assignment: rows before it are new, the others and the bias are old. -/
theorem of_raggedAt (h : l.Assigned key kernel bias result) (hl : l.WellShaped)
    (hrows : kernel.length = l.inputs) (hbias : bias.length = l.outputs) {r : Nat}
    {row : List Float32} (hragged : RaggedAt l.outputs kernel r row) :
    result.1.kernel = kernel.take r ++ l.kernel.drop r ∧ result.1.bias = l.bias ∧
      result.2 =
        .error (.shapeMismatch (key ++ ".kernel[" ++ r.repr ++ "]") row.length l.outputs) := by
  cases h with
  | rowCount hne => exact absurd hrows hne
  | biasLength _ hne => exact absurd hbias hne
  | ragged _ _ hfirst =>
    obtain ⟨rfl, rfl⟩ := hragged.unique hfirst
    obtain ⟨hcount, hwidth⟩ := hl.shape_of_raggedAt hrows hragged
    exact ⟨kernel_withKernel hcount hwidth, rfl, rfl⟩
  | whole _ _ hrow => exact absurd (hrow row (List.mem_of_getElem? hragged.found)) hragged.length_ne

/-- Whatever becomes of a layer, it keeps its widths and its shape. -/
theorem wellShaped (h : l.Assigned key kernel bias result) (hl : l.WellShaped) :
    result.1.inputs = l.inputs ∧ result.1.outputs = l.outputs ∧ result.1.WellShaped := by
  cases h with
  | rowCount hrows => exact ⟨rfl, rfl, hl⟩
  | biasLength hrows hbias => exact ⟨rfl, rfl, hl⟩
  | ragged hrows hbias hragged =>
    obtain ⟨hcount, hwidth⟩ := hl.shape_of_raggedAt hrows hragged
    exact ⟨rfl, rfl, hl.withKernel hcount hwidth⟩
  | whole hrows hbias hrow =>
    obtain ⟨hweight, hwidth, -, hpos⟩ := hl.withKernel hrows hrow
    exact ⟨rfl, rfl, hweight, hwidth, hbias, hpos⟩

/-- The writes in the buffer of a layer find every cell, and leave what becomes of the layer. -/
theorem assign?_flat (h : l.Assigned key kernel bias result) (hl : l.WellShaped) :
    l.flat.assign? key kernel bias = some (result.1.flat, result.2) := by
  cases h with
  | rowCount hrows => exact if_pos hrows
  | biasLength hrows hbias => exact (if_neg (not_not.2 hrows)).trans (if_pos hbias)
  | @ragged hrows hbias r row hragged =>
    have hle : (kernel.take r).length ≤ l.inputs := by
      rw [← hrows]
      exact List.length_take_le' r kernel
    have hwrites := hl.writeRows?_append key hle hragged.length_before (row :: kernel.drop (r + 1))
    rw [hragged.take_append_drop, hragged.length_take, writeRows?, if_pos hragged.length_ne]
      at hwrites
    simp only [FlatLinear.assign?, flat, hrows, hbias, ne_eq, not_true, if_false, hwrites]
    rfl
  | whole hrows hbias hrow =>
    have hold : l.kernel.drop kernel.length = [] :=
      List.drop_eq_nil_of_le (Nat.le_of_eq ((length_kernel hl).trans hrows.symm))
    have hwrites := hl.writeRows?_append key (Nat.le_of_eq hrows) hrow []
    rw [List.append_nil, hold, List.append_nil, writeRows?] at hwrites
    simp only [FlatLinear.assign?, flat, hrows, hbias, hl.length_bias, ne_eq, not_true, if_false,
      if_true, hwrites]
    rfl

end Assigned

/-- **Assigning a kernel is exact, and its failure is bounded.**  A kernel and a bias are accepted
exactly if they have the layer's shape, and are then read back.  A wrong number of rows or of biases
leaves the layer as it is; the first ragged row is named by the error, and leaves the new rows
before it, the old rows from there on and the old bias.  In every case the layer keeps its widths
and the number of its weights.  Written cell by cell into one buffer, and read out of it again, the
kernel is the same, and no cell is missing. -/
theorem assign_exact {l : Linear} (h : l.WellShaped) (key : String)
    (kernel : List (List Float32)) (bias : List Float32) :
    ((l.assign key kernel bias).2 = .ok () ↔
      kernel.length = l.inputs ∧ (∀ row ∈ kernel, row.length = l.outputs) ∧
        bias.length = l.outputs) ∧
    ((l.assign key kernel bias).2 = .ok () →
      (l.assign key kernel bias).1.kernel = kernel ∧ (l.assign key kernel bias).1.bias = bias) ∧
    (kernel.length ≠ l.inputs ∨ bias.length ≠ l.outputs → (l.assign key kernel bias).1 = l) ∧
    (kernel.length = l.inputs → bias.length = l.outputs →
      ∀ r row, RaggedAt l.outputs kernel r row →
        (∀ i < r, (l.assign key kernel bias).1.kernel[i]? = kernel[i]?) ∧
        (∀ i, r ≤ i → (l.assign key kernel bias).1.kernel[i]? = l.kernel[i]?) ∧
        (l.assign key kernel bias).1.bias = l.bias ∧
        (l.assign key kernel bias).2 =
          .error (.shapeMismatch (key ++ ".kernel[" ++ r.repr ++ "]") row.length l.outputs)) ∧
    ((l.assign key kernel bias).1.inputs = l.inputs ∧
      (l.assign key kernel bias).1.outputs = l.outputs ∧
      (l.assign key kernel bias).1.weight.flatten.length = l.weight.flatten.length ∧
      (l.assign key kernel bias).1.WellShaped) ∧
    l.flat.assign? key kernel bias =
      some ((l.assign key kernel bias).1.flat, (l.assign key kernel bias).2) ∧
    (l.assign key kernel bias).1.flat.kernel? = some (l.assign key kernel bias).1.kernel := by
  have hassigned := l.assigned key kernel bias
  obtain ⟨hinputs, houtputs, hshape⟩ := hassigned.wellShaped h
  refine ⟨hassigned.snd_eq_ok_iff, hassigned.kernel_eq, hassigned.fst_eq, ?_,
    ⟨hinputs, houtputs, ?_, hshape⟩, hassigned.assign?_flat h, hshape.holdsKernel.kernel?_eq⟩
  · intro hrows hbias r row hragged
    obtain ⟨hkernel, hold, herror⟩ := hassigned.of_raggedAt h hrows hbias hragged
    refine ⟨?_, ?_, hold, herror⟩
    · intro i hi
      rw [hkernel, List.getElem?_append_left (by rwa [hragged.length_take]),
        List.getElem?_take_of_lt hi]
    · intro i hi
      rw [hkernel, List.getElem?_append_right (by rwa [hragged.length_take]), hragged.length_take,
        List.getElem?_drop, Nat.add_sub_cancel' hi]
  · rw [hshape.holdsKernel.length_cells, h.holdsKernel.length_cells, hinputs, houtputs]

/-- A kernel whose last row is too short replaces the rows before it and leaves the infinite weight
of the last input. -/
theorem assign_exact_ragged : twoOfThree.WellShaped ∧
    ∃ l error, twoOfThree.assign "fc" [[Scalar.zero, Scalar.one], [Scalar.one, Scalar.one],
        [Scalar.zero]] [Scalar.zero, Scalar.zero] = (l, .error error) ∧
      error = .shapeMismatch "fc.kernel[2]" 1 2 ∧
      l.kernel[0]? = some [Scalar.zero, Scalar.one] ∧ l.kernel[1]? = some [Scalar.one, Scalar.one] ∧
      l.kernel[2]? = some [Scalar.negInfinity, Scalar.zero] ∧
      l.bias = [Scalar.one, Scalar.zero] := by
  have hshape : twoOfThree.WellShaped := ⟨rfl, by decide, rfl, by decide⟩
  obtain ⟨-, -, -, hragged, -⟩ := assign_exact hshape "fc" [[Scalar.zero, Scalar.one],
    [Scalar.one, Scalar.one], [Scalar.zero]] [Scalar.zero, Scalar.zero]
  obtain ⟨hnew, hold, hbias, herror⟩ :=
    hragged rfl rfl 2 [Scalar.zero] ⟨rfl, by decide, by decide⟩
  refine ⟨hshape, _, _, Prod.ext rfl herror, ?_, ?_, ?_, ?_, hbias⟩
  · rfl
  · exact hnew 0 (by decide)
  · exact hnew 1 (by decide)
  · exact hold 2 (by decide)

end Linear

end PolicyValue
