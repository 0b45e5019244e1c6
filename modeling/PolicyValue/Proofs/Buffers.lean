import PolicyValue.Host
import PolicyValue.Proofs.Affine
import PolicyValue.Proofs.Basic

/-!
# Batches from a host's buffers

A host hands over rows of features, which are put one after the other and cut again, and bytes for a
mask.  What comes out is what the rows themselves and the mask make, and where nothing comes out it
is for the first fault in a fixed order: the state, the rows from the first on, the number of bytes,
a batch without a real action.

* `ActionBatch.ofFlat_eq_ok`: a buffer makes exactly the batches whose actions it holds;
* `joinRows_eq_ok`, `joinRows_eq_error`: rows are joined, or the first of wrong length is named;
* `HostFault`: the first fault of a host's buffers;
* `hostInputs_exact`: a host's buffers are refused for this fault, and otherwise make what vectors
  do.
-/

namespace PolicyValue

/-! ## Buffers -/

/-- A list of whole runs is put together again from its runs. -/
theorem flatten_chunks {α : Type} {size count : Nat} {xs : List α} (hsize : 0 < size)
    (h : xs.length = count * size) : (chunks size xs).flatten = xs := by
  rw [chunks, flatten_runs, h, Nat.mul_div_cancel _ hsize, ← h, List.take_length]

/-- Actions are made of rows exactly if these are their features. -/
theorem ActionVector.mapM_ofList_eq_ok {rows : List (List Float32)} {actions : List ActionVector} :
    rows.mapM ActionVector.ofList = .ok actions ↔ actions.map (·.values) = rows := by
  rw [mapM_eq_ok]
  simp only [ActionVector.ofList_eq_ok]
  constructor
  · intro h
    exact (map_eq_map_of_forall₂ h.flip).trans (List.map_id rows)
  · rintro rfl
    exact List.forall₂_map_left_iff.2 (List.forall₂_same.2 fun _ _ => rfl)

/-- Rows of the length of an action make actions. -/
theorem ActionVector.exists_mapM_ofList {rows : List (List Float32)}
    (h : ∀ row ∈ rows, row.length = actionSize) :
    ∃ actions, rows.mapM ActionVector.ofList = .ok actions :=
  exists_mapM_eq_ok_iff.2 fun row hrow => ⟨⟨row, h row hrow⟩, dif_pos (h row hrow)⟩

/-- The features of actions come in rows of one length. -/
theorem ActionVector.length_of_mem_values {actions : List ActionVector} {row : List Float32}
    (h : row ∈ actions.map (·.values)) : row.length = actionSize := by
  obtain ⟨action, -, rfl⟩ := List.mem_map.1 h
  exact action.length_values

namespace ActionBatch

/-- Features of actions put one after the other are cut into these actions again. -/
theorem ofFlat_flatten {actions : List ActionVector} {mask : List Bool}
    (h : mask.length = actions.length) :
    ofFlat (actions.map (·.values)).flatten mask = ofActions actions mask := by
  have hrows : ∀ row ∈ actions.map (·.values), row.length = actionSize :=
    fun row => ActionVector.length_of_mem_values
  have hlength : (actions.map (·.values)).flatten.length = mask.length * actionSize := by
    rw [length_flatten_of_length actionSize _ hrows, List.length_map, h]
  have hactions := ActionVector.mapM_ofList_eq_ok.2 (rfl : actions.map (·.values) = _)
  unfold ofFlat
  rw [if_pos hlength, chunks_flatten actionSize _ (by decide) hrows, hactions, ok_bind]

/-- **A buffer makes exactly the batches whose actions it holds**, one after the other, with the
mask. -/
theorem ofFlat_eq_ok {flat : List Float32} {mask : List Bool} {b : ActionBatch} :
    ofFlat flat mask = .ok b ↔ (b.actions.map (·.values)).flatten = flat ∧ b.mask = mask := by
  constructor
  · intro h
    dsimp only [ofFlat] at h
    split at h
    next hlength =>
      obtain ⟨actions, hactions, h⟩ := bind_eq_ok.1 h
      obtain ⟨rfl, rfl⟩ := ofActions_eq_ok.1 h
      rw [ActionVector.mapM_ofList_eq_ok.1 hactions, flatten_chunks (by decide) hlength]
      exact ⟨rfl, rfl⟩
    next => cases h
  · rintro ⟨rfl, rfl⟩
    rw [ofFlat_flatten b.length_mask, ofActions_actions]

/-- A buffer makes a batch exactly if it is as long as the mask wants and some action is real. -/
theorem exists_ofFlat_iff {flat : List Float32} {mask : List Bool} :
    (∃ b, ofFlat flat mask = .ok b) ↔ flat.length = actionSize * mask.length ∧ true ∈ mask := by
  rw [Nat.mul_comm]
  constructor
  · rintro ⟨b, h⟩
    obtain ⟨rfl, rfl⟩ := ofFlat_eq_ok.1 h
    refine ⟨?_, b.mem_mask⟩
    rw [length_flatten_of_length actionSize _ fun row => ActionVector.length_of_mem_values,
      List.length_map, b.length_mask]
  · rintro ⟨hlength, hmask⟩
    obtain ⟨actions, hactions⟩ := ActionVector.exists_mapM_ofList
      (length_of_mem_runs actionSize _ flat (Nat.div_mul_le_self _ _))
    have hvalues : actions.map (·.values) = chunks actionSize flat :=
      ActionVector.mapM_ofList_eq_ok.1 hactions
    have hcount : mask.length = actions.length := by
      rw [← actions.length_map (·.values), hvalues, chunks, length_runs, hlength,
        Nat.mul_div_cancel _ (by decide)]
    have hflat : (actions.map (·.values)).flatten = flat := by
      rw [hvalues, flatten_chunks (by decide) hlength]
    exact ⟨⟨actions, mask, hcount, hmask⟩, ofFlat_eq_ok.2 ⟨hflat, rfl⟩⟩

end ActionBatch

/-! ## Rows -/

/-- Rows are joined exactly if all of them have the length of an action. -/
theorem joinRows_eq_ok {index : Nat} {rows : List (List Float32)} {flat : List Float32} :
    joinRows index rows = .ok flat ↔
      (∀ row ∈ rows, row.length = actionSize) ∧ rows.flatten = flat := by
  induction rows generalizing index flat with
  | nil => simp [joinRows]
  | cons row rows ih =>
    unfold joinRows
    by_cases hrow : row.length = actionSize
    · rw [if_neg (not_not_intro hrow), List.forall_mem_cons, and_iff_right hrow]
      simp only [bind_eq_ok, pure_eq_ok, ih]
      constructor
      · rintro ⟨rest, ⟨hrows, rfl⟩, rfl⟩
        exact ⟨hrows, rfl⟩
      · rintro ⟨hrows, rfl⟩
        exact ⟨_, ⟨hrows, rfl⟩, rfl⟩
    · rw [if_pos hrow, List.forall_mem_cons]
      exact iff_of_false nofun fun h => hrow h.1.1

/-- The row numbered `i` is the first whose length is not that of an action. -/
def FirstRagged (rows : List (List Float32)) (i : Nat) (row : List Float32) : Prop :=
  rows[i]? = some row ∧ row.length ≠ actionSize ∧
    ∀ row' ∈ rows.take i, row'.length = actionSize

/-- Joining rows fails at the first row of wrong length, under its number. -/
theorem joinRows_eq_error {index : Nat} {rows : List (List Float32)} {i : Nat}
    {row : List Float32} (h : FirstRagged rows i row) :
    joinRows index rows =
      .error (.shapeMismatch ("action " ++ (index + i).repr) row.length actionSize) := by
  obtain ⟨hfound, hlength, hfirst⟩ := h
  induction i generalizing index rows with
  | zero =>
    cases rows with
    | nil => exact nomatch hfound
    | cons first rows =>
      obtain rfl := Option.some.inj hfound
      rw [joinRows, if_pos hlength]
      rfl
  | succ i ih =>
    cases rows with
    | nil => exact nomatch hfound
    | cons first rows =>
      obtain ⟨hlengthFirst, hrest⟩ := List.forall_mem_cons.1 hfirst
      have hjoin : joinRows (index + 1) rows = .error
          (.shapeMismatch ("action " ++ (index + 1 + i).repr) row.length actionSize) :=
        ih hfound hrest
      rw [Nat.add_right_comm] at hjoin
      rw [joinRows, if_neg (not_not_intro hlengthFirst)]
      dsimp only
      rw [hjoin]
      rfl

/-- Rows are all of the length of an action, or one of them is the first that is not. -/
theorem exists_firstRagged {rows : List (List Float32)}
    (h : ¬ ∀ row ∈ rows, row.length = actionSize) : ∃ i row, FirstRagged rows i row := by
  induction rows with
  | nil => exact absurd (fun _ hrow => nomatch hrow) h
  | cons first rows ih =>
    by_cases hfirst : first.length = actionSize
    · have hrest : ¬ ∀ row ∈ rows, row.length = actionSize :=
        fun hrows => h (List.forall_mem_cons.2 ⟨hfirst, hrows⟩)
      obtain ⟨i, row, hfound, hlength, hbefore⟩ := ih hrest
      exact ⟨i + 1, row, hfound, hlength, List.forall_mem_cons.2 ⟨hfirst, hbefore⟩⟩
    · exact ⟨0, first, rfl, hfirst, fun _ hrow => nomatch hrow⟩

/-- Rows of the length of an action, joined, make the batches whose actions they are. -/
theorem ActionBatch.ofFlat_flatten_rows {rows : List (List Float32)} {mask : List Bool}
    {b : ActionBatch} (hrows : ∀ row ∈ rows, row.length = actionSize) :
    ofFlat rows.flatten mask = .ok b ↔ b.actions.map (·.values) = rows ∧ b.mask = mask := by
  rw [ofFlat_eq_ok]
  refine and_congr_left fun _ => ⟨fun h => ?_, fun h => congrArg List.flatten h⟩
  -- rows of one length are found again in what they are joined to
  rw [← chunks_flatten actionSize _ (by decide) fun row => ActionVector.length_of_mem_values, h,
    chunks_flatten actionSize rows (by decide) hrows]

/-! ## The mask -/

section

variable {rows : List (List Float32)} {bytes : Option (List UInt8)}

/-- A mask has as many entries as there are rows unless it came with another number of bytes. -/
theorem length_hostMask_iff :
    (hostMask rows bytes).length = rows.length ↔
      ∀ bs, bytes = some bs → bs.length = rows.length := by
  cases bytes <;> simp [hostMask]

/-- A mask marks no real action if there are no rows or all its bytes are zero. -/
theorem true_notMem_hostMask_iff (h : ∀ bs, bytes = some bs → bs.length = rows.length) :
    true ∉ hostMask rows bytes ↔ rows = [] ∨ ∃ bs, bytes = some bs ∧ ∀ b ∈ bs, b = 0 := by
  cases bytes with
  | none => simp [hostMask, List.eq_nil_iff_forall_not_mem]
  | some bs =>
    have hnil : rows = [] → bs = [] := by
      rintro rfl
      exact List.eq_nil_of_length_eq_zero (h bs rfl)
    simp only [hostMask, List.mem_map, bne_iff_ne, Option.some.injEq, exists_eq_left']
    constructor
    · exact fun hnone => .inr fun b hb => by_contra fun hne => hnone ⟨b, hb, hne⟩
    · rintro (hrows | hzero) ⟨b, hb, hne⟩
      · rw [hnil hrows] at hb
        cases hb
      · exact hne (hzero b hb)

end

/-! ## Host buffers -/

/-- The error for the first fault of a host's buffers: the length of the state, the first row of
wrong length, the number of mask bytes, and no real action, in this order. -/
inductive HostFault (state : List Float32) (rows : List (List Float32))
    (bytes : Option (List UInt8)) : Error → Prop
  | state (hstate : state.length ≠ stateSize) :
      HostFault state rows bytes (.shapeMismatch "state vector" state.length stateSize)
  | action {i : Nat} {row : List Float32} (hstate : state.length = stateSize)
      (hrow : FirstRagged rows i row) :
      HostFault state rows bytes (.shapeMismatch ("action " ++ i.repr) row.length actionSize)
  | mask {bs : List UInt8} (hstate : state.length = stateSize)
      (hrows : ∀ row ∈ rows, row.length = actionSize) (hbytes : bytes = some bs)
      (hlength : bs.length ≠ rows.length) :
      HostFault state rows bytes (.shapeMismatch "action mask" bs.length rows.length)
  | empty (hstate : state.length = stateSize) (hrows : ∀ row ∈ rows, row.length = actionSize)
      (hlength : ∀ bs, bytes = some bs → bs.length = rows.length)
      (hnone : rows = [] ∨ ∃ bs, bytes = some bs ∧ ∀ b ∈ bs, b = 0) :
      HostFault state rows bytes .emptyActionBatch

section

variable {state : List Float32} {rows : List (List Float32)} {bytes : Option (List UInt8)}

/-- With a state and rows of the right lengths, only the mask remains to be checked. -/
theorem hostInputs_of_length (hstate : state.length = stateSize)
    (hrows : ∀ row ∈ rows, row.length = actionSize) :
    hostInputs state rows bytes =
      if (hostMask rows bytes).length ≠ rows.length then
        .error (.shapeMismatch "action mask" (hostMask rows bytes).length rows.length)
      else (ActionBatch.ofFlat rows.flatten (hostMask rows bytes)).map (⟨state, hstate⟩, ·) := by
  rw [hostInputs, StateVector.ofList, dif_pos hstate, ok_bind, joinRows_eq_ok.2 ⟨hrows, rfl⟩,
    ok_bind]
  dsimp only
  split
  · rfl
  · cases ActionBatch.ofFlat rows.flatten (hostMask rows bytes) <;> rfl

/-- Buffers with a fault are refused for it. -/
theorem HostFault.hostInputs_eq {e : Error} (h : HostFault state rows bytes e) :
    hostInputs state rows bytes = .error e := by
  cases h with
  | state hstate =>
    rw [hostInputs, StateVector.ofList, dif_neg hstate]
    rfl
  | @action i row hstate hrow =>
    rw [hostInputs, StateVector.ofList, dif_pos hstate, ok_bind, joinRows_eq_error hrow,
      Nat.zero_add]
    rfl
  | @mask bs hstate hrows hbytes hlength =>
    have hmask : (hostMask rows bytes).length = bs.length := by
      rw [hbytes, hostMask, List.length_map]
    rw [hostInputs_of_length hstate hrows, hmask, if_pos hlength]
  | empty hstate hrows hlength hnone =>
    have hmask := length_hostMask_iff.2 hlength
    obtain ⟨actions, hactions⟩ := ActionVector.exists_mapM_ofList hrows
    obtain rfl := ActionVector.mapM_ofList_eq_ok.1 hactions
    rw [List.length_map] at hmask
    rw [hostInputs_of_length hstate hrows, List.length_map, if_neg (not_not_intro hmask),
      ActionBatch.ofFlat_flatten hmask, ActionBatch.ofActions, dif_pos hmask,
      dif_neg ((true_notMem_hostMask_iff hlength).2 hnone)]
    rfl

/-- What a host's buffers make is what the vectors made of them make. -/
theorem hostInputs_eq_ok {s : StateVector} {b : ActionBatch} :
    hostInputs state rows bytes = .ok (s, b) ↔
      StateVector.ofList state = .ok s ∧ ∃ actions, rows.mapM ActionVector.ofList = .ok actions ∧
        ActionBatch.ofActions actions (hostMask rows bytes) = .ok b := by
  have hvectors : (∃ actions, rows.mapM ActionVector.ofList = .ok actions ∧
      ActionBatch.ofActions actions (hostMask rows bytes) = .ok b) ↔
      b.actions.map (·.values) = rows ∧ b.mask = hostMask rows bytes := by
    simp only [ActionVector.mapM_ofList_eq_ok, ActionBatch.ofActions_eq_ok]
    constructor
    · rintro ⟨actions, rfl, rfl, hmask⟩
      exact ⟨rfl, hmask⟩
    · rintro ⟨hrows, hmask⟩
      exact ⟨b.actions, hrows, rfl, hmask⟩
  rw [hvectors]
  by_cases hstate : state.length = stateSize
  · by_cases hrows : ∀ row ∈ rows, row.length = actionSize
    · rw [hostInputs_of_length hstate hrows, StateVector.ofList, dif_pos hstate]
      split
      next hmask =>
        -- a batch has as many actions as mask entries
        refine iff_of_false (by simp) fun h => hmask ?_
        rw [← h.2.2, ← h.2.1, List.length_map, b.length_mask]
      next =>
        simp only [map_eq_ok, ActionBatch.ofFlat_flatten_rows hrows, Prod.mk.injEq,
          Except.ok.injEq]
        constructor
        · rintro ⟨b, hb, hs, rfl⟩
          exact ⟨hs, hb⟩
        · rintro ⟨hs, hb⟩
          exact ⟨b, hb, hs, rfl⟩
    · obtain ⟨i, row, hrow⟩ := exists_firstRagged hrows
      rw [(HostFault.action hstate hrow).hostInputs_eq]
      refine iff_of_false (by simp) ?_
      rintro ⟨-, rfl, -⟩
      exact hrows fun _ => ActionVector.length_of_mem_values
  · rw [(HostFault.state hstate).hostInputs_eq, StateVector.ofList, dif_neg hstate]
    simp

/-- Buffers have a fault, or they make a state and a batch. -/
theorem exists_hostFault_or_hostInputs (state : List Float32) (rows : List (List Float32))
    (bytes : Option (List UInt8)) :
    (∃ e, HostFault state rows bytes e) ∨ ∃ inputs, hostInputs state rows bytes = .ok inputs := by
  by_cases hstate : state.length = stateSize
  · by_cases hrows : ∀ row ∈ rows, row.length = actionSize
    · by_cases hlength : ∀ bs, bytes = some bs → bs.length = rows.length
      · by_cases hnone : rows = [] ∨ ∃ bs, bytes = some bs ∧ ∀ b ∈ bs, b = 0
        · exact .inl ⟨_, .empty hstate hrows hlength hnone⟩
        · have hmask : true ∈ hostMask rows bytes :=
            not_not.1 (mt (true_notMem_hostMask_iff hlength).1 hnone)
          obtain ⟨actions, hactions⟩ := ActionVector.exists_mapM_ofList hrows
          have hcount : (hostMask rows bytes).length = actions.length := by
            rw [length_hostMask_iff.2 hlength, ← ActionVector.mapM_ofList_eq_ok.1 hactions,
              List.length_map]
          have hbatch := ActionBatch.ofActions_actions ⟨actions, _, hcount, hmask⟩
          exact .inr ⟨(⟨state, hstate⟩, _),
            hostInputs_eq_ok.2 ⟨dif_pos hstate, actions, hactions, hbatch⟩⟩
      · push Not at hlength
        obtain ⟨bs, hbytes, hlength⟩ := hlength
        exact .inl ⟨_, .mask hstate hrows hbytes hlength⟩
    · obtain ⟨i, row, hrow⟩ := exists_firstRagged hrows
      exact .inl ⟨_, .action hstate hrow⟩
  · exact .inl ⟨_, .state hstate⟩

/-- A host's buffers are refused exactly for their first fault. -/
theorem hostInputs_eq_error {e : Error} :
    hostInputs state rows bytes = .error e ↔ HostFault state rows bytes e := by
  refine ⟨fun h => ?_, fun h => h.hostInputs_eq⟩
  obtain ⟨e', hfault⟩ | ⟨inputs, hinputs⟩ :=
    exists_hostFault_or_hostInputs state rows bytes
  · obtain rfl := Except.error.inj (hfault.hostInputs_eq.symm.trans h)
    exact hfault
  · exact nomatch hinputs.symm.trans h

/-- No fault of a host's buffers is that of a flat buffer. -/
theorem HostFault.ne_flat {got expected : Nat} :
    ¬ HostFault state rows bytes (.shapeMismatch "flattened action buffer" got expected) := by
  intro h
  generalize hwhat : "flattened action buffer" = what at h
  cases h with
  | state => exact absurd hwhat (by decide)
  | action =>
    have hfirst := congrArg (fun what : String => what.toList.head?) hwhat
    simp at hfirst
  | mask => exact absurd hwhat (by decide)

end

/-- **A host's buffers and vectors make the same inputs.**  Buffers are refused exactly for their
first fault, which is never that of the buffer in between; otherwise they make what the state and
the actions made of them make.  A buffer makes a batch exactly if it is as long as the mask wants
and some action is real, and then it holds the actions of this batch. -/
theorem hostInputs_exact :
    (∀ (state : List Float32) (rows : List (List Float32)) (bytes : Option (List UInt8)),
      (∀ e, hostInputs state rows bytes = .error e ↔ HostFault state rows bytes e) ∧
      (∀ got expected, hostInputs state rows bytes ≠
        .error (.shapeMismatch "flattened action buffer" got expected)) ∧
      ∀ s b, hostInputs state rows bytes = .ok (s, b) ↔
        StateVector.ofList state = .ok s ∧
          ∃ actions, rows.mapM ActionVector.ofList = .ok actions ∧
            ActionBatch.ofActions actions (hostMask rows bytes) = .ok b) ∧
    ∀ (flat : List Float32) (mask : List Bool),
      ((∃ b, ActionBatch.ofFlat flat mask = .ok b) ↔
        flat.length = actionSize * mask.length ∧ true ∈ mask) ∧
      ∀ b, ActionBatch.ofFlat flat mask = .ok b ↔
        (b.actions.map (·.values)).flatten = flat ∧ b.mask = mask := by
  refine ⟨fun state rows bytes => ⟨fun e => hostInputs_eq_error, fun got expected h => ?_,
    fun s b => hostInputs_eq_ok⟩, fun flat mask => ⟨ActionBatch.exists_ofFlat_iff,
    fun b => ActionBatch.ofFlat_eq_ok⟩⟩
  exact HostFault.ne_flat (hostInputs_eq_error.1 h)

end PolicyValue
