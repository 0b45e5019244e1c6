/-!
# Dictionaries sorted by key

A `Dict α` holds at most one value per key and lists its entries in strictly increasing order of
the keys, so two dictionaries with the same entries are equal.

* `Dict.get?` finds the value of a key;
* `Dict.insert` puts a value under a key, replacing the one that was there;
* `Dict.erase` and `Dict.filter` drop entries;
* `Dict.ofList` builds a dictionary from pairs, of which the last one of a key stays.

`get?_insert` and `get?_erase` say what these do to every look-up, and `ext_get?` that look-ups
determine a dictionary.
-/

namespace PolicyValue

universe u

/-- A dictionary: entries in strictly increasing order of their keys. -/
structure Dict (α : Type u) where
  /-- The entries, one per key. -/
  entries : List (String × α)
  /-- The keys strictly increase. -/
  sorted : entries.Pairwise (·.1 < ·.1)

namespace Dict

variable {α : Type u}

instance [BEq α] : BEq (Dict α) := ⟨fun a b => a.entries == b.entries⟩

instance [DecidableEq α] : DecidableEq (Dict α) := fun a b =>
  decidable_of_iff (a.entries = b.entries) (by cases a; cases b; simp)

/-- Two dictionaries with the same entries are equal. -/
theorem eq_of_entries {a b : Dict α} (h : a.entries = b.entries) : a = b := by
  cases a; cases b; simp_all

/-- The dictionary without entries. -/
def empty : Dict α := ⟨[], .nil⟩

instance : EmptyCollection (Dict α) := ⟨empty⟩

instance : Inhabited (Dict α) := ⟨empty⟩

/-- The number of entries. -/
def size (d : Dict α) : Nat := d.entries.length

/-- The keys in increasing order. -/
def keys (d : Dict α) : List String := d.entries.map (·.1)

/-- The value stored under `key`. -/
def get? (d : Dict α) (key : String) : Option α := d.entries.lookup key

/-- Whether a value is stored under `key`. -/
def contains (d : Dict α) (key : String) : Bool := (d.get? key).isSome

/-- The empty dictionary stores nothing. -/
@[simp]
theorem get?_empty (k : String) : (empty : Dict α).get? k = none := rfl

/-- Looking up a key in a list that starts with the pair of `k`. -/
theorem lookup_cons_eq_ite (key k : String) (v : α) (rest : List (String × α)) :
    ((k, v) :: rest).lookup key = if key = k then some v else rest.lookup key := by
  rw [List.lookup_cons]
  by_cases h : key = k
  · simp [h]
  · rw [if_neg h, beq_eq_false_iff_ne.2 h]

/-- Looking up a key below all others finds nothing. -/
theorem lookup_eq_none_of_lt (key : String) (entries : List (String × α))
    (h : ∀ e ∈ entries, key < e.1) : entries.lookup key = none := by
  induction entries with
  | nil => rfl
  | cons o rest ih =>
    have hne : key ≠ o.1 := fun he => String.lt_irrefl _ (he ▸ h o (.head _))
    rw [lookup_cons_eq_ite, if_neg hne]
    exact ih fun e he => h e (.tail _ he)

/-! ## Insertion -/

/-- Puts a pair into a list of entries, at its place or over the entry of the same key. -/
def insertEntry (key : String) (value : α) : List (String × α) → List (String × α)
  | [] => [(key, value)]
  | (k, v) :: rest =>
    if key < k then (key, value) :: (k, v) :: rest
    else if k < key then (k, v) :: insertEntry key value rest
    else (key, value) :: rest

/-- The keys after an insertion are the new one and old ones. -/
theorem fst_of_mem_insertEntry {key : String} {value : α} {entries : List (String × α)}
    {e : String × α} (h : e ∈ insertEntry key value entries) :
    e.1 = key ∨ ∃ o ∈ entries, o.1 = e.1 := by
  induction entries with
  | nil => simp_all [insertEntry]
  | cons o rest ih =>
    obtain ⟨k, v⟩ := o
    simp only [insertEntry] at h
    split at h
    · simp only [List.mem_cons] at h
      rcases h with rfl | rfl | h
      · simp
      · simp
      · exact .inr ⟨e, .tail _ h, rfl⟩
    · split at h
      · simp only [List.mem_cons] at h
        rcases h with rfl | h
        · exact .inr ⟨_, .head _, rfl⟩
        · rcases ih h with he | ⟨o, ho, hoe⟩
          · exact .inl he
          · exact .inr ⟨o, .tail _ ho, hoe⟩
      · simp only [List.mem_cons] at h
        rcases h with rfl | h
        · simp
        · exact .inr ⟨e, .tail _ h, rfl⟩

/-- An insertion keeps the entries sorted. -/
theorem pairwise_insertEntry {key : String} {value : α} {entries : List (String × α)}
    (h : entries.Pairwise (·.1 < ·.1)) : (insertEntry key value entries).Pairwise (·.1 < ·.1) := by
  induction entries with
  | nil => simp [insertEntry]
  | cons o rest ih =>
    obtain ⟨k, v⟩ := o
    have ⟨hk, hr⟩ := List.pairwise_cons.1 h
    simp only [insertEntry]
    split
    next hlt =>
      refine List.pairwise_cons.2 ⟨?_, h⟩
      intro e he
      rcases List.mem_cons.1 he with rfl | he
      · exact hlt
      · exact String.lt_trans hlt (hk e he)
    next hge =>
      split
      next hlt =>
        refine List.pairwise_cons.2 ⟨?_, ih hr⟩
        intro e he
        rcases fst_of_mem_insertEntry he with heq | ⟨o, ho, heq⟩
        · exact heq ▸ hlt
        · exact heq ▸ hk o ho
      next hle =>
        have heq : key = k := String.le_antisymm (String.not_lt.1 hle) (String.not_lt.1 hge)
        exact List.pairwise_cons.2 ⟨fun e he => heq ▸ hk e he, hr⟩

/-- Stores `value` under `key`, replacing the value that was there. -/
def insert (d : Dict α) (key : String) (value : α) : Dict α :=
  ⟨insertEntry key value d.entries, pairwise_insertEntry d.sorted⟩

/-- Looking up a key after an insertion. -/
theorem lookup_insertEntry (key k : String) (value : α) (entries : List (String × α)) :
    (insertEntry key value entries).lookup k =
      if k = key then some value else entries.lookup k := by
  induction entries with
  | nil => rw [insertEntry, lookup_cons_eq_ite]
  | cons o rest ih =>
    obtain ⟨k', v⟩ := o
    unfold insertEntry
    split
    · rw [lookup_cons_eq_ite]
    · rename_i hge
      split
      · rename_i hlt
        rw [lookup_cons_eq_ite, lookup_cons_eq_ite, ih]
        by_cases h : k = k'
        · have hne : k ≠ key := by
            intro he
            exact String.lt_irrefl _ (he ▸ h ▸ hlt)
          rw [if_pos h, if_pos h, if_neg hne]
        · rw [if_neg h, if_neg h]
      · rename_i hle
        -- The two keys are equal, and the new value hides the old one.
        have heq : key = k' := String.le_antisymm (String.not_lt.1 hle) (String.not_lt.1 hge)
        rw [lookup_cons_eq_ite, lookup_cons_eq_ite, ← heq]
        by_cases h : k = key
        · rw [if_pos h, if_pos h]
        · rw [if_neg h, if_neg h, if_neg h]

/-- An insertion changes the value of its key only. -/
theorem get?_insert (d : Dict α) (key k : String) (value : α) :
    (d.insert key value).get? k = if k = key then some value else d.get? k :=
  lookup_insertEntry key k value d.entries

/-- A dictionary from pairs; the last pair of a key stays. -/
def ofList (pairs : List (String × α)) : Dict α :=
  pairs.foldl (fun d (key, value) => d.insert key value) empty

/-! ## Removal -/

/-- The entries that pass a test. -/
def filter (p : String → α → Bool) (d : Dict α) : Dict α :=
  ⟨d.entries.filter fun (k, v) => p k v, d.sorted.sublist List.filter_sublist⟩

/-- Drops the entry of `key`. -/
def erase (d : Dict α) (key : String) : Dict α := d.filter fun k _ => k != key

/-- Filtering by key keeps the values of the keys that pass. -/
theorem lookup_filter_fst (p : String → Bool) (k : String) (entries : List (String × α)) :
    (entries.filter fun e => p e.1).lookup k = if p k then entries.lookup k else none := by
  induction entries with
  | nil => simp
  | cons o rest ih =>
    obtain ⟨k', v⟩ := o
    by_cases hp : p k' = true
    · rw [List.filter_cons_of_pos (by exact hp), lookup_cons_eq_ite, lookup_cons_eq_ite, ih]
      by_cases h : k = k'
      · rw [if_pos h, if_pos h, h, if_pos hp]
      · rw [if_neg h, if_neg h]
    · rw [List.filter_cons_of_neg (by exact hp), lookup_cons_eq_ite, ih]
      by_cases h : k = k'
      · rw [h, if_neg hp, if_neg hp]
      · rw [if_neg h]

/-- Dropping an entry changes the value of its key only. -/
theorem get?_erase (d : Dict α) (key k : String) :
    (d.erase key).get? k = if k = key then none else d.get? k := by
  have h := lookup_filter_fst (· != key) k d.entries
  by_cases hk : k = key
  · simpa [hk, erase, filter, get?] using h
  · simpa [hk, erase, filter, get?] using h

/-! ## Equality -/

/-- A dictionary holds a key exactly when some entry has it. -/
theorem mem_keys_iff (d : Dict α) (k : String) : k ∈ d.keys ↔ d.contains k := by
  unfold keys contains get?
  induction d.entries with
  | nil => simp
  | cons o rest ih =>
    rw [lookup_cons_eq_ite]
    by_cases h : k = o.1
    · simp [h]
    · simp [h, ← ih]

/-- A list of entries in which no key has a value is empty. -/
theorem eq_nil_of_lookup_eq_none {entries : List (String × α)}
    (h : ∀ k, entries.lookup k = none) : entries = [] := by
  cases entries with
  | nil => rfl
  | cons o rest =>
    have hnone := h o.1
    rw [List.lookup_cons_self] at hnone
    cases hnone

/-- The first key of a sorted list of entries is at most any key that has a value. -/
theorem fst_le_of_lookup_eq_some {x : String × α} {xs : List (String × α)} {k : String} {v : α}
    (hx : ∀ e ∈ xs, x.1 < e.1) (h : (x :: xs).lookup k = some v) : x.1 ≤ k := by
  apply String.not_lt.1
  intro hlt
  have hbelow : ∀ e ∈ x :: xs, k < e.1 :=
    List.forall_mem_cons.2 ⟨hlt, fun e he => String.lt_trans hlt (hx e he)⟩
  rw [lookup_eq_none_of_lt k (x :: xs) hbelow] at h
  cases h

/-- Sorted lists of entries in which every key has the same value are equal. -/
theorem eq_of_lookup_eq {xs ys : List (String × α)} (hx : xs.Pairwise (·.1 < ·.1))
    (hy : ys.Pairwise (·.1 < ·.1)) (h : ∀ k, xs.lookup k = ys.lookup k) : xs = ys := by
  induction xs generalizing ys with
  | nil => exact (eq_nil_of_lookup_eq_none fun k => (h k).symm).symm
  | cons x xs ih =>
    cases ys with
    | nil => exact eq_nil_of_lookup_eq_none h
    | cons y ys =>
      have ⟨hxs, hxr⟩ := List.pairwise_cons.1 hx
      have ⟨hys, hyr⟩ := List.pairwise_cons.1 hy
      -- The smaller of the two first keys occurs in one list only unless they agree.
      have hkey : x.1 = y.1 := by
        apply String.le_antisymm
        · exact fst_le_of_lookup_eq_some hxs ((h y.1).trans List.lookup_cons_self)
        · exact fst_le_of_lookup_eq_some hys ((h x.1).symm.trans List.lookup_cons_self)
      have hvalue : x.2 = y.2 := by
        have hsome := h x.1
        rw [List.lookup_cons_self, lookup_cons_eq_ite, if_pos hkey] at hsome
        exact Option.some.inj hsome
      rw [Prod.ext hkey hvalue, ih hxr hyr]
      intro k
      have hrest := h k
      rw [lookup_cons_eq_ite, lookup_cons_eq_ite, ← hkey] at hrest
      by_cases hk : k = x.1
      · rw [hk, lookup_eq_none_of_lt _ _ hxs, hkey, lookup_eq_none_of_lt _ _ hys]
      · rwa [if_neg hk, if_neg hk] at hrest

/-- Dictionaries that store the same values are equal. -/
theorem ext_get? {a b : Dict α} (h : ∀ k, a.get? k = b.get? k) : a = b :=
  eq_of_entries (eq_of_lookup_eq a.sorted b.sorted h)

end Dict

end PolicyValue
