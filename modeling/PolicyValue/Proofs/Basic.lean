import PolicyValue.Dict
import Mathlib.Data.List.Forall2

/-!
# Outcomes and dictionaries

What later modules need about the two containers everything passes through:

* `bind_eq_ok`, `mapM_eq_ok`: a computation that may fail succeeds exactly when its steps do;
* `Dict.get?_ofList_of_mem`, `Dict.perm_ofList`: a dictionary from pairs with distinct keys holds
  exactly these pairs;
* `Dict.ofList_entries`: a dictionary is rebuilt from its entries.
-/

namespace PolicyValue

/-! ## Outcomes -/

section

variable {ε α β : Type}

/-- Two steps succeed exactly when the first does and the second does with its result. -/
theorem bind_eq_ok {x : Except ε α} {f : α → Except ε β} {b : β} :
    x >>= f = .ok b ↔ ∃ a, x = .ok a ∧ f a = .ok b := by
  cases x <;> simp [bind, Except.bind]

theorem ok_bind (a : α) (f : α → Except ε β) : (Except.ok a >>= f) = f a := rfl

theorem error_bind (e : ε) (f : α → Except ε β) : (Except.error e >>= f) = .error e := rfl

theorem pure_eq_ok {a b : α} : (pure a : Except ε α) = .ok b ↔ a = b := by
  simp [pure, Except.pure]

/-- A result passed through a function is there exactly when the computation succeeds. -/
theorem map_eq_ok {x : Except ε α} {f : α → β} {b : β} :
    x.map f = .ok b ↔ ∃ a, x = .ok a ∧ f a = b := by
  cases x <;> simp [Except.map]

/-- A list of computations succeeds exactly when each of them does. -/
theorem mapM_eq_ok {f : α → Except ε β} {xs : List α} {ys : List β} :
    xs.mapM f = .ok ys ↔ List.Forall₂ (fun x y => f x = .ok y) xs ys := by
  induction xs generalizing ys with
  | nil => rw [List.mapM_nil, pure_eq_ok, List.forall₂_nil_left_iff, eq_comm]
  | cons x xs ih =>
    rw [List.mapM_cons, bind_eq_ok, List.forall₂_cons_left_iff]
    simp only [bind_eq_ok, pure_eq_ok, ih]
    constructor
    · rintro ⟨y, hy, rest, hrest, rfl⟩
      exact ⟨y, rest, hy, hrest, rfl⟩
    · rintro ⟨y, rest, hy, hrest, rfl⟩
      exact ⟨y, hy, rest, hrest, rfl⟩

/-- A list is related to some list exactly when every entry of it is related to something. -/
theorem exists_forall₂_iff {R : α → β → Prop} {xs : List α} :
    (∃ ys, List.Forall₂ R xs ys) ↔ ∀ x ∈ xs, ∃ y, R x y := by
  induction xs with
  | nil => simp
  | cons x xs ih =>
    rw [List.forall_mem_cons, ← ih]
    constructor
    · rintro ⟨_, _ | ⟨hy, hys⟩⟩
      exact ⟨⟨_, hy⟩, _, hys⟩
    · rintro ⟨⟨y, hy⟩, ys, hys⟩
      exact ⟨y :: ys, .cons hy hys⟩

/-- A list of computations succeeds with something exactly when each of them does. -/
theorem exists_mapM_eq_ok_iff {f : α → Except ε β} {xs : List α} :
    (∃ ys, xs.mapM f = .ok ys) ↔ ∀ x ∈ xs, ∃ y, f x = .ok y := by
  simp only [mapM_eq_ok, exists_forall₂_iff]

/-- What a computation makes of every entry with a property, a pass makes of a list of them. -/
theorem forall₂_of_mapM_eq_ok {f : α → Except ε β} {P : α → Prop} {S : α → β → Prop} {xs : List α}
    {ys : List β} (hstep : ∀ x y, P x → f x = .ok y → S x y) (hxs : ∀ x ∈ xs, P x)
    (h : xs.mapM f = .ok ys) : List.Forall₂ S xs ys :=
  ((List.forall₂_and_left xs ys).2 ⟨hxs, mapM_eq_ok.1 h⟩).imp fun x y hxy => hstep x y hxy.1 hxy.2

/-- Related entries with equal images have equal lists of images. -/
theorem map_eq_map_of_forall₂ {γ : Type} {f : α → γ} {g : β → γ} {xs : List α} {ys : List β}
    (h : List.Forall₂ (fun x y => f x = g y) xs ys) : xs.map f = ys.map g := by
  have himages : List.Forall₂ (· = ·) (xs.map f) (ys.map g) := by
    rwa [List.forall₂_map_left_iff, List.forall₂_map_right_iff]
  rwa [List.forall₂_eq_eq_eq] at himages

/-- Equal lists of images have related entries with equal images. -/
theorem forall₂_of_map_eq_map {γ : Type} {f : α → γ} {g : β → γ} {xs : List α} {ys : List β}
    (h : xs.map f = ys.map g) : List.Forall₂ (fun x y => f x = g y) xs ys := by
  have himages : List.Forall₂ (· = ·) (xs.map f) (ys.map g) := by
    rw [h, List.forall₂_eq_eq_eq]
  rwa [List.forall₂_map_left_iff, List.forall₂_map_right_iff] at himages

/-- What follows for related entries of two lists follows for the related lists. -/
theorem forall₂_imp_of_mem {R S : α → β → Prop} {xs : List α} {ys : List β}
    (h : List.Forall₂ R xs ys) (hstep : ∀ x ∈ xs, ∀ y ∈ ys, R x y → S x y) :
    List.Forall₂ S xs ys := by
  induction h with
  | nil => exact .nil
  | cons hxy _ ih =>
    refine .cons (hstep _ (.head _) _ (.head _) hxy) (ih fun x hx y hy => ?_)
    exact hstep x (.tail _ hx) y (.tail _ hy)

/-- A property of the right entries of related lists holds of the right list. -/
theorem forall_mem_of_forall₂ {P : β → Prop} {xs : List α} {ys : List β}
    (h : List.Forall₂ (fun _ y => P y) xs ys) : ∀ y ∈ ys, P y := by
  induction h with
  | nil => exact List.forall_mem_nil P
  | cons hy _ ih => exact List.forall_mem_cons.2 ⟨hy, ih⟩

/-- Computations that agree on a list give the same results. -/
theorem mapM_congr {f g : α → Except ε β} {xs : List α} (h : ∀ x ∈ xs, f x = g x) :
    xs.mapM f = xs.mapM g := by
  induction xs with
  | nil => rfl
  | cons x xs ih =>
    rw [List.mapM_cons, List.mapM_cons, h x (.head _), ih fun y hy => h y (.tail _ hy)]

end

/-! ## Dictionaries from pairs -/

namespace Dict

variable {α : Type}

/-- A dictionary holds a key exactly when it has a value for it. -/
theorem contains_eq_true_iff {d : Dict α} {k : String} :
    d.contains k = true ↔ ∃ v, d.get? k = some v := by
  rw [contains, Option.isSome_iff_exists]

/-- Inserting pairs changes the values of their keys only. -/
theorem get?_foldl_insert_of_notMem (d : Dict α) (pairs : List (String × α)) (k : String)
    (h : k ∉ pairs.map Prod.fst) :
    (pairs.foldl (fun d (key, value) => d.insert key value) d).get? k = d.get? k := by
  induction pairs generalizing d with
  | nil => rfl
  | cons p pairs ih =>
    rw [List.map_cons, List.mem_cons, not_or] at h
    rw [List.foldl_cons, ih _ h.2, get?_insert, if_neg h.1]

/-- Inserting pairs with distinct keys stores each of them. -/
theorem get?_foldl_insert_of_mem (d : Dict α) (pairs : List (String × α)) (k : String) (v : α)
    (hnodup : (pairs.map Prod.fst).Nodup) (h : (k, v) ∈ pairs) :
    (pairs.foldl (fun d (key, value) => d.insert key value) d).get? k = some v := by
  induction pairs generalizing d with
  | nil => cases h
  | cons p pairs ih =>
    rw [List.map_cons, List.nodup_cons] at hnodup
    rw [List.foldl_cons]
    rcases List.mem_cons.1 h with rfl | h
    · rw [get?_foldl_insert_of_notMem _ _ _ hnodup.1, get?_insert, if_pos rfl]
    · exact ih _ hnodup.2 h

/-- A dictionary from pairs with distinct keys stores each of them. -/
theorem get?_ofList_of_mem {pairs : List (String × α)} {k : String} {v : α}
    (hnodup : (pairs.map Prod.fst).Nodup) (h : (k, v) ∈ pairs) : (ofList pairs).get? k = some v :=
  get?_foldl_insert_of_mem empty pairs k v hnodup h

/-- A dictionary from pairs stores nothing under other keys. -/
theorem get?_ofList_of_notMem {pairs : List (String × α)} {k : String}
    (h : k ∉ pairs.map Prod.fst) : (ofList pairs).get? k = none := by
  rw [ofList, get?_foldl_insert_of_notMem _ _ _ h, get?_empty]

/-- A pair with a new key joins the entries. -/
theorem perm_insertEntry (key : String) (value : α) (entries : List (String × α))
    (h : key ∉ entries.map Prod.fst) :
    (insertEntry key value entries).Perm ((key, value) :: entries) := by
  induction entries with
  | nil => rfl
  | cons o rest ih =>
    obtain ⟨k, v⟩ := o
    rw [List.map_cons, List.mem_cons, not_or] at h
    unfold insertEntry
    split
    · rfl
    · split
      · exact ((ih h.2).cons _).trans (.swap _ _ _)
      · rename_i hge hle
        -- Neither key is smaller, so they are equal, which a new key rules out.
        exact absurd (String.le_antisymm (String.not_lt.1 hle) (String.not_lt.1 hge)) h.1

/-- Inserting pairs with distinct new keys adds them to the entries. -/
theorem perm_foldl_insert (d : Dict α) (pairs : List (String × α))
    (hnodup : (pairs.map Prod.fst).Nodup) (hnew : ∀ k ∈ pairs.map Prod.fst, k ∉ d.keys) :
    (pairs.foldl (fun d (key, value) => d.insert key value) d).entries.Perm
      (pairs ++ d.entries) := by
  induction pairs generalizing d with
  | nil => rfl
  | cons p pairs ih =>
    rw [List.map_cons, List.nodup_cons] at hnodup
    have hp : (d.insert p.1 p.2).entries.Perm (p :: d.entries) :=
      perm_insertEntry p.1 p.2 d.entries (hnew p.1 (.head _))
    have hrest : ∀ k ∈ pairs.map Prod.fst, k ∉ (d.insert p.1 p.2).keys := by
      intro k hk hmem
      have hmem' : k ∈ (p :: d.entries).map Prod.fst := (hp.map Prod.fst).mem_iff.1 hmem
      rcases List.mem_cons.1 hmem' with rfl | hd
      · exact hnodup.1 hk
      · exact hnew k (.tail _ hk) hd
    rw [List.foldl_cons, List.cons_append]
    exact (ih _ hnodup.2 hrest).trans ((hp.append_left pairs).trans List.perm_middle)

/-- A dictionary from pairs with distinct keys has these pairs as its entries. -/
theorem perm_ofList (pairs : List (String × α)) (hnodup : (pairs.map Prod.fst).Nodup) :
    (ofList pairs).entries.Perm pairs := by
  have h := perm_foldl_insert empty pairs hnodup fun k _ hk => by cases hk
  rwa [show (empty : Dict α).entries = [] from rfl, List.append_nil] at h

/-- No two entries have the same key. -/
theorem nodup_keys (d : Dict α) : (d.entries.map Prod.fst).Nodup := by
  rw [List.Nodup, List.pairwise_map]
  refine d.sorted.imp fun {x y} hlt heq => ?_
  rw [heq] at hlt
  exact String.lt_irrefl _ hlt

/-- A dictionary is rebuilt from its entries. -/
theorem ofList_entries (d : Dict α) : ofList d.entries = d := by
  refine eq_of_entries (List.Perm.eq_of_pairwise ?_ (ofList d.entries).sorted d.sorted
    (perm_ofList d.entries d.nodup_keys))
  intro x y _ _ hxy hyx
  exact absurd (String.lt_trans hxy hyx) (String.lt_irrefl _)

end Dict

end PolicyValue
