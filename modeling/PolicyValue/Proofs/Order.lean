import PolicyValue.Proofs.InitialBound
import PolicyValue.Proofs.Nearest
import PolicyValue.Proofs.NotANumber

/-!
# The order of scalars

A scalar that is no NaN has a level: the signed number of quanta it stands for, with the infinities
one step beyond the greatest finite scalars.  Comparisons are those of levels, so scalars other than
NaNs are in a total preorder.

* `Scalar.level`: the level of a scalar;
* `Scalar.compare_eq`: comparing what was decoded is comparing levels;
* `Scalar.le_iff_level`, `Scalar.lt_iff_level`: the order of scalars;
* `mem_of_greatest?`, `le_of_greatest?`: the greatest of some scalars is one of them, and no other
  is above it.
-/

open Float.Model Float.Model.UnpackedFloat

namespace PolicyValue

namespace Scalar

/-! ## Levels -/

/-- The number of quanta one step beyond the greatest finite scalar. -/
def overflow : Nat := quanta (2 ^ 23) 105

/-- The signed number of quanta that a decoded scalar stands for. -/
def levelOf : UnpackedFloat → Int
  | .notANumber => 0
  | .infinity s => s.apply overflow
  | .zero _ => 0
  | .finite s m e _ => s.apply (quanta m e)

/-- The signed number of quanta that a scalar stands for. -/
def level (x : Float32) : Int := levelOf x.toModel.unpack

/-- A positive mantissa stands for some quanta. -/
theorem quanta_pos {m : Nat} {e : Int} (h : Canonical m e) : 0 < quanta m e :=
  Nat.mul_pos h.pos (Nat.two_pow_pos _)

/-- Of canonical numbers the one with the greater exponent is greater. -/
theorem quanta_lt_of_lt {m n : Nat} {e f : Int} (hm : Canonical m e) (hn : Canonical n f)
    (h : e < f) : quanta m e < quanta n f := by
  have hrange := hm.range
  have hshort : m < 2 ^ 24 := (Nat.log2_lt (Nat.ne_of_gt hm.pos)).1 (Nat.lt_succ_of_le hm.width)
  have hlong : 2 ^ 23 ≤ n := by
    rw [← hn.full (by omega)]
    exact Nat.log2_self_le (Nat.ne_of_gt hn.pos)
  calc quanta m e < 2 ^ 24 * 2 ^ (e + 149).toNat :=
        Nat.mul_lt_mul_of_pos_right hshort (Nat.two_pow_pos _)
    _ ≤ 2 ^ 23 * 2 ^ (f + 149).toNat := by
        rw [← Nat.pow_add, ← Nat.pow_add]
        exact Nat.pow_le_pow_right Nat.two_pos (by omega)
    _ ≤ quanta n f := Nat.mul_le_mul_right _ hlong

/-- **Canonical numbers are compared by exponent first.** -/
theorem compare_quanta {m n : Nat} {e f : Int} (hm : Canonical m e) (hn : Canonical n f) :
    (compare e f).then (compare m n) = compare (quanta m e : Int) (quanta n f : Int) := by
  rcases Int.lt_trichotomy e f with hlt | rfl | hgt
  · rw [Int.compare_eq_lt.2 hlt, Int.compare_eq_lt.2 (Int.ofNat_lt.2 (quanta_lt_of_lt hm hn hlt))]
    rfl
  · rw [Int.compare_eq_eq.2 rfl, Ordering.eq_then]
    have hpos : 0 < 2 ^ (e + 149).toNat := Nat.two_pow_pos _
    rcases Nat.lt_trichotomy m n with hlt | rfl | hgt
    · have hquanta : quanta m e < quanta n e := Nat.mul_lt_mul_of_pos_right hlt hpos
      rw [Nat.compare_eq_lt.2 hlt, Int.compare_eq_lt.2 (Int.ofNat_lt.2 hquanta)]
    · rw [Nat.compare_eq_eq.2 rfl, Int.compare_eq_eq.2 rfl]
    · have hquanta : quanta n e < quanta m e := Nat.mul_lt_mul_of_pos_right hgt hpos
      rw [Nat.compare_eq_gt.2 hgt, Int.compare_eq_gt.2 (Int.ofNat_lt.2 hquanta)]
  · rw [Int.compare_eq_gt.2 hgt, Int.compare_eq_gt.2 (Int.ofNat_lt.2 (quanta_lt_of_lt hn hm hgt))]
    rfl

/-- Negation turns comparisons round. -/
theorem compare_neg_neg (a b : Int) : compare (-a) (-b) = (compare a b).swap := by
  rcases Int.lt_trichotomy a b with hlt | rfl | hgt
  · rw [Int.compare_eq_lt.2 hlt, Int.compare_eq_gt.2 (Int.neg_lt_neg hlt)]
    rfl
  · rw [Int.compare_eq_eq.2 rfl, Int.compare_eq_eq.2 rfl]
    rfl
  · rw [Int.compare_eq_gt.2 hgt, Int.compare_eq_lt.2 (Int.neg_lt_neg hgt)]
    rfl

/-- The first number of quanta that is too great is canonical, but for its exponent. -/
theorem canonical_overflow : Canonical (2 ^ 23) 105 :=
  ⟨Nat.two_pow_pos 23, by rw [Nat.log2_two_pow], by omega, fun _ => Nat.log2_two_pow⟩

/-- Canonical numbers are too great exactly if their exponent is. -/
theorem quanta_lt_overflow_iff {m : Nat} {e : Int} (h : Canonical m e) :
    quanta m e < overflow ↔ e ≤ 104 := by
  constructor
  · intro hlt
    by_contra hgreat
    rcases Int.lt_or_eq_of_le (show 105 ≤ e by omega) with hmore | rfl
    · exact absurd (quanta_lt_of_lt canonical_overflow h hmore) (Nat.lt_asymm hlt)
    · have hlong : 2 ^ 23 ≤ m := by
        rw [← h.full (by omega)]
        exact Nat.log2_self_le (Nat.ne_of_gt h.pos)
      exact absurd hlt (Nat.not_lt.2 (Nat.mul_le_mul_right _ hlong))
  · intro hle
    exact quanta_lt_of_lt h canonical_overflow (by omega)

theorem overflow_pos : 0 < overflow := quanta_pos canonical_overflow

/-! ## Comparisons -/

/-- What is less is found to be less, and what is greater to be greater. -/
theorem lt_eq_compare {a b : Int} (h : a < b) : some Ordering.lt = some (compare a b) := by
  rw [Int.compare_eq_lt.2 h]

theorem gt_eq_compare {a b : Int} (h : b < a) : some Ordering.gt = some (compare a b) := by
  rw [Int.compare_eq_gt.2 h]

theorem eq_eq_compare (a : Int) : some Ordering.eq = some (compare a a) := by
  rw [Int.compare_eq_eq.2 rfl]

/-- An infinity is beyond everything but itself. -/
theorem compare_infinity (s : Sign) {v : UnpackedFloat} (hv : Decoded v) (hnv : v ≠ .notANumber) :
    UnpackedFloat.compare (.infinity s) v = some (compare (s.apply overflow) (levelOf v)) := by
  have hoverflow : (0 : Int) < overflow := Int.natCast_pos.2 overflow_pos
  cases hv with
  | notANumber => exact absurd rfl hnv
  | infinity s' =>
    cases s <;> cases s'
    · exact eq_eq_compare _
    · exact lt_eq_compare (by simp only [levelOf, Sign.apply]; omega)
    · exact gt_eq_compare (by simp only [levelOf, Sign.apply]; omega)
    · exact eq_eq_compare _
  | zero s' =>
    cases s
    · exact lt_eq_compare (by simp only [levelOf, Sign.apply]; omega)
    · exact gt_eq_compare (by simp only [levelOf, Sign.apply]; omega)
  | finite s' h cap =>
    have hsmall := (quanta_lt_overflow_iff h).2 cap
    cases s
    · exact lt_eq_compare (by cases s' <;> simp only [levelOf, Sign.apply] <;> omega)
    · exact gt_eq_compare (by cases s' <;> simp only [levelOf, Sign.apply] <;> omega)

/-- Zeros are equal, and between the negative and the positive numbers. -/
theorem compare_zero (s : Sign) {v : UnpackedFloat} (hv : Decoded v) (hnv : v ≠ .notANumber) :
    UnpackedFloat.compare (.zero s) v = some (compare 0 (levelOf v)) := by
  have hoverflow : (0 : Int) < overflow := Int.natCast_pos.2 overflow_pos
  cases hv with
  | notANumber => exact absurd rfl hnv
  | infinity s' =>
    cases s'
    · exact gt_eq_compare (by simp only [levelOf, Sign.apply]; omega)
    · exact lt_eq_compare (by simp only [levelOf, Sign.apply]; omega)
  | zero s' => exact eq_eq_compare _
  | finite s' h cap =>
    have hpos := quanta_pos h
    cases s'
    · exact gt_eq_compare (by simp only [levelOf, Sign.apply]; omega)
    · exact lt_eq_compare (by simp only [levelOf, Sign.apply]; omega)

/-- Finite numbers of one sign are compared by exponent and mantissa; any other sign or size decides
by itself. -/
theorem compare_finite (s : Sign) {m : Nat} {e : Int} (h : Canonical m e) (cap : e ≤ 104)
    {v : UnpackedFloat} (hv : Decoded v) (hnv : v ≠ .notANumber) :
    UnpackedFloat.compare (.finite s m e h.pos) v =
      some (compare (s.apply (quanta m e)) (levelOf v)) := by
  have hpos := quanta_pos h
  have hsmall := (quanta_lt_overflow_iff h).2 cap
  cases hv with
  | notANumber => exact absurd rfl hnv
  | infinity s' =>
    cases s'
    · exact gt_eq_compare (by cases s <;> simp only [levelOf, Sign.apply] <;> omega)
    · exact lt_eq_compare (by cases s <;> simp only [levelOf, Sign.apply] <;> omega)
  | zero s' =>
    cases s
    · exact lt_eq_compare (by simp only [levelOf, Sign.apply]; omega)
    · exact gt_eq_compare (by simp only [levelOf, Sign.apply]; omega)
  | finite s' h' cap' =>
    have hpos' := quanta_pos h'
    cases s <;> cases s'
    · show some ((compare _ _).then (compare _ _)).swap = _
      rw [compare_quanta h h', ← compare_neg_neg]
      rfl
    · exact lt_eq_compare (by simp only [levelOf, Sign.apply]; omega)
    · exact gt_eq_compare (by simp only [levelOf, Sign.apply]; omega)
    · show some ((compare _ _).then (compare _ _)) = _
      rw [compare_quanta h h']
      rfl

/-- **Comparing what was decoded is comparing levels.** -/
theorem compare_eq {u v : UnpackedFloat} (hu : Decoded u) (hv : Decoded v)
    (hnu : u ≠ .notANumber) (hnv : v ≠ .notANumber) :
    u.compare v = some (compare (levelOf u) (levelOf v)) := by
  cases hu with
  | notANumber => exact absurd rfl hnu
  | infinity s => exact compare_infinity s hv hnv
  | zero s => exact compare_zero s hv hnv
  | finite s h cap => exact compare_finite s h cap hv hnv

/-- A scalar is no NaN exactly if it does not decode to one. -/
theorem isNaN_eq_false_iff {x : Float32} : x.isNaN = false ↔ x.toModel.unpack ≠ .notANumber := by
  rw [Bool.eq_false_iff, Ne, isNaN_iff_unpack]

/-- **The order of scalars is that of levels.** -/
theorem le_iff_level {x y : Float32} (hx : x.isNaN = false) (hy : y.isNaN = false) :
    x ≤ y ↔ level x ≤ level y := by
  have hcompare := compare_eq (decoded x) (decoded y) (isNaN_eq_false_iff.1 hx)
    (isNaN_eq_false_iff.1 hy)
  have hmodel : x ≤ y ↔ (x.toModel.unpack.compare y.toModel.unpack).any (·.isLE) = true :=
    ⟨fun h => of_decide_eq_true (p := x.toModel ≤ y.toModel) h, fun h =>
      decide_eq_true (p := x.toModel ≤ y.toModel) h⟩
  rw [hmodel, hcompare]
  exact Int.isLE_compare

theorem lt_iff_level {x y : Float32} (hx : x.isNaN = false) (hy : y.isNaN = false) :
    x < y ↔ level x < level y := by
  have hcompare := compare_eq (decoded x) (decoded y) (isNaN_eq_false_iff.1 hx)
    (isNaN_eq_false_iff.1 hy)
  have hmodel : x < y ↔ (x.toModel.unpack.compare y.toModel.unpack == some .lt) = true :=
    ⟨fun h => of_decide_eq_true (p := x.toModel < y.toModel) h, fun h =>
      decide_eq_true (p := x.toModel < y.toModel) h⟩
  rw [hmodel, hcompare, ← Int.compare_eq_lt]
  exact beq_iff_eq.trans Option.some_inj

theorem le_refl {x : Float32} (hx : x.isNaN = false) : x ≤ x :=
  (le_iff_level hx hx).2 (Int.le_refl _)

theorem le_trans {x y z : Float32} (hxy : x ≤ y) (hyz : y ≤ z) : x ≤ z := by
  have hx := (not_isNaN_of_le hxy).1
  obtain ⟨hy, hz⟩ := not_isNaN_of_le hyz
  exact (le_iff_level hx hz).2
    (Int.le_trans ((le_iff_level hx hy).1 hxy) ((le_iff_level hy hz).1 hyz))

theorem le_of_not_lt {x y : Float32} (hx : x.isNaN = false) (hy : y.isNaN = false)
    (h : ¬ y < x) : x ≤ y :=
  (le_iff_level hx hy).2 (Int.not_lt.1 (mt (lt_iff_level hy hx).2 h))

theorem le_of_lt {x y : Float32} (hx : x.isNaN = false) (hy : y.isNaN = false) (h : x < y) :
    x ≤ y :=
  (le_iff_level hx hy).2 (Int.le_of_lt ((lt_iff_level hx hy).1 h))

theorem lt_of_lt_of_le {x y z : Float32} (hx : x.isNaN = false) (hxy : x < y) (hyz : y ≤ z) :
    x < z := by
  obtain ⟨hy, hz⟩ := not_isNaN_of_le hyz
  exact (lt_iff_level hx hz).2
    (Int.lt_of_lt_of_le ((lt_iff_level hx hy).1 hxy) ((le_iff_level hy hz).1 hyz))

/-- A scalar is finite exactly if its level is below those of the infinities. -/
theorem isFinite_iff_level {x : Float32} :
    x.isFinite = true ↔ x.isNaN = false ∧ (level x).natAbs < overflow := by
  have hoverflow := overflow_pos
  show x.toModel.unpack.isFinite = true ↔ x.toModel.unpack.isNaN = false ∧ _
  unfold level
  have hdecoded := decoded x
  generalize x.toModel.unpack = u at hdecoded ⊢
  cases hdecoded with
  | notANumber => exact ⟨nofun, nofun⟩
  | infinity s =>
    refine ⟨nofun, fun h => absurd h.2 ?_⟩
    cases s <;> simp only [levelOf, Sign.apply] <;> omega
  | zero s => exact iff_of_true rfl ⟨rfl, hoverflow⟩
  | finite s h cap =>
    have hsmall := (quanta_lt_overflow_iff h).2 cap
    refine iff_of_true rfl ⟨rfl, ?_⟩
    cases s <;> simp only [levelOf, Sign.apply] <;> omega

end Scalar

/-! ## The greatest of some scalars -/

open Scalar (le_refl le_trans le_of_lt le_of_not_lt not_isNaN_of_le)

/-- The greater of two scalars is one of them. -/
theorem larger_eq_or (x y : Float32) : larger x y = x ∨ larger x y = y := by
  unfold larger
  split
  · exact .inr rfl
  · split
    · exact .inl rfl
    · split
      · exact .inl rfl
      · exact .inr rfl

/-- The greater of two scalars is not below either of them. -/
theorem le_larger {x y : Float32} (hx : x.isNaN = false) (hy : y.isNaN = false) :
    x ≤ larger x y ∧ y ≤ larger x y := by
  unfold larger
  rw [if_neg (Bool.eq_false_iff.1 hx), if_neg (Bool.eq_false_iff.1 hy)]
  split
  next hlt => exact ⟨le_refl hx, le_of_lt hy hx hlt⟩
  next hge => exact ⟨le_of_not_lt hx hy hge, le_refl hy⟩

/-- The greater of two scalars, taken along a list, is one of those it has met. -/
theorem foldl_larger_mem (x : Float32) (xs : List Float32) : xs.foldl larger x ∈ x :: xs := by
  induction xs generalizing x with
  | nil => exact .head _
  | cons y xs ih =>
    rw [List.foldl_cons]
    rcases List.mem_cons.1 (ih (larger x y)) with htop | hlater
    · rw [htop]
      rcases larger_eq_or x y with heq | heq
      · rw [heq]
        exact .head _
      · rw [heq]
        exact .tail _ (.head _)
    · exact .tail _ (.tail _ hlater)

/-- It is not below any of them. -/
theorem le_foldl_larger {x : Float32} {xs : List Float32}
    (h : ∀ y ∈ x :: xs, y.isNaN = false) : ∀ y ∈ x :: xs, y ≤ xs.foldl larger x := by
  induction xs generalizing x with
  | nil => exact List.forall_mem_singleton.2 (le_refl (h x (.head _)))
  | cons y xs ih =>
    rw [List.forall_mem_cons, List.forall_mem_cons] at h
    obtain ⟨hx, hy, hxs⟩ := h
    obtain ⟨hleft, hright⟩ := le_larger hx hy
    have hlarger : (larger x y).isNaN = false := (not_isNaN_of_le hleft).2
    obtain ⟨htop, hlater⟩ := List.forall_mem_cons.1 (ih (List.forall_mem_cons.2 ⟨hlarger, hxs⟩))
    rw [List.foldl_cons]
    exact List.forall_mem_cons.2 ⟨le_trans hleft htop,
      List.forall_mem_cons.2 ⟨le_trans hright htop, hlater⟩⟩

/-- The greatest of some scalars is one of them. -/
theorem mem_of_greatest? {xs : List Float32} {top : Float32} (h : greatest? xs = some top) :
    top ∈ xs := by
  cases xs with
  | nil => exact nomatch h
  | cons x xs =>
    rw [greatest?] at h
    obtain rfl := Option.some.inj h
    exact foldl_larger_mem x xs

/-- **The greatest of some scalars without a NaN is not below any of them.** -/
theorem le_of_greatest? {xs : List Float32} (hxs : ∀ x ∈ xs, x.isNaN = false) {top : Float32}
    (h : greatest? xs = some top) : ∀ x ∈ xs, x ≤ top := by
  cases xs with
  | nil => exact nofun
  | cons x xs =>
    rw [greatest?] at h
    obtain rfl := Option.some.inj h
    exact le_foldl_larger hxs

end PolicyValue
