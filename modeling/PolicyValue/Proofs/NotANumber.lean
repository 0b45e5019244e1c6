import PolicyValue.Proofs.Affine
import PolicyValue.Proofs.Recording
import PolicyValue.Proofs.SignedZero

/-!
# Where a NaN comes from

Rounding never makes a NaN, so a sum or a product of numbers is one in few cases only: when
infinities of both signs are added, and when an infinity is multiplied by a zero.  A sum that is
accumulated from zero is a NaN exactly if a term is one or meets an infinity of the other sign on
its way (`Clashes`).

* `Scalar.isNaN_add_iff`, `Scalar.isNaN_mul_iff`: one operation;
* `Scalar.isNaN_sum_iff`: a whole sum;
* `rectify_cases`: the positive part, which is never a NaN.
-/

namespace PolicyValue

namespace Scalar

open Float.Model Float.Model.UnpackedFloat

/-- Of two signs something holds for one of them. -/
theorem exists_sign_iff {p : Sign → Prop} : (∃ s, p s) ↔ p .positive ∨ p .negative := by
  constructor
  · rintro ⟨s, hs⟩
    cases s with
    | positive => exact .inl hs
    | negative => exact .inr hs
  · rintro (h | h)
    · exact ⟨_, h⟩
    · exact ⟨_, h⟩

/-! ## Rounding and encoding -/

/-- Rounding gives a number. -/
theorem roundWithAccuracy_ne_notANumber (format : Format) (s : Sign) (m : Nat) (e : Int)
    (accuracy : Accuracy) : roundWithAccuracy format s m e accuracy ≠ .notANumber := by
  rw [roundWithAccuracy]
  dsimp only
  split
  · exact UnpackedFloat.noConfusion
  · exact UnpackedFloat.noConfusion

/-- Normalizing gives a number. -/
theorem normalize_ne_notANumber (format : Format) (m e : Int) (s : Sign) :
    UnpackedFloat.normalize format m e s ≠ .notANumber := by
  rw [UnpackedFloat.normalize]
  split
  · exact roundWithAccuracy_ne_notANumber _ _ _ _ _
  · exact UnpackedFloat.noConfusion
  · exact roundWithAccuracy_ne_notANumber _ _ _ _ _

/-- A number is not encoded as a NaN. -/
theorem pack_eq_packedNaN_iff {u : UnpackedFloat} :
    UnpackedFloat.pack .binary32 u = packedNaN .binary32 ↔ u = .notANumber := by
  constructor
  · intro h
    cases u with
    | notANumber => rfl
    | infinity s => cases s <;> exact absurd h (by decide)
    | zero s => cases s <;> exact absurd h (by decide)
    | finite s m e pos =>
      -- The exponent field of a NaN has all bits set, which only an overflow does to a number.
      rw [pack_finite s pos] at h
      split at h
      · cases s <;> exact absurd h (by decide)
      · rename_i hsmall
        split at h
        · have hexponent := congrArg (@unpackExponent .binary32) h
          rw [packedNaN, unpackExponent_packComponents, unpackExponent_packComponents] at hexponent
          have hfield : (e + 127 + 23).toNat % 256 = 255 := congrArg BitVec.toNat hexponent
          omega
        · have hexponent := congrArg (@unpackExponent .binary32) h
          rw [packedNaN, unpackExponent_packComponents, unpackExponent_packComponents] at hexponent
          exact absurd hexponent (by decide)
  · rintro rfl
    rfl

/-- A scalar is a NaN exactly if it decodes to one. -/
theorem isNaN_iff_unpack {x : Float32} : x.isNaN = true ↔ x.toModel.unpack = .notANumber :=
  UnpackedFloat.isNaN_iff

/-- Neither side of a comparison that holds is a NaN. -/
theorem not_isNaN_of_le {x y : Float32} (h : x ≤ y) : x.isNaN = false ∧ y.isNaN = false := by
  have hmodel : x.toModel ≤ y.toModel := of_decide_eq_true h
  have hle : (x.toModel.unpack.compare y.toModel.unpack).any (·.isLE) = true := hmodel
  simp only [Bool.eq_false_iff, Ne, isNaN_iff_unpack]
  constructor
  · intro hx
    rw [hx] at hle
    cases hle
  · intro hy
    rw [hy] at hle
    cases hx : x.toModel.unpack <;> rw [hx] at hle <;> cases hle

/-- What is encoded is a NaN exactly if it was one. -/
theorem isNaN_ofModel_pack {u : UnpackedFloat} :
    (Float32.ofModel (.pack u)).isNaN = true ↔ u = .notANumber := by
  rw [← pack_eq_packedNaN_iff]
  exact isNaN_unpack_iff_of_valid valid_pack

/-- Scalars are determined by what they decode to. -/
theorem unpack_inj {x y : Float32} : x.toModel.unpack = y.toModel.unpack ↔ x = y := by
  constructor
  · intro h
    rw [← ofModel_pack_unpack x, h, ofModel_pack_unpack]
  · rintro rfl
    rfl

/-- The scalar that decodes to positive infinity. -/
theorem unpack_eq_infinity_iff {x : Float32} :
    x.toModel.unpack = .infinity .positive ↔ x = infinity := unpack_inj (y := infinity)

/-- The scalar that decodes to negative infinity. -/
theorem unpack_eq_negInfinity_iff {x : Float32} :
    x.toModel.unpack = .infinity .negative ↔ x = negInfinity :=
  unpack_inj (y := negInfinity)

/-- The scalars that decode to an infinity. -/
theorem exists_unpack_eq_infinity_iff {x : Float32} :
    (∃ s, x.toModel.unpack = .infinity s) ↔ x = infinity ∨ x = negInfinity := by
  rw [← unpack_eq_infinity_iff, ← unpack_eq_negInfinity_iff]
  exact exists_sign_iff

/-- The scalars that decode to a zero. -/
theorem exists_unpack_eq_zero_iff {x : Float32} :
    (∃ s, x.toModel.unpack = .zero s) ↔ x = zero ∨ x = negZero := by
  have hzero : x.toModel.unpack = .zero .positive ↔ x = zero :=
    unpack_inj (y := zero)
  have hnegZero : x.toModel.unpack = .zero .negative ↔ x = negZero :=
    unpack_inj (y := negZero)
  rw [← hzero, ← hnegZero]
  exact exists_sign_iff

/-! ## Sums and products -/

/-- A sum is a NaN if an operand is, or if infinities of both signs are added. -/
theorem unpacked_add_eq_notANumber_iff {u v : UnpackedFloat} :
    UnpackedFloat.add .binary32 u v = .notANumber ↔ u = .notANumber ∨ v = .notANumber ∨
      (u = .infinity .positive ∧ v = .infinity .negative) ∨
      (u = .infinity .negative ∧ v = .infinity .positive) := by
  cases u with
  | notANumber => simp [UnpackedFloat.add]
  | infinity s =>
    cases v with
    | infinity s' => cases s <;> cases s' <;> simp [UnpackedFloat.add]
    | notANumber => simp [UnpackedFloat.add]
    | zero s' => simp [UnpackedFloat.add]
    | finite s' m e pos => simp [UnpackedFloat.add]
  | zero s =>
    cases v with
    | infinity s' => simp [UnpackedFloat.add]
    | notANumber => simp [UnpackedFloat.add]
    | zero s' => cases s <;> cases s' <;> simp [UnpackedFloat.add]
    | finite s' m e pos => simp [UnpackedFloat.add]
  | finite s m e pos =>
    cases v with
    | infinity s' => simp [UnpackedFloat.add]
    | notANumber => simp [UnpackedFloat.add]
    | zero s' => simp [UnpackedFloat.add]
    | finite s' m' e' pos' =>
      have hsum := normalize_ne_notANumber .binary32
      simp [UnpackedFloat.add, hsum]

/-- A product is a NaN if a factor is, or if an infinity is multiplied by a zero. -/
theorem unpacked_mul_eq_notANumber_iff {u v : UnpackedFloat} :
    UnpackedFloat.mul .binary32 u v = .notANumber ↔ u = .notANumber ∨ v = .notANumber ∨
      ((∃ s, u = .infinity s) ∧ ∃ s, v = .zero s) ∨ ((∃ s, u = .zero s) ∧ ∃ s, v = .infinity s) := by
  have hproduct := roundWithAccuracy_ne_notANumber .binary32
  cases u <;> cases v <;> simp [UnpackedFloat.mul, hproduct]

/-- **A sum of two scalars is a NaN exactly if one of them is, or they are infinities of both
signs.** -/
theorem isNaN_add_iff {x y : Float32} : (x + y).isNaN = true ↔ x.isNaN = true ∨ y.isNaN = true ∨
    (x = infinity ∧ y = negInfinity) ∨ (x = negInfinity ∧ y = infinity) := by
  simp only [isNaN_iff_unpack, ← unpack_eq_infinity_iff, ← unpack_eq_negInfinity_iff]
  rw [← unpacked_add_eq_notANumber_iff, ← isNaN_iff_unpack]
  exact isNaN_ofModel_pack

/-- **A product of two scalars is a NaN exactly if one of them is, or one is infinite and the other a
zero.** -/
theorem isNaN_mul_iff {x y : Float32} : (x * y).isNaN = true ↔ x.isNaN = true ∨ y.isNaN = true ∨
    ((x = infinity ∨ x = negInfinity) ∧ (y = zero ∨ y = negZero)) ∨
      ((x = zero ∨ x = negZero) ∧ (y = infinity ∨ y = negInfinity)) := by
  simp only [isNaN_iff_unpack, ← exists_unpack_eq_zero_iff, ← exists_unpack_eq_infinity_iff]
  rw [← unpacked_mul_eq_notANumber_iff, ← isNaN_iff_unpack]
  exact isNaN_ofModel_pack

end Scalar

/-! ## The positive part -/

open Scalar (zero negZero infinity negInfinity)

/-- The positive part is zero, or the scalar itself where that is greater. -/
theorem rectify_cases (x : Float32) :
    rectify x = zero ∨ (rectify x = x ∧ x.isNaN = false ∧ zero < x) := by
  rw [rectify, larger]
  split
  · exact .inl rfl
  · rename_i hx
    rw [if_neg (by decide)]
    split
    next hlt => exact .inr ⟨rfl, Bool.eq_false_iff.2 hx, hlt⟩
    next => exact .inl rfl

/-- The positive part is never a NaN. -/
theorem isNaN_rectify (x : Float32) : (rectify x).isNaN = false := by
  rcases rectify_cases x with h | ⟨h, hx, -⟩
  · rw [h]
    decide
  · rw [h, hx]

/-- The positive part is never negative infinity. -/
theorem rectify_ne_negInfinity (x : Float32) : rectify x ≠ negInfinity := by
  rcases rectify_cases x with h | ⟨h, -, hlt⟩
  · rw [h]
    decide
  · rw [h]
    rintro rfl
    exact absurd hlt (by decide)

/-- A product of a positive part with a finite weight is a NaN exactly if an infinity meets a zero. -/
theorem isNaN_rectify_mul_iff {w : Float32} (hw : w.isFinite = true) (x : Float32) :
    (rectify x * w).isNaN = true ↔ rectify x = infinity ∧ (w = zero ∨ w = negZero) := by
  have hinfinite : w ≠ infinity ∧ w ≠ negInfinity := by
    constructor
    · rintro rfl
      exact absurd hw (by decide)
    · rintro rfl
      exact absurd hw (by decide)
  rw [Scalar.isNaN_mul_iff, isNaN_rectify, Scalar.isNaN_of_isFinite hw]
  simp [hinfinite, rectify_ne_negInfinity]

/-! ## Sums of many terms -/

section

variable [Arithmetic]

/-- A sum with one more term. -/
theorem sum_concat (terms : List Float32) (t : Float32) : sum (terms ++ [t]) = add (sum terms) t := by
  rw [sum, List.foldl_append]
  rfl

/-- Adding up terms, an infinite sum meets an infinite term of the other sign. -/
def Clashes (terms : List Float32) : Prop :=
  ∃ before t after, terms = before ++ t :: after ∧
    ((sum before = infinity ∧ t = negInfinity) ∨ (sum before = negInfinity ∧ t = infinity))

/-- The clashes with one more term are those without it, and the one at its end. -/
theorem clashes_concat {terms : List Float32} {t : Float32} : Clashes (terms ++ [t]) ↔
    Clashes terms ∨ (sum terms = infinity ∧ t = negInfinity) ∨
      (sum terms = negInfinity ∧ t = infinity) := by
  constructor
  · rintro ⟨before, t', after, heq, hclash⟩
    rcases List.eq_nil_or_concat after with rfl | ⟨after', last, rfl⟩
    · obtain ⟨rfl, hlast⟩ := List.append_inj' heq rfl
      obtain rfl := List.singleton_inj.1 hlast
      exact .inr hclash
    · rw [List.concat_eq_append, ← List.cons_append, ← List.append_assoc] at heq
      obtain ⟨rfl, -⟩ := List.append_inj' heq rfl
      exact .inl ⟨before, t', after', rfl, hclash⟩
  · rintro (⟨before, t', after, rfl, hclash⟩ | hclash)
    · exact ⟨before, t', after ++ [t], by rw [List.append_assoc, List.cons_append], hclash⟩
    · exact ⟨terms, t, [], rfl, hclash⟩

/-- **A sum is a NaN exactly if a term is one, or infinities of both signs meet on the way.** -/
theorem isNaN_sum_iff (hadd : ∀ x y : Float32, add x y = x + y) {terms : List Float32} :
    (sum terms).isNaN = true ↔ (∃ t ∈ terms, t.isNaN = true) ∨ Clashes terms := by
  induction terms using List.reverseRecOn with
  | nil =>
    have hzero : zero.isNaN = false := by decide
    have hclash : ¬ Clashes [] := by
      rintro ⟨before, t, after, heq, -⟩
      simp at heq
    have hsum : sum [] = zero := rfl
    rw [hsum, hzero]
    simp [hclash]
  | append_singleton terms t ih =>
    rw [sum_concat, hadd, Scalar.isNaN_add_iff, ih, clashes_concat]
    simp only [List.mem_append, List.mem_singleton, or_and_right, exists_or, exists_eq_left]
    exact or_or_or_comm

/-- Finite terms do not clash, however great their sum becomes. -/
theorem not_clashes_of_finite {terms : List Float32} (h : ∀ t ∈ terms, t.isFinite = true) :
    ¬ Clashes terms := by
  rintro ⟨before, t, after, rfl, hclash⟩
  have ht : t.isFinite = true := h t (List.mem_append_right _ (.head _))
  rcases hclash with ⟨-, rfl⟩ | ⟨-, rfl⟩
  · exact absurd ht (by decide)
  · exact absurd ht (by decide)

/-- A finite sum of products is the sum of the products. -/
theorem dot_eq_sum (xs ws : List Float32) : dot xs ws = sum (List.zipWith mul xs ws) := by
  rw [dot, sum, ← List.map_uncurry_zip_eq_zipWith, List.foldl_map]
  rfl

end

end PolicyValue
