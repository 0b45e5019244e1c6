import Mathlib
import PolicyValue.Scalar.Arithmetic

/-!
# Rounding a mantissa

The size of a positive number is the position of its first binary digit (`totalExponent`).  Rounding
keeps it or makes it greater by one, and gives a mantissa and an exponent as an encoding keeps them
(`Scalar.Canonical`).

* `Scalar.canonical_shiftToTargetExponent`: a mantissa that is shifted to the exponent of its size;
* `Scalar.exists_roundWithAccuracy`, `Scalar.exists_round`: the result of rounding, and its size;
* `Scalar.pack_finite`: what a number is encoded as;
* `Scalar.decoded`: what scalars are decoded to.
-/

open Float.Model Float.Model.UnpackedFloat

namespace PolicyValue

namespace Scalar

/-! ## Digits -/

/-- A shift to the right takes as many digits from a mantissa. -/
theorem log2_div_two_pow (m k : Nat) : (m / 2 ^ k).log2 = m.log2 - k := by
  rw [Nat.log2_eq_log_two, Nat.log2_eq_log_two, Nat.log_div_base_pow]

/-- A shift to the left gives as many digits to a mantissa. -/
theorem log2_shiftLeft {m : Nat} (hm : 0 < m) (k : Nat) : (m <<< k).log2 = m.log2 + k := by
  rw [Nat.shiftLeft_eq, Nat.log2_eq_iff (Nat.ne_of_gt (Nat.mul_pos hm (Nat.two_pow_pos k)))]
  have hlow : 2 ^ m.log2 ≤ m := Nat.log2_self_le (Nat.ne_of_gt hm)
  have hhigh : m < 2 ^ (m.log2 + 1) := Nat.lt_log2_self
  rw [Nat.add_right_comm, Nat.pow_add, Nat.pow_add 2 (m.log2 + 1) k]
  exact ⟨Nat.mul_le_mul_right _ hlow, Nat.mul_lt_mul_of_pos_right hhigh (Nat.two_pow_pos k)⟩

/-- One more than a mantissa has at most one more digit. -/
theorem log2_succ_le (m : Nat) : (m + 1).log2 ≤ m.log2 + 1 := by
  have hhigh : m < 2 ^ (m.log2 + 1) := Nat.lt_log2_self
  have hbound : m + 1 < 2 ^ (m.log2 + 2) := by
    rw [Nat.pow_succ]
    omega
  exact Nat.lt_succ_iff.1 ((Nat.log2_lt (Nat.succ_ne_zero m)).2 hbound)

/-- More is not shorter. -/
theorem log2_le_log2 {m n : Nat} (hm : 0 < m) (h : m ≤ n) : m.log2 ≤ n.log2 :=
  (Nat.le_log2 (Nat.ne_of_gt (Nat.lt_of_lt_of_le hm h))).2
    (Nat.le_trans (Nat.log2_self_le (Nat.ne_of_gt hm)) h)

/-! ## Shifts -/

/-- A shift to the right cuts the last binary digits of a mantissa. -/
theorem mantissa_shiftRight (em : ExtendedMantissa) (n : Nat) :
    (em >>> n).mantissa = em.mantissa / 2 ^ n := by
  show (Nat.repeat ExtendedMantissa.shiftRightOne n em).mantissa = em.mantissa / 2 ^ n
  induction n with
  | zero => rw [Nat.pow_zero, Nat.div_one, Nat.repeat]
  | succ n ih =>
    show (Nat.repeat ExtendedMantissa.shiftRightOne n em).mantissa / 2 = em.mantissa / 2 ^ (n + 1)
    rw [ih, Nat.div_div_eq_div_mul, ← Nat.pow_succ]

/-- The exponent for a number of some size leaves 24 digits, unless that is below the range. -/
theorem targetExponent_binary32 (size : Int) :
    Format.binary32.targetExponent size = max (size - 24) (-149) := rfl

/-- A mantissa with the digits and the exponent that encoding keeps: it has 24 digits, or fewer with
the least exponent. -/
structure Canonical (m : Nat) (e : Int) : Prop where
  /-- There is a digit. -/
  pos : 0 < m
  /-- There are at most 24. -/
  width : m.log2 ≤ 23
  /-- The last place is worth at least `2 ^ -149`. -/
  range : -149 ≤ e
  /-- There are 24 if it is worth more. -/
  full : -149 < e → m.log2 = 23

/-- Shifted to the exponent of its size, a number is canonical and keeps its size. -/
theorem canonical_shiftToTargetExponent {m : Nat} {e : Int} (hm : 0 < m)
    (hsize : -149 < totalExponent m e)
    (hcap : e ≤ Format.binary32.targetExponent (totalExponent m e)) (accuracy : Accuracy) :
    let shifted := shiftToTargetExponent .binary32 m e accuracy
    Canonical shifted.1.mantissa shifted.2 ∧
      totalExponent shifted.1.mantissa shifted.2 = totalExponent m e := by
  have hinitial : (ExtendedMantissa.ofMantissaAndAccuracy m accuracy).mantissa = m := by
    unfold ExtendedMantissa.ofMantissaAndAccuracy
    split <;> rfl
  rw [targetExponent_binary32] at hcap
  intro shifted
  generalize hk : (max (totalExponent m e - 24) (-149) - e).toNat = k
  have hmantissa : shifted.1.mantissa = m / 2 ^ k := by
    rw [← hk]
    exact (mantissa_shiftRight _ _).trans (congrArg (· / _) hinitial)
  have hexponent : shifted.2 = e + k := by
    rw [← hk]
    rfl
  rw [hmantissa, hexponent]
  unfold totalExponent at hsize hcap hk ⊢
  have hkept : k ≤ m.log2 := by omega
  have hpos : 0 < m / 2 ^ k :=
    Nat.div_pos ((Nat.le_log2 (Nat.ne_of_gt hm)).1 hkept) (Nat.two_pow_pos k)
  have hdigits : (m / 2 ^ k).log2 = m.log2 - k := log2_div_two_pow m k
  exact ⟨⟨hpos, by omega, by omega, by omega⟩, by omega⟩

/-! ## Rounding -/

/-- Rounding to the nearest integer does not go below the digits before the point. -/
theorem mantissa_le_roundedMantissa (em : ExtendedMantissa) : em.mantissa ≤ em.roundedMantissa := by
  obtain ⟨m, roundBit, stickyBit⟩ := em
  cases roundBit <;> cases stickyBit
  · exact Nat.le_refl m
  · exact Nat.le_refl m
  · exact Nat.le_add_right m (m % 2)
  · exact Nat.le_add_right m 1

/-- Rounding to the nearest integer adds at most one. -/
theorem roundedMantissa_le (em : ExtendedMantissa) : em.roundedMantissa ≤ em.mantissa + 1 := by
  obtain ⟨m, roundBit, stickyBit⟩ := em
  cases roundBit <;> cases stickyBit
  · exact Nat.le_succ m
  · exact Nat.le_succ m
  · exact Nat.add_le_add_left (Nat.lt_succ_iff.1 (Nat.mod_lt m Nat.two_pos)) m
  · exact Nat.le_refl (m + 1)

/-- **Rounding gives a canonical number**, of the same size or one that is greater by one. -/
theorem exists_roundWithAccuracy (s : Sign) {m : Nat} {e : Int} (hm : 0 < m)
    (hsize : -149 < totalExponent m e)
    (hcap : e ≤ Format.binary32.targetExponent (totalExponent m e)) (accuracy : Accuracy) :
    ∃ m' e' pos, roundWithAccuracy .binary32 s m e accuracy = .finite s m' e' pos ∧
      Canonical m' e' ∧ totalExponent m e ≤ totalExponent m' e' ∧
      totalExponent m' e' ≤ totalExponent m e + 1 := by
  obtain ⟨hfirst, hfirstSize⟩ := canonical_shiftToTargetExponent hm hsize hcap accuracy
  rw [roundWithAccuracy]
  generalize shiftToTargetExponent .binary32 m e accuracy = first at hfirst hfirstSize
  obtain ⟨em, e₁⟩ := first
  dsimp only at hfirst hfirstSize ⊢
  have hlow : em.mantissa ≤ em.roundedMantissa := mantissa_le_roundedMantissa em
  have hpos : 0 < em.roundedMantissa := Nat.lt_of_lt_of_le hfirst.pos hlow
  have hlog : em.mantissa.log2 ≤ em.roundedMantissa.log2 := log2_le_log2 hfirst.pos hlow
  have hlog' : em.roundedMantissa.log2 ≤ em.mantissa.log2 + 1 :=
    Nat.le_trans (log2_le_log2 hpos (roundedMantissa_le em)) (log2_succ_le _)
  have hrange := hfirst.range
  have hfull := hfirst.full
  -- The second shift takes back a digit that a carry has added.
  have hsize' : -149 < totalExponent em.roundedMantissa e₁ := by
    unfold totalExponent at hsize hfirstSize ⊢
    omega
  have hcap' : e₁ ≤ Format.binary32.targetExponent (totalExponent em.roundedMantissa e₁) := by
    rw [targetExponent_binary32]
    unfold totalExponent
    omega
  obtain ⟨hsecond, hsecondSize⟩ := canonical_shiftToTargetExponent hpos hsize' hcap' .exact
  rw [dif_neg (Nat.ne_of_gt hsecond.pos)]
  refine ⟨_, _, _, rfl, hsecond, ?_⟩
  rw [hsecondSize, ← hfirstSize]
  unfold totalExponent
  omega

/-- A number within the range is rounded to a canonical one, of the same size or one that is greater
by one. -/
theorem exists_round (s : Sign) {m : Nat} {e : Int} (hm : 0 < m)
    (hsize : -149 < totalExponent m e) :
    ∃ m' e' pos, UnpackedFloat.round .binary32 s m e = .finite s m' e' pos ∧ Canonical m' e' ∧
      totalExponent m e ≤ totalExponent m' e' ∧ totalExponent m' e' ≤ totalExponent m e + 1 := by
  rw [UnpackedFloat.round, decreaseExponent, targetExponent_binary32]
  dsimp only
  generalize hk : (e - max (totalExponent m e - 24) (-149)).toNat = k
  have hlog : (m <<< k).log2 = m.log2 + k := log2_shiftLeft hm k
  have hshifted : 0 < m <<< k := Nat.shiftLeft_pos_iff.2 hm
  have hkept : totalExponent (m <<< k) (e - k) = totalExponent m e := by
    unfold totalExponent
    omega
  have hcap : e - k ≤ Format.binary32.targetExponent (totalExponent (m <<< k) (e - k)) := by
    rw [targetExponent_binary32, hkept]
    omega
  rw [← hkept] at hsize ⊢
  exact exists_roundWithAccuracy s hshifted hsize hcap .exact

/-! ## Encoding -/

/-- The encoding of a number. -/
theorem pack_finite (s : Sign) {m : Nat} {e : Int} (pos : 0 < m) :
    UnpackedFloat.pack .binary32 (.finite s m e pos) =
      if 256 ≤ (e + 127 + 23).toNat + 1 then packedInfinity .binary32 s
      else if m.log2 + 1 = 24 then
        packComponents .binary32 s (BitVec.ofNat 8 (e + 127 + 23).toNat) (BitVec.ofNat 23 m)
      else packComponents .binary32 s 0#8 (BitVec.ofNat 23 m) := rfl

/-! ## Decoding -/

/-- What scalars decode to: a finite one has the exponent of its size, which is at most 104. -/
inductive Decoded : UnpackedFloat → Prop
  | notANumber : Decoded .notANumber
  | infinity (s : Sign) : Decoded (.infinity s)
  | zero (s : Sign) : Decoded (.zero s)
  | finite (s : Sign) {m : Nat} {e : Int} (h : Canonical m e) (cap : e ≤ 104) :
      Decoded (.finite s m e h.pos)

/-- A mantissa with a leading one has 24 digits. -/
theorem log2_one_append (mantissa : BitVec 23) : (1#1 ++ mantissa).toNat.log2 = 23 := by
  have hsplit : (1#1 ++ mantissa).toNat = 2 ^ 23 + mantissa.toNat := by
    rw [BitVec.toNat_append, ← Nat.shiftLeft_add_eq_or_of_lt mantissa.isLt]
    rfl
  have hmantissa := mantissa.isLt
  rw [hsplit, Nat.log2_eq_iff (by omega)]
  omega

/-- Mantissas without a leading one are canonical at the least exponent. -/
theorem canonical_subnormal {mantissa : BitVec 23} (h : mantissa ≠ 0#23) {e : Int}
    (he : e = -149) : Canonical mantissa.toNat e := by
  have hpos : 0 < mantissa.toNat :=
    Nat.pos_of_ne_zero fun hzero => h (BitVec.eq_of_toNat_eq hzero)
  have hlog : mantissa.toNat.log2 ≤ 23 :=
    Nat.le_of_lt ((Nat.log2_lt (Nat.ne_of_gt hpos)).2 mantissa.isLt)
  exact ⟨hpos, hlog, Int.le_of_eq he.symm, fun hlarge => absurd he (Int.ne_of_gt hlarge)⟩

/-- Mantissas with a leading one are canonical at every exponent. -/
theorem canonical_normal (mantissa : BitVec 23) {e : Int} (he : -149 ≤ e) :
    Canonical (1#1 ++ mantissa).toNat e := by
  have hlog : (1#1 ++ mantissa).toNat.log2 = 23 := log2_one_append mantissa
  have hpos : 0 < (1#1 ++ mantissa).toNat := by
    refine Nat.pos_of_ne_zero fun hzero => ?_
    rw [hzero] at hlog
    exact absurd hlog (by decide)
  exact ⟨hpos, Nat.le_of_eq hlog, he, fun _ => hlog⟩

/-- Bits decode to a NaN, an infinity, a zero or a canonical number. -/
theorem decoded_unpack (b : BitVec 32) : Decoded (UnpackedFloat.unpack .binary32 b) := by
  have hexponent : (@unpackExponent .binary32 b).toNat < 2 ^ 8 := BitVec.isLt _
  rw [UnpackedFloat.unpack]
  dsimp only
  split
  · split
    · exact .infinity _
    · exact .notANumber
  · rename_i hmax
    split
    · rename_i hzero
      split
      · exact .zero _
      · rename_i hsome
        have hleast : ((@unpackExponent .binary32 b).toNat : Int) - (127 + 23) + 1 = -149 := by
          rw [hzero]
          rfl
        exact .finite _ (canonical_subnormal hsome hleast)
          (Int.le_trans (Int.le_of_eq hleast) (by decide))
    · rename_i hnonzero
      have hone : (@unpackExponent .binary32 b).toNat ≠ 0 :=
        fun hzero => hnonzero (BitVec.eq_of_toNat_eq hzero)
      have hless : (@unpackExponent .binary32 b).toNat ≠ 255 :=
        fun hall => hmax (BitVec.eq_of_toNat_eq hall)
      have hrange : (-149 : Int) ≤ ((@unpackExponent .binary32 b).toNat : Int) - (127 + 23) := by
        omega
      have hcap : ((@unpackExponent .binary32 b).toNat : Int) - (127 + 23) ≤ 104 := by omega
      exact .finite _ (canonical_normal _ hrange) hcap

/-- What a scalar decodes to. -/
theorem decoded (x : Float32) : Decoded x.toModel.unpack := decoded_unpack _

end Scalar

end PolicyValue
