import PolicyValue.Proofs.Rounding

/-!
# Sums that never reach negative zero

Adding zero changes no scalar but negative zero.  A sum that is accumulated from positive zero never
comes there: two operands that cancel give positive zero, and rounding takes no other sum to a zero,
because a mantissa that is shifted to the exponent of its size keeps a digit.

* `Scalar.Regular`: the scalars other than negative zero, as the sign, mantissa and exponent they
  decode to;
* `Scalar.regular_round`: whatever is rounded is regular;
* `Scalar.add_zero_eq_self`, `Scalar.add_ne_negZero`: the two facts about sums.
-/

open Float.Model Float.Model.UnpackedFloat

namespace PolicyValue

namespace Scalar

/-- Negative zero. -/
def negZero : Float32 := Float32.ofBits 0x80000000

/-- What scalars other than negative zero decode to: a mantissa has at most 24 digits, and its last
place is worth at least `2 ^ -149`. -/
inductive Regular : UnpackedFloat → Prop
  | notANumber : Regular .notANumber
  | infinity (s : Sign) : Regular (.infinity s)
  | zero : Regular (.zero .positive)
  | finite (s : Sign) {m : Nat} {e : Int} (pos : 0 < m) (width : m < 2 ^ 24) (range : -149 ≤ e) :
    Regular (.finite s m e pos)

/-! ## Rounding -/

/-- A canonical number is regular. -/
theorem Canonical.regular {m : Nat} {e : Int} (h : Canonical m e) (s : Sign) :
    Regular (.finite s m e h.pos) :=
  .finite s h.pos ((Nat.log2_lt (Nat.ne_of_gt h.pos)).1 (Nat.lt_succ_iff.2 h.width)) h.range

/-- A positive number within the range is not rounded to a zero. -/
theorem regular_round (s : Sign) {m : Nat} {e : Int} (hm : 0 < m) (he : -149 ≤ e) :
    Regular (UnpackedFloat.round .binary32 s m e) := by
  have hsize : -149 < totalExponent m e := by
    unfold totalExponent
    omega
  obtain ⟨m', e', pos, hround, hcanonical, -⟩ := exists_round s hm hsize
  rw [hround]
  exact hcanonical.regular s

/-- An integer mantissa is rounded to a zero only if it is zero, and then to positive zero. -/
theorem regular_normalize (m : Int) {e : Int} (he : -149 ≤ e) :
    Regular (UnpackedFloat.normalize .binary32 m e .positive) := by
  rw [UnpackedFloat.normalize]
  rcases Int.lt_trichotomy m 0 with h | rfl | h
  · rw [Int.compare_eq_lt.2 h]
    exact regular_round .negative (by omega) he
  · exact .zero
  · rw [Int.compare_eq_gt.2 h]
    exact regular_round .positive (by omega) he

/-! ## Adding -/

/-- Adding a zero of either sign changes nothing. -/
theorem Regular.add_zero {u : UnpackedFloat} (hu : Regular u) (s : Sign) :
    UnpackedFloat.add .binary32 u (.zero s) = u := by
  cases hu with
  | notANumber => rfl
  | infinity _ => rfl
  | zero => cases s <;> rfl
  | finite _ _ _ _ => rfl

/-- A sum is regular if its first operand is and the second is a scalar. -/
theorem Regular.add {u v : UnpackedFloat} (hu : Regular u)
    (hv : v = .zero .negative ∨ Regular v) : Regular (UnpackedFloat.add .binary32 u v) := by
  rcases hv with rfl | hv
  · rw [hu.add_zero]
    exact hu
  cases hu with
  | notANumber => exact .notANumber
  | infinity s =>
    cases hv with
    | notANumber => exact .notANumber
    | infinity s' =>
      rw [UnpackedFloat.add]
      split
      · exact .infinity s
      · exact .notANumber
    | zero => exact .infinity s
    | finite _ _ _ _ => exact .infinity s
  | zero =>
    cases hv with
    | notANumber => exact .notANumber
    | infinity s' => exact .infinity s'
    | zero => exact .zero
    | finite s' pos width range => exact .finite s' pos width range
  | finite s pos width range =>
    cases hv with
    | notANumber => exact .notANumber
    | infinity s' => exact .infinity s'
    | zero => exact .finite s pos width range
    | finite s' pos' width' range' => exact regular_normalize _ (le_min range range')

/-! ## Decoding and encoding -/

/-- Bits decode to negative zero or to something regular. -/
theorem regular_unpack {b : BitVec 32} (hb : UnpackedFloat.unpack .binary32 b ≠ .zero .negative) :
    Regular (UnpackedFloat.unpack .binary32 b) := by
  have hdecoded := decoded_unpack b
  generalize UnpackedFloat.unpack .binary32 b = u at hb hdecoded ⊢
  cases hdecoded with
  | notANumber => exact .notANumber
  | infinity s => exact .infinity s
  | zero s =>
    cases s with
    | negative => exact absurd rfl hb
    | positive => exact .zero
  | finite s h cap => exact h.regular s

/-- Nothing regular is encoded as negative zero. -/
theorem Regular.pack_ne {u : UnpackedFloat} (hu : Regular u) :
    UnpackedFloat.pack .binary32 u ≠ packedZero .binary32 .negative := by
  cases hu with
  | notANumber => decide
  | infinity s => cases s <;> decide
  | zero => decide
  | @finite s m e pos width range =>
    rw [pack_finite s pos]
    split
    · cases s <;> decide
    · rename_i hsmall
      split
      · -- With all digits the exponent field is positive.
        intro h
        have hexponent := congrArg (@unpackExponent .binary32) h
        rw [packedZero, unpackExponent_packComponents, unpackExponent_packComponents] at hexponent
        have hfield : (e + 127 + 23).toNat % 256 = 0 := congrArg BitVec.toNat hexponent
        omega
      · -- With fewer digits the mantissa field holds all of them.
        rename_i hdigits
        intro h
        have hmantissa := congrArg (@unpackMantissa .binary32) h
        rw [packedZero, unpackMantissa_packComponents, unpackMantissa_packComponents] at hmantissa
        have hfield : m % 2 ^ 23 = 0 := congrArg BitVec.toNat hmantissa
        have hfits : m.log2 < 24 := (Nat.log2_lt (Nat.ne_of_gt pos)).2 width
        have hshort : m < 2 ^ 23 := (Nat.log2_lt (Nat.ne_of_gt pos)).1 (by omega)
        omega

/-- A scalar other than negative zero decodes to something regular. -/
theorem regular_of_ne {x : Float32} (h : x ≠ negZero) : Regular x.toModel.unpack := by
  refine regular_unpack fun hunpack => h ?_
  have hbits : x.toModel.toBits.toBitVec = packedZero .binary32 .negative :=
    (unpack_eq_zero_iff_of_valid x.toModel.valid).1 hunpack
  have htoBits : x.toBits = 0x80000000 := UInt32.toBitVec_inj.1 hbits
  rw [← Float32.ofBits_toBits x, htoBits, negZero]

/-- Decoding and encoding a scalar gives it back. -/
theorem ofModel_pack_unpack (x : Float32) : Float32.ofModel (.pack x.toModel.unpack) = x := by
  have hbits : UnpackedFloat.pack .binary32 x.toModel.unpack = x.toModel.toBits.toBitVec :=
    pack_unpack_of_valid x.toModel.valid
  exact Float32.toBits_inj.1 (UInt32.toBitVec_inj.1 hbits)

/-! ## Sums of scalars -/

/-- **Adding positive zero changes no scalar other than negative zero.** -/
theorem add_zero_eq_self {x : Float32} (h : x ≠ negZero) : x + zero = x := by
  show Float32.ofModel (.pack (UnpackedFloat.add .binary32 x.toModel.unpack (.zero .positive))) = x
  rw [(regular_of_ne h).add_zero, ofModel_pack_unpack]

/-- **No sum is negative zero unless its first operand is.** -/
theorem add_ne_negZero {x : Float32} (h : x ≠ negZero) (y : Float32) : x + y ≠ negZero := by
  have hy : y.toModel.unpack = .zero .negative ∨ Regular y.toModel.unpack :=
    or_iff_not_imp_left.2 regular_unpack
  intro hsum
  refine ((regular_of_ne h).add hy).pack_ne ?_
  exact congrArg (fun z : Float32 => z.toBits.toBitVec) hsum

end Scalar

end PolicyValue
