import PolicyValue.Layer.Initial
import PolicyValue.Proofs.Rounding

/-!
# The bound of initial parameters

Fresh layers are drawn from the range between `-1 / √inputs` and `1 / √inputs`.  Rounded as it is, this
bound is infinite for a layer without inputs and finite for every other one: a positive count is at
least one, so its square root is, and the inverse of that is not above one by more than rounding adds.

* `Scalar.unpack_pack_of_canonical`: an encoded number, decoded;
* `Scalar.exists_sqrt`, `Scalar.exists_div`: the sizes of square roots and quotients;
* `Scalar.FromOne`: the scalars from one on, which counts and their square roots are;
* `Linear.draw_eq_error_iff`: which layers cannot be drawn.
-/

open Float.Model Float.Model.UnpackedFloat

namespace PolicyValue

namespace Scalar

/-! ## Encoding and decoding -/

/-- A mantissa of 24 digits is a one and the digits after it. -/
theorem toNat_one_append {m : Nat} (h : m.log2 = 23) : (1#1 ++ BitVec.ofNat 23 m).toNat = m := by
  have hm : m ≠ 0 := by
    rintro rfl
    cases h
  obtain ⟨hlow, hhigh⟩ := (Nat.log2_eq_iff hm).1 h
  have hrest : m % 2 ^ 23 < 2 ^ 23 := Nat.mod_lt m (Nat.two_pow_pos 23)
  rw [BitVec.toNat_append]
  show 1 <<< 23 ||| m % 2 ^ 23 = m
  rw [← Nat.shiftLeft_add_eq_or_of_lt hrest]
  omega

/-- The sign of an encoded number. -/
theorem ofBitVec_unpackSign (s : Sign) (exponent : BitVec 8) (mantissa : BitVec 23) :
    Sign.ofBitVec (@unpackSign .binary32 (packComponents .binary32 s exponent mantissa)) = s := by
  have hfirst : ∀ sign : BitVec 1, (sign ++ exponent ++ mantissa).getLsbD 31 = sign.getLsbD 0 := by
    intro sign
    rw [BitVec.getLsbD_append, BitVec.getLsbD_append]
    rfl
  have hsign : @unpackSign .binary32 (packComponents .binary32 s exponent mantissa) =
      s.toBitVec := by
    refine BitVec.eq_of_getLsbD_eq fun i hi => ?_
    obtain rfl : i = 0 := Nat.lt_one_iff.1 hi
    rw [← hfirst s.toBitVec]
    show ((s.toBitVec ++ exponent ++ mantissa).extractLsb 31 31).getLsbD 0 = _
    rw [BitVec.getLsbD_extractLsb]
    rfl
  rw [hsign]
  cases s <;> rfl

/-- Decoding a number of 24 digits. -/
theorem exists_unpack_normal (s : Sign) {exponent : BitVec 8} (mantissa : BitVec 23)
    (hzero : exponent ≠ 0#8) (hmax : exponent ≠ -1#8) : ∃ pos,
    UnpackedFloat.unpack .binary32 (packComponents .binary32 s exponent mantissa) =
      .finite s (1#1 ++ mantissa).toNat (exponent.toNat - 150) pos := by
  have pos : 0 < (1#1 ++ mantissa).toNat := by
    rw [BitVec.toNat_append]
    exact Nat.lt_of_lt_of_le (Nat.two_pow_pos 23) Nat.left_le_or
  refine ⟨pos, ?_⟩
  rw [UnpackedFloat.unpack]
  simp only [unpackMantissa_packComponents, unpackExponent_packComponents]
  rw [if_neg hmax, if_neg hzero, UnpackedFloat.finite.injEq]
  exact ⟨ofBitVec_unpackSign s exponent mantissa, rfl, rfl⟩

/-- Decoding a number of fewer digits. -/
theorem exists_unpack_subnormal (s : Sign) {mantissa : BitVec 23} (h : mantissa ≠ 0#23) : ∃ pos,
    UnpackedFloat.unpack .binary32 (packComponents .binary32 s 0#8 mantissa) =
      .finite s mantissa.toNat (-149) pos := by
  have pos : 0 < mantissa.toNat := Nat.pos_of_ne_zero fun hzero => h (BitVec.eq_of_toNat_eq hzero)
  refine ⟨pos, ?_⟩
  rw [UnpackedFloat.unpack]
  simp only [unpackMantissa_packComponents, unpackExponent_packComponents]
  rw [if_neg (by decide), if_pos trivial, dif_neg h, UnpackedFloat.finite.injEq]
  exact ⟨ofBitVec_unpackSign s 0#8 mantissa, rfl, rfl⟩

/-- The field of a normal exponent holds it, and is neither the least nor the greatest. -/
theorem exponent_field {e : Int} (hlow : -149 ≤ e) (hhigh : e ≤ 104) :
    (BitVec.ofNat 8 (e + 127 + 23).toNat).toNat = (e + 127 + 23).toNat ∧
      BitVec.ofNat 8 (e + 127 + 23).toNat ≠ 0#8 ∧ BitVec.ofNat 8 (e + 127 + 23).toNat ≠ -1#8 := by
  have hfield : (BitVec.ofNat 8 (e + 127 + 23).toNat).toNat = (e + 127 + 23).toNat :=
    Nat.mod_eq_of_lt (by omega)
  refine ⟨hfield, ?_, ?_⟩
  · intro hzero
    rw [hzero] at hfield
    have hleast : 0 = (e + 127 + 23).toNat := hfield
    omega
  · intro hmax
    rw [hmax] at hfield
    have hgreatest : 255 = (e + 127 + 23).toNat := hfield
    omega

/-- The field of a short mantissa holds it, and is not zero. -/
theorem mantissa_field {m : Nat} (hpos : 0 < m) (h : m < 2 ^ 23) :
    (BitVec.ofNat 23 m).toNat = m ∧ BitVec.ofNat 23 m ≠ 0#23 := by
  have hfield : (BitVec.ofNat 23 m).toNat = m := Nat.mod_eq_of_lt h
  refine ⟨hfield, ?_⟩
  intro hzero
  rw [hzero] at hfield
  exact absurd hfield.symm (Nat.ne_of_gt hpos)

/-- **An encoded number is decoded to itself**, or to an infinity if its exponent is too great. -/
theorem unpack_pack_of_canonical (s : Sign) {m : Nat} {e : Int} (h : Canonical m e) (pos : 0 < m) :
    UnpackedFloat.unpack .binary32 (UnpackedFloat.pack .binary32 (.finite s m e pos)) =
      if e ≤ 104 then .finite s m e pos else .infinity s := by
  obtain ⟨-, hwidth, hrange, hfull⟩ := h
  rw [pack_finite]
  by_cases he : e ≤ 104
  · rw [if_pos he, if_neg (by omega)]
    by_cases hdigits : m.log2 = 23
    · rw [if_pos (by omega)]
      obtain ⟨hfield, hzero, hmax⟩ := exponent_field hrange he
      obtain ⟨pos', hunpack⟩ := exists_unpack_normal s (BitVec.ofNat 23 m) hzero hmax
      rw [hunpack, UnpackedFloat.finite.injEq, toNat_one_append hdigits, hfield]
      exact ⟨rfl, rfl, by omega⟩
    · obtain rfl : e = -149 := by omega
      rw [if_neg (by omega)]
      obtain ⟨hfield, hzero⟩ :=
        mantissa_field pos ((Nat.log2_lt (Nat.ne_of_gt pos)).1 (by omega))
      obtain ⟨pos', hunpack⟩ := exists_unpack_subnormal s hzero
      rw [hunpack, UnpackedFloat.finite.injEq]
      exact ⟨rfl, hfield, rfl⟩
  · rw [if_neg he, if_pos (by omega)]
    cases s <;> rfl

/-! ## Square roots, quotients and counts -/

/-- The integer square root has at least half the digits. -/
theorem half_log2_le_log2_sqrt {m : Nat} (hm : 0 < m) : m.log2 / 2 ≤ m.sqrt.log2 := by
  have hlow : 2 ^ m.log2 ≤ m := Nat.log2_self_le (Nat.ne_of_gt hm)
  have hroot : 2 ^ (m.log2 / 2) ≤ m.sqrt := by
    rw [Nat.le_sqrt, ← Nat.pow_add]
    exact Nat.le_trans (Nat.pow_le_pow_right Nat.two_pos (by omega)) hlow
  exact (Nat.le_log2 (Nat.ne_of_gt (Nat.lt_of_lt_of_le (Nat.two_pow_pos _) hroot))).2 hroot

/-- The square root of a positive number is one of at least half the size. -/
theorem exists_sqrt {m : Nat} {e : Int} (h : Canonical m e) : ∃ m' e' pos,
    UnpackedFloat.sqrt .binary32 (.finite .positive m e h.pos) = .finite .positive m' e' pos ∧
      Canonical m' e' ∧ (totalExponent m e + 1) / 2 ≤ totalExponent m' e' := by
  have hrange := h.range
  rw [UnpackedFloat.sqrt, sqrtCore]
  dsimp only
  rw [targetExponent_binary32]
  generalize ht : min (e.ediv 2) (max ((totalExponent m e + 1).ediv 2 - 24) (-149)) = t
  have ht' : min (e / 2) (max ((totalExponent m e + 1) / 2 - 24) (-149)) = t := ht
  generalize hk : (e - 2 * t).toNat = k
  have hlog : (m <<< k).log2 = m.log2 + k := log2_shiftLeft h.pos k
  have hshifted : 0 < m <<< k := Nat.shiftLeft_pos_iff.2 h.pos
  have hroot : (m <<< k).log2 / 2 ≤ (m <<< k).sqrt.log2 := half_log2_le_log2_sqrt hshifted
  have hpos : 0 < (m <<< k).sqrt := Nat.sqrt_pos.2 hshifted
  have hsize : (totalExponent m e + 1) / 2 ≤ totalExponent (m <<< k).sqrt t := by
    unfold totalExponent at ht' ⊢
    omega
  have hleast : -149 < (totalExponent m e + 1) / 2 := by
    unfold totalExponent
    omega
  have hcap : t ≤ Format.binary32.targetExponent (totalExponent (m <<< k).sqrt t) := by
    rw [targetExponent_binary32]
    omega
  obtain ⟨m', e', pos, hround, hcanonical, hle, -⟩ :=
    exists_roundWithAccuracy .positive hpos (Int.lt_of_lt_of_le hleast hsize) hcap _
  exact ⟨m', e', pos, hround, hcanonical, Int.le_trans hsize hle⟩

/-- An integer quotient has the difference of the digits, or one less. -/
theorem log2_div {m n : Nat} (hn : 0 < n) (h : n.log2 < m.log2) :
    0 < m / n ∧ m.log2 ≤ (m / n).log2 + n.log2 + 1 ∧ (m / n).log2 + n.log2 ≤ m.log2 := by
  have hm : m ≠ 0 := by
    rintro rfl
    exact Nat.not_lt_zero _ h
  have hlow : 2 ^ (m.log2 - n.log2 - 1) ≤ m / n := by
    rw [Nat.le_div_iff_mul_le hn]
    calc 2 ^ (m.log2 - n.log2 - 1) * n
        ≤ 2 ^ (m.log2 - n.log2 - 1) * 2 ^ (n.log2 + 1) :=
          Nat.mul_le_mul_left _ (Nat.le_of_lt Nat.lt_log2_self)
      _ = 2 ^ m.log2 := by
          rw [← Nat.pow_add]
          congr 1
          omega
      _ ≤ m := Nat.log2_self_le hm
  have hhigh : m / n < 2 ^ (m.log2 - n.log2 + 1) := by
    refine Nat.div_lt_of_lt_mul ?_
    calc m < 2 ^ (m.log2 + 1) := Nat.lt_log2_self
      _ = 2 ^ n.log2 * 2 ^ (m.log2 - n.log2 + 1) := by
          rw [← Nat.pow_add]
          congr 1
          omega
      _ ≤ n * 2 ^ (m.log2 - n.log2 + 1) :=
          Nat.mul_le_mul_right _ (Nat.log2_self_le (Nat.ne_of_gt hn))
  have hpos : 0 < m / n := Nat.lt_of_lt_of_le (Nat.two_pow_pos _) hlow
  have hlow' := (Nat.le_log2 (Nat.ne_of_gt hpos)).2 hlow
  have hhigh' := (Nat.log2_lt (Nat.ne_of_gt hpos)).2 hhigh
  exact ⟨hpos, by omega, by omega⟩

/-- A quotient has the difference of the sizes, up to two places. -/
theorem exists_div (s s' : Sign) {m n : Nat} {e f : Int} (hm : 0 < m) (hn : 0 < n)
    (h : -149 < totalExponent m e - totalExponent n f) : ∃ m' e' pos,
    UnpackedFloat.div .binary32 (.finite s m e hm) (.finite s' n f hn) =
        .finite (s / s') m' e' pos ∧ Canonical m' e' ∧
      totalExponent m' e' ≤ totalExponent m e - totalExponent n f + 2 := by
  rw [UnpackedFloat.div, divCore]
  dsimp only
  rw [targetExponent_binary32]
  generalize ht : min (e - f) (max (totalExponent m e - totalExponent n f - 24) (-149)) = t
  generalize hk : (e - f - t).toNat = k
  have hlog : (m <<< k).log2 = m.log2 + k := log2_shiftLeft hm k
  have hmore : n.log2 < (m <<< k).log2 := by
    unfold totalExponent at ht h
    omega
  obtain ⟨hpos, hlow, hhigh⟩ := log2_div hn hmore
  have hsize : totalExponent m e - totalExponent n f ≤ totalExponent ((m <<< k) / n) t := by
    unfold totalExponent at ht ⊢
    omega
  have hsize' : totalExponent ((m <<< k) / n) t ≤ totalExponent m e - totalExponent n f + 1 := by
    unfold totalExponent at ht ⊢
    omega
  have hcap : t ≤ Format.binary32.targetExponent (totalExponent ((m <<< k) / n) t) := by
    rw [targetExponent_binary32]
    omega
  obtain ⟨m', e', pos, hround, hcanonical, -, hle⟩ :=
    exists_roundWithAccuracy (s / s') hpos (Int.lt_of_lt_of_le h hsize) hcap _
  exact ⟨m', e', pos, hround, hcanonical, by omega⟩

/-- A positive count is a number with a digit before the point. -/
theorem exists_unpacked_ofNat {n : Nat} (hn : 0 < n) : ∃ m e pos,
    UnpackedFloat.ofNat .binary32 n = .finite .positive m e pos ∧ Canonical m e ∧
      1 ≤ totalExponent m e := by
  have hsize : 1 ≤ totalExponent n 0 := by
    unfold totalExponent
    omega
  rw [UnpackedFloat.ofNat, UnpackedFloat.ofInt, UnpackedFloat.normalize,
    Int.compare_eq_gt.2 (Int.natCast_pos.2 hn)]
  dsimp only
  rw [Int.toNat_natCast]
  obtain ⟨m, e, pos, hround, hcanonical, hle, -⟩ := exists_round .positive hn (e := 0) (by omega)
  exact ⟨m, e, pos, hround, hcanonical, Int.le_trans hsize hle⟩

/-! ## Numbers from one on -/

/-- A scalar that is infinite, or a positive number with a digit before the point. -/
inductive FromOne (x : Float32) : Prop
  | infinite (h : x.toModel.unpack = .infinity .positive)
  | finite {m : Nat} {e : Int} {pos : 0 < m} (h : x.toModel.unpack = .finite .positive m e pos)
    (canonical : Canonical m e) (size : 1 ≤ totalExponent m e) (cap : e ≤ 104)

/-- A number with a digit before the point is encoded as a scalar from one on. -/
theorem fromOne_of_pack {x : Float32} {m : Nat} {e : Int} {pos : 0 < m} (h : Canonical m e)
    (hsize : 1 ≤ totalExponent m e)
    (hx : x.toModel.unpack = UnpackedFloat.unpack .binary32
      (UnpackedFloat.pack .binary32 (.finite .positive m e pos))) : FromOne x := by
  rw [unpack_pack_of_canonical .positive h pos] at hx
  by_cases he : e ≤ 104
  · rw [if_pos he] at hx
    exact .finite hx h hsize he
  · rw [if_neg he] at hx
    exact .infinite hx

/-- Positive counts are scalars from one on. -/
theorem fromOne_ofCount {n : Nat} (hn : 0 < n) (h : n < 2 ^ 64) : FromOne (ofCount n) := by
  have hcount : n.toUInt64.toNat = n := Nat.mod_eq_of_lt h
  obtain ⟨m, e, pos, hround, hcanonical, hsize⟩ := exists_unpacked_ofNat hn
  refine @fromOne_of_pack _ _ _ pos hcanonical hsize ?_
  rw [← hround]
  show UnpackedFloat.unpack .binary32 (UnpackedFloat.pack .binary32
    (UnpackedFloat.ofNat .binary32 n.toUInt64.toNat)) = _
  rw [hcount]

/-- The square root of a scalar from one on is one. -/
theorem FromOne.sqrt {x : Float32} (h : FromOne x) : FromOne x.sqrt := by
  have hsqrt : x.sqrt.toModel.unpack = UnpackedFloat.unpack .binary32
      (UnpackedFloat.pack .binary32 (UnpackedFloat.sqrt .binary32 x.toModel.unpack)) := rfl
  cases h with
  | infinite h =>
    rw [h] at hsqrt
    exact .infinite hsqrt
  | finite h canonical size cap =>
    rw [h] at hsqrt
    obtain ⟨m', e', pos', hroot, hcanonical, hsize⟩ := exists_sqrt canonical
    rw [hroot] at hsqrt
    exact fromOne_of_pack hcanonical (by omega) hsqrt

/-- The inverse of a scalar from one on is finite. -/
theorem FromOne.isFinite_one_div {x : Float32} (h : FromOne x) : (one / x).isFinite = true := by
  show (UnpackedFloat.unpack .binary32 (UnpackedFloat.pack .binary32
    (UnpackedFloat.div .binary32 (.finite .positive (2 ^ 23) (-23) (Nat.two_pow_pos 23))
      x.toModel.unpack))).isFinite = true
  have hone : totalExponent (2 ^ 23) (-23) = 1 := by decide
  cases h with
  | infinite h =>
    rw [h]
    rfl
  | @finite m e pos h canonical size cap =>
    have hwidth := canonical.width
    have hleast : -149 < totalExponent (2 ^ 23) (-23) - totalExponent m e := by
      rw [hone]
      unfold totalExponent
      omega
    obtain ⟨m', e', pos', hdiv, hcanonical, hsize⟩ :=
      exists_div .positive .positive (Nat.two_pow_pos 23) pos hleast
    rw [h, hdiv, unpack_pack_of_canonical _ hcanonical pos', if_pos]
    · rfl
    · rw [hone] at hsize
      unfold totalExponent at hsize size
      omega

end Scalar

/-! ## Initial ranges -/

/-- A layer has no range to be drawn from exactly if the bound of that range is infinite. -/
theorem initialRange?_eq_none_iff {inputs : Nat} (h : inputs < 2 ^ 64) :
    initialRange? inputs = none ↔
      Scalar.one / (Scalar.ofCount inputs).sqrt = Scalar.infinity := by
  rw [initialRange?]
  split
  next hzero =>
    subst hzero
    have hinfinite : Scalar.one / (Scalar.ofCount 0).sqrt = Scalar.infinity := by decide
    exact iff_of_true rfl hinfinite
  next hinputs =>
    have hfinite := (Scalar.fromOne_ofCount (Nat.pos_of_ne_zero hinputs) h).sqrt.isFinite_one_div
    refine iff_of_false (fun hnone => nomatch hnone) fun hinfinite => ?_
    rw [hinfinite] at hfinite
    exact absurd hfinite (by decide)

/-- **A layer cannot be drawn exactly if the bound of its range is infinite.** -/
theorem Linear.draw_eq_error_iff {inputs : Nat} (h : inputs < 2 ^ 64) (outputs : Nat)
    (g : Sampling.Generator) : Linear.draw inputs outputs g = .error .unboundedRange ↔
      Scalar.one / (Scalar.ofCount inputs).sqrt = Scalar.infinity := by
  rw [← initialRange?_eq_none_iff h, Linear.draw]
  cases hrange : initialRange? inputs with
  | none => exact iff_of_true rfl rfl
  | some range => exact iff_of_false (fun hdrawn => nomatch hdrawn) (fun hnone => nomatch hnone)

end PolicyValue
