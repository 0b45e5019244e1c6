import PolicyValue.Proofs.Order

/-!
# Rounded operations keep the order

A sum or a difference of finite scalars stands for the rounded sum or difference of their levels, a
quotient of nonnegative ones for the rounded quotient.  Rounding keeps the order, so the operations
do as well.

* `Scalar.level_add`, `Scalar.level_sub`, `Scalar.level_div`: what results stand for;
* `Scalar.le_add`, `Scalar.add_le_add`: sums;
* `Scalar.isNaN_sub_iff`, `Scalar.sub_le_sub`, `Scalar.sub_self`: differences;
* `Scalar.div_le_div`, `Scalar.div_le_one`, `Scalar.zero_div`: quotients by one scalar.
-/

open Float.Model Float.Model.UnpackedFloat

namespace PolicyValue

namespace Scalar

/-! ## Rounded levels -/

/-- A number of quanta, cut where infinity begins. -/
def capped (n : Nat) : Nat := min n overflow

theorem capped_mono {m n : Nat} (h : m ≤ n) : capped m ≤ capped n := by
  unfold capped
  omega

/-- The level that a signed number of quanta is rounded to. -/
def rounded (n : Int) : Int := n.sign * capped (nearest n.natAbs 1)

theorem rounded_zero : rounded 0 = 0 := by
  rw [rounded, Int.sign_zero, Int.zero_mul]

/-- Rounding keeps the order of signed numbers of quanta. -/
theorem rounded_mono {a b : Int} (h : a ≤ b) : rounded a ≤ rounded b := by
  have hcapped : ∀ {m n : Nat}, m ≤ n → capped (nearest m 1) ≤ capped (nearest n 1) := fun hmn =>
    capped_mono (nearest_mono Nat.one_pos Nat.one_pos (Nat.mul_le_mul_right 1 hmn))
  unfold rounded
  rcases Int.lt_trichotomy a 0 with ha | rfl | ha
  · rw [Int.sign_eq_neg_one_of_neg ha]
    rcases Int.lt_trichotomy b 0 with hb | rfl | hb
    · rw [Int.sign_eq_neg_one_of_neg hb]
      have hle := hcapped (show b.natAbs ≤ a.natAbs by omega)
      omega
    · rw [Int.sign_zero]
      omega
    · rw [Int.sign_eq_one_of_pos hb]
      omega
  · rw [Int.sign_zero]
    rcases Int.lt_or_eq_of_le h with hb | rfl
    · rw [Int.sign_eq_one_of_pos hb]
      omega
    · rw [Int.sign_zero]
  · rw [Int.sign_eq_one_of_pos ha, Int.sign_eq_one_of_pos (Int.lt_of_lt_of_le ha h)]
    have hle := hcapped (show a.natAbs ≤ b.natAbs by omega)
    omega

/-- What is encoded stands for the number of quanta it denotes, if that is not too great. -/
theorem levelOf_pack {s : Sign} {u : UnpackedFloat} {n : Nat} (h : Denotes s u n) :
    level (Float32.ofModel (.pack u)) = s.apply (capped n) := by
  show levelOf (UnpackedFloat.unpack .binary32 (UnpackedFloat.pack .binary32 u)) = _
  cases h with
  | zero => cases s <;> rfl
  | finite h =>
    rw [unpack_pack_of_canonical s h, capped]
    have hiff := quanta_lt_overflow_iff h
    split
    · rw [Nat.min_eq_left (by omega)]
      rfl
    · rw [Nat.min_eq_right (by omega)]
      rfl

/-- **A normalized integer stands for its rounded number of quanta.** -/
theorem level_normalize (m : Int) {e : Int} (he : -149 ≤ e) :
    level (Float32.ofModel (.pack (UnpackedFloat.normalize .binary32 m e .positive))) =
      rounded (m * (2 ^ (e + 149).toNat : Nat)) := by
  have hscale : (0 : Int) < (2 ^ (e + 149).toNat : Nat) := Int.natCast_pos.2 (Nat.two_pow_pos _)
  rw [UnpackedFloat.normalize, rounded, Int.sign_mul, Int.sign_eq_one_of_pos hscale, Int.mul_one,
    Int.natAbs_mul, Int.natAbs_natCast]
  rcases Int.lt_trichotomy m 0 with hneg | rfl | hpos
  · have habs : (-m).toNat = m.natAbs := by omega
    rw [Int.compare_eq_lt.2 hneg, Int.sign_eq_neg_one_of_neg hneg, Int.neg_one_mul, ← habs]
    exact levelOf_pack (denotes_round .negative (by omega) he)
  · rw [Int.compare_eq_eq.2 rfl, Int.sign_zero, Int.zero_mul]
    exact levelOf_pack .zero
  · have habs : m.toNat = m.natAbs := by omega
    rw [Int.compare_eq_gt.2 hpos, Int.sign_eq_one_of_pos hpos, Int.one_mul, ← habs]
    exact levelOf_pack (denotes_round .positive (by omega) he)

/-! ## Sums -/

/-- What is decoded stands for the same number of quanta when it is encoded again. -/
theorem Decoded.level_pack {u : UnpackedFloat} (h : Decoded u) :
    level (Float32.ofModel (.pack u)) = levelOf u := by
  show levelOf (UnpackedFloat.unpack .binary32 (UnpackedFloat.pack .binary32 u)) = _
  cases h with
  | notANumber => rfl
  | infinity s => cases s <;> rfl
  | zero s => cases s <;> rfl
  | finite s h cap => rw [unpack_pack_of_canonical s h, if_pos cap]

/-- A signed canonical number of quanta is rounded to itself. -/
theorem rounded_apply {m : Nat} {e : Int} (h : Canonical m e) (hle : quanta m e ≤ overflow)
    (s : Sign) : rounded (s.apply (quanta m e)) = s.apply (quanta m e) := by
  have hpos : (0 : Int) < quanta m e := Int.natCast_pos.2 (quanta_pos h)
  have hcapped : capped (nearest (quanta m e) 1) = quanta m e := by
    rw [nearest_quanta h, capped, Nat.min_eq_left hle]
  cases s
  · show rounded (-(quanta m e : Int)) = -(quanta m e : Int)
    rw [rounded, Int.sign_neg, Int.sign_eq_one_of_pos hpos, Int.natAbs_neg, Int.natAbs_natCast,
      hcapped, Int.neg_one_mul]
  · show rounded (quanta m e : Int) = (quanta m e : Int)
    rw [rounded, Int.sign_eq_one_of_pos hpos, Int.natAbs_natCast, hcapped, Int.one_mul]

/-- **Levels are rounded to themselves.** -/
theorem Decoded.rounded_levelOf {u : UnpackedFloat} (h : Decoded u) :
    rounded (levelOf u) = levelOf u := by
  cases h with
  | notANumber => rfl
  | infinity s => exact rounded_apply canonical_overflow (Nat.le_refl _) s
  | zero s => exact rounded_zero
  | finite s h cap => exact rounded_apply h (Nat.le_of_lt ((quanta_lt_overflow_iff h).2 cap)) s

/-- A decoded finite scalar stands for as many quanta as its mantissa has, where its exponent is
smaller. -/
theorem levelOf_finite (s : Sign) {m : Nat} {e e₀ : Int} (pos : 0 < m) (h : e₀ ≤ e)
    (he₀ : -149 ≤ e₀) : levelOf (.finite s m e pos) =
      s.apply (m <<< (e - e₀).toNat : Nat) * (2 ^ (e₀ + 149).toNat : Nat) := by
  have hplaces : (e + 149).toNat = (e - e₀).toNat + (e₀ + 149).toNat := by omega
  have hquanta : quanta m e = m <<< (e - e₀).toNat * 2 ^ (e₀ + 149).toNat := by
    rw [quanta, hplaces, Nat.shiftLeft_eq, Nat.pow_add, Nat.mul_assoc]
  rw [levelOf, hquanta, Int.natCast_mul]
  cases s
  · exact (Int.neg_mul _ _).symm
  · rfl

/-- A sum of decoded finite scalars stands for the rounded sum of their numbers of quanta. -/
theorem Decoded.level_add {u v : UnpackedFloat} (hu : Decoded u) (hv : Decoded v)
    (hfu : u.isFinite = true) (hfv : v.isFinite = true) :
    level (Float32.ofModel (.pack (UnpackedFloat.add .binary32 u v))) =
      rounded (levelOf u + levelOf v) := by
  have hlu := hu.rounded_levelOf
  have hlv := hv.rounded_levelOf
  cases hu with
  | notANumber => exact nomatch hfu
  | infinity s => exact nomatch hfu
  | zero s =>
    rw [levelOf, Int.zero_add, hlv]
    cases hv with
    | notANumber => exact nomatch hfv
    | infinity s' => exact nomatch hfv
    | zero s' => cases s <;> cases s' <;> rfl
    | finite s' h' cap' => exact (Decoded.finite s' h' cap').level_pack
  | @finite s m e h cap =>
    cases hv with
    | notANumber => exact nomatch hfv
    | infinity s' => exact nomatch hfv
    | zero s' =>
      rw [levelOf.eq_3, Int.add_zero, hlu]
      exact (Decoded.finite s h cap).level_pack
    | @finite s' n f h' cap' =>
      have hrange : -149 ≤ min e f := Int.le_min.2 ⟨h.range, h'.range⟩
      rw [levelOf_finite s h.pos (Int.min_le_left e f) hrange,
        levelOf_finite s' h'.pos (Int.min_le_right e f) hrange, ← Int.add_mul]
      exact level_normalize _ hrange

/-! ## Differences -/

/-- A decoded scalar with the other sign. -/
theorem Decoded.neg {u : UnpackedFloat} (h : Decoded u) : Decoded u.neg := by
  cases h with
  | notANumber => exact .notANumber
  | infinity s => exact .infinity _
  | zero s => exact .zero _
  | finite s h cap => exact .finite _ h cap

theorem isFinite_neg (u : UnpackedFloat) : u.neg.isFinite = u.isFinite := by
  cases u <;> rfl

theorem apply_neg (s : Sign) (n : Int) : (-s).apply n = -s.apply n := by
  cases s
  · exact (Int.neg_neg n).symm
  · rfl

/-- The other sign gives the negative number of quanta. -/
theorem levelOf_neg (u : UnpackedFloat) : levelOf u.neg = -levelOf u := by
  cases u with
  | notANumber => rfl
  | infinity s => exact apply_neg s _
  | zero s => rfl
  | finite s m e pos => exact apply_neg s _

/-- A difference is the sum with the other sign. -/
theorem unpacked_sub_eq_add_neg (u v : UnpackedFloat) :
    UnpackedFloat.sub .binary32 u v = UnpackedFloat.add .binary32 u v.neg := by
  cases u with
  | notANumber => rfl
  | infinity s => cases v <;> rfl
  | zero s => cases v <;> rfl
  | finite s m e pos =>
    cases v with
    | notANumber => rfl
    | infinity s' => rfl
    | zero s' => rfl
    | finite s' n f pos' =>
      have hmantissa : ∀ a b : Int, s.apply a - s'.apply b = s.apply a + (-s').apply b :=
        fun a b => by rw [apply_neg, Int.sub_eq_add_neg]
      exact congrArg (fun k => UnpackedFloat.normalize .binary32 k (min e f) .positive)
        (hmantissa _ _)

/-! ## Sums and differences of scalars -/

/-- **A sum of finite scalars stands for the rounded sum of their levels.** -/
theorem level_add {x y : Float32} (hx : x.isFinite = true) (hy : y.isFinite = true) :
    level (x + y) = rounded (level x + level y) :=
  (decoded x).level_add (decoded y) hx hy

/-- **A difference of finite scalars stands for the rounded difference of their levels.** -/
theorem level_sub {x y : Float32} (hx : x.isFinite = true) (hy : y.isFinite = true) :
    level (x - y) = rounded (level x - level y) := by
  have hneg : y.toModel.unpack.neg.isFinite = true := (isFinite_neg _).trans hy
  have hsub : x - y = Float32.ofModel (.pack
      (UnpackedFloat.add .binary32 x.toModel.unpack y.toModel.unpack.neg)) := by
    rw [← unpacked_sub_eq_add_neg]
    rfl
  rw [hsub, (decoded x).level_add (decoded y).neg hx hneg, levelOf_neg]
  rfl

/-- A decoded number of quanta that is positive is infinite or a canonical number. -/
theorem Decoded.of_levelOf_pos {u : UnpackedFloat} (h : Decoded u) (hpos : 0 < levelOf u) :
    u = .infinity .positive ∨ ∃ m e, ∃ h : Canonical m e, u = .finite .positive m e h.pos := by
  have hoverflow := overflow_pos
  cases h with
  | notANumber => exact absurd hpos (Int.lt_irrefl 0)
  | zero s => exact absurd hpos (Int.lt_irrefl 0)
  | infinity s =>
    cases s with
    | positive => exact .inl rfl
    | negative =>
      rw [levelOf, Sign.apply] at hpos
      omega
  | finite s h cap =>
    cases s with
    | positive => exact .inr ⟨_, _, h, rfl⟩
    | negative =>
      rw [levelOf, Sign.apply] at hpos
      omega

/-- A scalar is at least zero exactly if its level is. -/
theorem zero_le_iff_level {x : Float32} : zero ≤ x ↔ x.isNaN = false ∧ 0 ≤ level x := by
  have hzero : level zero = 0 := rfl
  constructor
  · intro h
    have hx := (not_isNaN_of_le h).2
    have hlevel := (le_iff_level (by decide) hx).1 h
    rw [hzero] at hlevel
    exact ⟨hx, hlevel⟩
  · rintro ⟨hx, hlevel⟩
    rw [← hzero] at hlevel
    exact (le_iff_level (by decide) hx).2 hlevel

/-- A scalar that is at least zero and not finite is infinity. -/
theorem eq_infinity {x : Float32} (hx : zero ≤ x) (hfinite : ¬ x.isFinite = true) :
    x = infinity := by
  obtain ⟨hnumber, hlevel⟩ := zero_le_iff_level.1 hx
  have hgreat : ¬ (level x).natAbs < overflow :=
    fun h => hfinite (isFinite_iff_level.2 ⟨hnumber, h⟩)
  have hoverflow := overflow_pos
  have hpos : 0 < level x := by omega
  rcases (decoded x).of_levelOf_pos hpos with hinfinity | ⟨m, e, h, hunpack⟩
  · exact unpack_eq_infinity_iff.1 hinfinity
  · have hmodel : x.isFinite = x.toModel.unpack.isFinite := rfl
    rw [hmodel, hunpack] at hfinite
    exact absurd rfl hfinite

/-- No decoded scalar is above infinity. -/
theorem Decoded.levelOf_le {u : UnpackedFloat} (h : Decoded u) : levelOf u ≤ overflow := by
  have hoverflow := overflow_pos
  cases h with
  | notANumber => exact Int.natCast_nonneg _
  | infinity s => cases s <;> simp only [levelOf, Sign.apply] <;> omega
  | zero s => exact Int.natCast_nonneg _
  | finite s h cap =>
    have hsmall := (quanta_lt_overflow_iff h).2 cap
    cases s <;> simp only [levelOf, Sign.apply] <;> omega

theorem le_infinity {x : Float32} (hx : x.isNaN = false) : x ≤ infinity :=
  (le_iff_level hx (by decide)).2 (decoded x).levelOf_le

theorem negInfinity_le {x : Float32} (hx : x.isNaN = false) : negInfinity ≤ x := by
  have hneg := (decoded x).neg.levelOf_le
  have hlevel : level negInfinity = -(overflow : Int) := rfl
  rw [levelOf_neg] at hneg
  rw [le_iff_level (by decide) hx, hlevel, level]
  omega

/-- A decoded sum with an infinity that is a number is this infinity. -/
theorem unpacked_add_eq_infinity {u v : UnpackedFloat}
    (h : u = .infinity .positive ∨ v = .infinity .positive)
    (hne : UnpackedFloat.add .binary32 u v ≠ .notANumber) :
    UnpackedFloat.add .binary32 u v = .infinity .positive := by
  rcases h with rfl | rfl
  · cases v with
    | notANumber => exact absurd rfl hne
    | infinity s =>
      cases s with
      | positive => rfl
      | negative => exact absurd rfl hne
    | zero s => rfl
    | finite s m e pos => rfl
  · cases u with
    | notANumber => exact absurd rfl hne
    | infinity s =>
      cases s with
      | positive => rfl
      | negative => exact absurd rfl hne
    | zero s => rfl
    | finite s m e pos => rfl

/-- A sum with infinity that is no NaN is infinity. -/
theorem add_eq_infinity {x y : Float32} (h : x = infinity ∨ y = infinity)
    (hsum : (x + y).isNaN = false) : x + y = infinity := by
  have hinfinity := unpacked_add_eq_infinity
    (h.imp unpack_eq_infinity_iff.2 unpack_eq_infinity_iff.2)
    (mt isNaN_ofModel_pack.2 (Bool.eq_false_iff.1 hsum))
  show Float32.ofModel (.pack (UnpackedFloat.add .binary32 _ _)) = _
  rw [hinfinity]
  rfl

/-- A sum of nonnegative scalars is no NaN. -/
theorem isNaN_add_of_nonneg {x y : Float32} (hx : zero ≤ x) (hy : zero ≤ y) :
    (x + y).isNaN = false := by
  refine Bool.eq_false_iff.2 fun hsum => ?_
  rcases isNaN_add_iff.1 hsum with hnan | hnan | ⟨-, rfl⟩ | ⟨rfl, -⟩
  · exact Bool.eq_false_iff.1 (not_isNaN_of_le hx).2 hnan
  · exact Bool.eq_false_iff.1 (not_isNaN_of_le hy).2 hnan
  · exact absurd hy (by decide)
  · exact absurd hx (by decide)

/-- **Nothing is lost when something nonnegative is added.** -/
theorem le_add {x y : Float32} (hx : zero ≤ x) (hy : zero ≤ y) : x ≤ x + y ∧ y ≤ x + y := by
  obtain ⟨hnx, hlx⟩ := zero_le_iff_level.1 hx
  obtain ⟨hny, hly⟩ := zero_le_iff_level.1 hy
  have hsum := isNaN_add_of_nonneg hx hy
  by_cases hfinite : x.isFinite = true ∧ y.isFinite = true
  · have hself : ∀ z : Float32, rounded (level z) = level z := fun z => (decoded z).rounded_levelOf
    rw [le_iff_level hnx hsum, le_iff_level hny hsum, level_add hfinite.1 hfinite.2]
    constructor
    · calc level x = rounded (level x) := (hself x).symm
        _ ≤ rounded (level x + level y) := rounded_mono (by omega)
    · calc level y = rounded (level y) := (hself y).symm
        _ ≤ rounded (level x + level y) := rounded_mono (by omega)
  · have hinfinite : x = infinity ∨ y = infinity :=
      (not_and_or.1 hfinite).imp (eq_infinity hx) (eq_infinity hy)
    rw [add_eq_infinity hinfinite hsum]
    exact ⟨le_infinity hnx, le_infinity hny⟩

/-- A sum of decoded finite scalars is a number. -/
theorem unpacked_add_ne_notANumber {u v : UnpackedFloat} (hu : u.isFinite = true)
    (hv : v.isFinite = true) : UnpackedFloat.add .binary32 u v ≠ .notANumber := by
  rw [Ne, unpacked_add_eq_notANumber_iff]
  rintro (rfl | rfl | ⟨rfl, -⟩ | ⟨rfl, -⟩)
  · exact nomatch hu
  · exact nomatch hv
  · exact nomatch hu
  · exact nomatch hu

/-- Sums of finite scalars are in the order of the terms. -/
theorem add_le_add {x x' y y' : Float32} (hx : x.isFinite = true) (hx' : x'.isFinite = true)
    (hy : y.isFinite = true) (hy' : y'.isFinite = true) (hle : x ≤ x') (hle' : y ≤ y') :
    x + y ≤ x' + y' := by
  have hsum : (x + y).isNaN = false :=
    Bool.eq_false_iff.2 (mt isNaN_ofModel_pack.1 (unpacked_add_ne_notANumber hx hy))
  have hsum' : (x' + y').isNaN = false :=
    Bool.eq_false_iff.2 (mt isNaN_ofModel_pack.1 (unpacked_add_ne_notANumber hx' hy'))
  have hlevel := (le_iff_level (isNaN_of_isFinite hx) (isNaN_of_isFinite hx')).1 hle
  have hlevel' := (le_iff_level (isNaN_of_isFinite hy) (isNaN_of_isFinite hy')).1 hle'
  rw [le_iff_level hsum hsum', level_add hx hy, level_add hx' hy']
  exact rounded_mono (by omega)

/-- **A difference of two scalars is a NaN exactly if one of them is, or both are the same
infinity.** -/
theorem isNaN_sub_iff {x y : Float32} : (x - y).isNaN = true ↔ x.isNaN = true ∨
    y.isNaN = true ∨ (x = infinity ∧ y = infinity) ∨ (x = negInfinity ∧ y = negInfinity) := by
  have hsub : (x - y).isNaN = true ↔
      UnpackedFloat.sub .binary32 x.toModel.unpack y.toModel.unpack = .notANumber :=
    isNaN_ofModel_pack
  have hneg_neg : ∀ u : UnpackedFloat, u.neg.neg = u := by
    intro u
    cases u with
    | notANumber => rfl
    | infinity s => cases s <;> rfl
    | zero s => cases s <;> rfl
    | finite s m e pos => cases s <;> rfl
  have hneg : ∀ u v : UnpackedFloat, u.neg = v ↔ u = v.neg := fun u v =>
    ⟨fun h => h ▸ (hneg_neg u).symm, fun h => h ▸ hneg_neg v⟩
  rw [hsub, unpacked_sub_eq_add_neg, unpacked_add_eq_notANumber_iff, hneg, hneg, hneg]
  simp only [isNaN_iff_unpack, ← unpack_eq_infinity_iff, ← unpack_eq_negInfinity_iff]
  rfl

/-- A difference from a finite scalar is a NaN only if it is one from a NaN. -/
theorem isNaN_sub_iff_of_finite {x y : Float32} (hy : y.isFinite = true) :
    (x - y).isNaN = true ↔ x.isNaN = true := by
  have hinfinity : y ≠ infinity := by
    rintro rfl
    exact absurd hy (by decide)
  have hnegInfinity : y ≠ negInfinity := by
    rintro rfl
    exact absurd hy (by decide)
  rw [isNaN_sub_iff, isNaN_of_isFinite hy]
  simp [hinfinity, hnegInfinity]

/-- Differences of finite scalars from one are in the order of the scalars. -/
theorem sub_le_sub {x x' y : Float32} (hx : x.isFinite = true) (hx' : x'.isFinite = true)
    (hy : y.isFinite = true) (hle : x ≤ x') : x - y ≤ x' - y := by
  have hdifference : ∀ {z : Float32}, z.isFinite = true → (z - y).isNaN = false := fun {z} hz => by
    rw [Bool.eq_false_iff, Ne, isNaN_sub_iff_of_finite hy, isNaN_of_isFinite hz]
    exact Bool.false_ne_true
  have hlevel := (le_iff_level (isNaN_of_isFinite hx) (isNaN_of_isFinite hx')).1 hle
  rw [le_iff_level (hdifference hx) (hdifference hx'), level_sub hx hy, level_sub hx' hy]
  exact rounded_mono (by omega)

/-- The difference of a finite scalar from itself is zero. -/
theorem sub_self {x : Float32} (hx : x.isFinite = true) : x - x = zero := by
  have hunpacked : ∀ u : UnpackedFloat, u.isFinite = true →
      UnpackedFloat.sub .binary32 u u = .zero .positive := by
    intro u hu
    cases u with
    | notANumber => exact nomatch hu
    | infinity s => exact nomatch hu
    | zero s => cases s <;> rfl
    | finite s m e pos =>
      simp only [UnpackedFloat.sub, Int.sub_self]
      rfl
  have hzero := hunpacked x.toModel.unpack hx
  show Float32.ofModel (.pack (UnpackedFloat.sub .binary32 _ _)) = _
  rw [hzero]
  rfl

/-! ## Quotients -/

/-- **A quotient of canonical numbers is rounded to the nearest number of quanta.** -/
theorem denotes_div (s : Sign) {m n : Nat} {e f : Int} (hm : Canonical m e) (hn : Canonical n f) :
    Denotes s
      (roundWithAccuracy .binary32 s (divCore .binary32 m e n f).1 (divCore .binary32 m e n f).2.1
        (divCore .binary32 m e n f).2.2)
      (nearest (quanta m e * 2 ^ 149) (quanta n f)) := by
  unfold divCore
  dsimp only
  rw [targetExponent_binary32]
  generalize ht : min (e - f) (max (totalExponent m e - totalExponent n f - 24) (-149)) = t
  generalize hk : (e - f - t).toNat = k
  have hcap : t ≤ Format.binary32.targetExponent (totalExponent (m <<< k / n) t) := by
    rw [targetExponent_binary32]
    unfold totalExponent at ht ⊢
    rcases Int.lt_or_le (-149) t with hgreat | hsmall
    · -- Then the dividend has been given digits enough for a mantissa of full length.
      have hlog : (m <<< k).log2 = m.log2 + k := log2_shiftLeft hm.pos k
      obtain ⟨-, hdigits, -⟩ := log2_div hn.pos (m := m <<< k) (by omega)
      omega
    · omega
  have hplaces : k + (t + 149).toNat + (f + 149).toNat =
      (e + 149).toNat + 149 + (-149 - t).toNat := by
    have hrange := hm.range
    have hrange' := hn.range
    omega
  have hquotient : nearest (m <<< k * 2 ^ (t + 149).toNat) (n * 2 ^ (-149 - t).toNat) =
      nearest (quanta m e * 2 ^ 149) (quanta n f) := by
    refine nearest_congr (Nat.mul_pos hn.pos (Nat.two_pow_pos _)) (quanta_pos hn) ?_
    have hregroup : ∀ a b c : Nat, m * a * b * (n * c) = m * n * (a * b * c) := fun a b c => by
      rw [Nat.mul_assoc m a b, Nat.mul_mul_mul_comm]
    rw [Nat.shiftLeft_eq, quanta, quanta, hregroup, hregroup, ← Nat.pow_add, ← Nat.pow_add,
      ← Nat.pow_add, ← Nat.pow_add, hplaces]
  rw [← hquotient]
  exact denotes_roundWithAccuracy s (m <<< k) hn.pos hcap

theorem nearest_zero {den : Nat} (hden : 0 < den) : nearest 0 den = 0 := by
  have hzero := roundDiv_mul_self 0 (Nat.mul_pos hden (Nat.two_pow_pos (lastPlace (0 / den))))
  rw [Nat.zero_mul] at hzero
  rw [nearest, hzero, Nat.zero_mul]

/-- What a positive finite scalar decodes to. -/
theorem exists_unpack_of_pos {x : Float32} (h : zero < x) (hfinite : x.isFinite = true) :
    ∃ m e, ∃ h : Canonical m e, x.toModel.unpack = .finite .positive m e h.pos := by
  have hpos : 0 < level x := (lt_iff_level (by decide) (isNaN_of_isFinite hfinite)).1 h
  rcases (decoded x).of_levelOf_pos hpos with hinfinity | hsome
  · have hmodel : x.isFinite = x.toModel.unpack.isFinite := rfl
    rw [hmodel, hinfinity] at hfinite
    exact nomatch hfinite
  · exact hsome

/-- Only zeros and NaNs stand for no quanta. -/
theorem Decoded.of_levelOf_eq_zero {u : UnpackedFloat} (h : Decoded u) (hzero : levelOf u = 0) :
    u = .notANumber ∨ ∃ s, u = .zero s := by
  have hoverflow := overflow_pos
  cases h with
  | notANumber => exact .inl rfl
  | zero s => exact .inr ⟨s, rfl⟩
  | infinity s => cases s <;> simp only [levelOf, Sign.apply] at hzero <;> omega
  | finite s h cap =>
    have hpos := quanta_pos h
    cases s <;> simp only [levelOf, Sign.apply] at hzero <;> omega

/-- What a nonnegative finite scalar decodes to. -/
theorem exists_unpack_of_nonneg {x : Float32} (h : zero ≤ x) (hfinite : x.isFinite = true) :
    (∃ s, x.toModel.unpack = .zero s) ∨
      ∃ m e, ∃ h : Canonical m e, x.toModel.unpack = .finite .positive m e h.pos := by
  obtain ⟨hnumber, hlevel⟩ := zero_le_iff_level.1 h
  rcases Int.lt_or_eq_of_le hlevel with hpos | hzero
  · exact .inr (exists_unpack_of_pos ((lt_iff_level (by decide) hnumber).2 hpos) hfinite)
  · rcases (decoded x).of_levelOf_eq_zero hzero.symm with hnan | hzero
    · exact absurd hnan (isNaN_eq_false_iff.1 hnumber)
    · exact .inl hzero

/-- **A quotient of finite scalars stands for the rounded quotient of their levels.** -/
theorem level_div {x y : Float32} (hx : zero ≤ x) (hx' : x.isFinite = true) (hy : zero < y)
    (hy' : y.isFinite = true) : (x / y).isNaN = false ∧
      level (x / y) = capped (nearest ((level x).toNat * 2 ^ 149) (level y).toNat) := by
  obtain ⟨n, f, hn, hunpack'⟩ := exists_unpack_of_pos hy hy'
  have hlevel' : level y = quanta n f := by rw [level, hunpack']; rfl
  have hdiv : x / y = Float32.ofModel (.pack (UnpackedFloat.div .binary32 x.toModel.unpack
      y.toModel.unpack)) := rfl
  rw [hdiv, hunpack', hlevel', Int.toNat_natCast, Bool.eq_false_iff, Ne, isNaN_ofModel_pack]
  rcases exists_unpack_of_nonneg hx hx' with ⟨s, hunpack⟩ | ⟨m, e, hm, hunpack⟩
  · have hlevel : level x = 0 := by rw [level, hunpack]; rfl
    rw [hunpack, hlevel, Int.toNat_zero, Nat.zero_mul, nearest_zero (quanta_pos hn)]
    exact ⟨nofun, (Decoded.zero _).level_pack⟩
  · have hlevel : level x = quanta m e := by rw [level, hunpack]; rfl
    rw [hunpack, hlevel, Int.toNat_natCast]
    exact ⟨roundWithAccuracy_ne_notANumber _ _ _ _ _, levelOf_pack (denotes_div .positive hm hn)⟩

/-- Between zero and a finite scalar there are finite ones only. -/
theorem isFinite_of_le {x y : Float32} (hx : zero ≤ x) (hle : x ≤ y) (hy : y.isFinite = true) :
    x.isFinite = true := by
  obtain ⟨hnumber, hlevel⟩ := zero_le_iff_level.1 hx
  have hlevel' := (le_iff_level hnumber (isNaN_of_isFinite hy)).1 hle
  have hsmall := (isFinite_iff_level.1 hy).2
  exact isFinite_iff_level.2 ⟨hnumber, by omega⟩

/-- Quotients by a positive scalar are in the order of the dividends. -/
theorem div_le_div {x x' y : Float32} (hx : zero ≤ x) (hle : x ≤ x') (hx' : x'.isFinite = true)
    (hy : zero < y) (hy' : y.isFinite = true) : x / y ≤ x' / y := by
  have hfinite : x.isFinite = true := isFinite_of_le hx hle hx'
  obtain ⟨hnumber, hlevel⟩ := level_div hx hfinite hy hy'
  obtain ⟨hnumber', hlevel'⟩ := level_div (le_trans hx hle) hx' hy hy'
  have horder := (le_iff_level (isNaN_of_isFinite hfinite) (isNaN_of_isFinite hx')).1 hle
  have hpos := (lt_iff_level (by decide) (isNaN_of_isFinite hy')).1 hy
  have hzero : level zero = 0 := rfl
  have hdivisor : 0 < (level y).toNat := by omega
  rw [le_iff_level hnumber hnumber', hlevel, hlevel']
  refine Int.ofNat_le.2 (capped_mono (nearest_mono hdivisor hdivisor ?_))
  exact Nat.mul_le_mul_right _ (Nat.mul_le_mul_right _ (Int.toNat_le_toNat horder))

/-- A positive scalar over itself is one. -/
theorem level_div_self {y : Float32} (hy : zero < y) (hy' : y.isFinite = true) :
    level (y / y) = level one := by
  have hnumber := isNaN_of_isFinite hy'
  have hpos := (lt_iff_level (by decide) hnumber).1 hy
  have hzero : level zero = 0 := rfl
  have hdivisor : 0 < (level y).toNat := by omega
  have hone : level one = quanta (2 ^ 23) (-23) := rfl
  have hcanonical : Canonical (2 ^ 23) (-23) :=
    ⟨Nat.two_pow_pos 23, by rw [Nat.log2_two_pow], by omega, fun _ => Nat.log2_two_pow⟩
  have hsmall := (quanta_lt_overflow_iff hcanonical).2 (by omega)
  rw [(level_div (le_of_lt (by decide) hnumber hy) hy' hy hy').2, hone]
  have hquotient : nearest ((level y).toNat * 2 ^ 149) (level y).toNat = quanta (2 ^ 23) (-23) := by
    rw [← nearest_quanta hcanonical]
    refine nearest_congr hdivisor Nat.one_pos ?_
    rw [Nat.mul_one, Nat.mul_comm]
    rfl
  rw [hquotient, capped, Nat.min_eq_left (Nat.le_of_lt hsmall)]

/-- A quotient by a scalar that is not below the dividend is at most one. -/
theorem div_le_one {x y : Float32} (hx : zero ≤ x) (hle : x ≤ y) (hy : zero < y)
    (hy' : y.isFinite = true) : x / y ≤ one := by
  have hself := (level_div (le_trans hx hle) hy' hy hy').1
  exact le_trans (div_le_div hx hle hy' hy hy')
    ((le_iff_level hself (by decide)).2 (Int.le_of_eq (level_div_self hy hy')))

/-- A quotient by a NaN is one. -/
theorem isNaN_div {x y : Float32} (hy : y.isNaN = true) : (x / y).isNaN = true := by
  have hdiv : (x / y).isNaN = true ↔
      UnpackedFloat.div .binary32 x.toModel.unpack y.toModel.unpack = .notANumber :=
    isNaN_ofModel_pack
  rw [hdiv, isNaN_iff_unpack.1 hy]
  cases x.toModel.unpack <;> rfl

/-- Zero is divided by a positive scalar without rounding. -/
theorem zero_div {y : Float32} (hy : zero < y) (hnumber : y.isNaN = false) : zero / y = zero := by
  have hpos : 0 < level y := (lt_iff_level (by decide) hnumber).1 hy
  show Float32.ofModel (.pack (UnpackedFloat.div .binary32 (.zero .positive) _)) = _
  rcases (decoded y).of_levelOf_pos hpos with hunpack | ⟨m, e, h, hunpack⟩
  · rw [hunpack]
    rfl
  · rw [hunpack]
    rfl

end Scalar

end PolicyValue
