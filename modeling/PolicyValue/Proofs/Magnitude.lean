import PolicyValue.Proofs.Verdict

/-!
# The size of products, roots and inverses

How great a result is can be read off its level, the number of quanta it stands for.  With one
quantum being `2 ^ -149`, the level of one is `2 ^ 149`, a product's level is the product of the
levels by `2 ^ 149`, and the inverse of a level of `2 ^ k` is one of `2 ^ (298 - k)`.

* `Scalar.level_mul`: what a product stands for;
* `Scalar.two_pow_le_level_sqrt`: a lower bound of a square root;
* `Scalar.level_one_div_le`: an upper bound of an inverse;
* `Scalar.level_ofCount_mem`: counts lie between one and `2 ^ 64`;
* `Scalar.beq_zero_iff`, `Scalar.mul_infinite`: zeros, and infinite factors.
-/

open Float.Model Float.Model.UnpackedFloat

namespace PolicyValue

namespace Scalar

/-! ## Powers of two -/

theorem level_one : level one = (2 ^ 149 : Nat) := rfl

theorem two_pow_mul_two_pow {a b c d : Nat} (h : a + b = c + d) :
    2 ^ a * 2 ^ b = 2 ^ c * 2 ^ d := by
  rw [← Nat.pow_add, ← Nat.pow_add, h]

/-- The level of infinity is the first that `2 ^ 277` quanta make. -/
theorem two_pow_lt_overflow {k : Nat} (h : k < 277) : 2 ^ k < overflow := by
  rw [overflow, quanta]
  generalize hplaces : ((105 : Int) + 149).toNat = n
  rw [← Nat.pow_add]
  exact Nat.pow_lt_pow_right Nat.one_lt_two (by omega)

/-- A power of two is rounded to itself. -/
theorem nearest_two_pow (k : Nat) : nearest (2 ^ k) 1 = 2 ^ k := by
  refine nearest_eq_self (q := 2 ^ (k - (k - 23))) ?_
  rw [lastPlace, Nat.log2_two_pow, ← Nat.pow_add]
  congr 1
  omega

/-- A quotient above a power of two is rounded to no less. -/
theorem two_pow_le_nearest {num den k : Nat} (hden : 0 < den) (h : 2 ^ k * den ≤ num) :
    2 ^ k ≤ nearest num den := by
  rw [← nearest_two_pow k]
  exact nearest_mono Nat.one_pos hden (by rwa [Nat.mul_one])

/-- A quotient below a power of two is rounded to no more. -/
theorem nearest_le_two_pow {num den k : Nat} (hden : 0 < den) (h : num ≤ 2 ^ k * den) :
    nearest num den ≤ 2 ^ k := by
  rw [← nearest_two_pow k]
  exact nearest_mono hden Nat.one_pos (by rwa [Nat.mul_one])

/-- The size of a number of quanta that a scalar stands for is rounded to itself. -/
theorem capped_nearest_natAbs_level (x : Float32) :
    capped (nearest (level x).natAbs 1) = (level x).natAbs := by
  have hrounded : (rounded (level x)).natAbs = (level x).natAbs :=
    congrArg Int.natAbs (decoded x).rounded_levelOf
  rw [rounded, Int.natAbs_mul, Int.natAbs_natCast] at hrounded
  rcases eq_or_ne (level x) 0 with hzero | hne
  · rw [hzero]
    decide
  · rwa [Int.natAbs_sign_of_ne_zero hne, Nat.one_mul] at hrounded

/-! ## Products -/

/-- **A product of canonical numbers is rounded to the nearest number of quanta.** -/
theorem denotes_mul (s : Sign) {m n : Nat} {e f : Int} (hm : Canonical m e) (hn : Canonical n f) :
    Denotes s (roundWithAccuracy .binary32 s (m * n) (e + f) .exact)
      (nearest (quanta m e * quanta n f) (2 ^ 149)) := by
  have hlog : m.log2 + n.log2 ≤ (m * n).log2 := by
    rw [Nat.le_log2 (Nat.ne_of_gt (Nat.mul_pos hm.pos hn.pos)), Nat.pow_add]
    exact Nat.mul_le_mul (Nat.log2_self_le (Nat.ne_of_gt hm.pos))
      (Nat.log2_self_le (Nat.ne_of_gt hn.pos))
  have hrange := hm.range
  have hrange' := hn.range
  have hfull := hm.full
  have hfull' := hn.full
  -- A factor with digits to spare gives the product a mantissa of full length.
  have hcap : e + f ≤ Format.binary32.targetExponent (totalExponent (m * n / 1) (e + f)) := by
    rw [targetExponent_binary32, Nat.div_one]
    unfold totalExponent
    omega
  have hquotient : nearest (m * n * 2 ^ (e + f + 149).toNat) (1 * 2 ^ (-149 - (e + f)).toNat) =
      nearest (quanta m e * quanta n f) (2 ^ 149) := by
    refine nearest_congr (Nat.mul_pos Nat.one_pos (Nat.two_pow_pos _)) (Nat.two_pow_pos 149) ?_
    have hplaces : (e + f + 149).toNat + 149 =
        (e + 149).toNat + (f + 149).toNat + (-149 - (e + f)).toNat := by omega
    rw [quanta, quanta, Nat.one_mul, Nat.mul_mul_mul_comm, ← Nat.pow_add, Nat.mul_assoc,
      Nat.mul_assoc (m * n), ← Nat.pow_add, ← Nat.pow_add, hplaces]
  have hdenotes := denotes_roundWithAccuracy s (m * n) Nat.one_pos hcap
  rwa [hquotient, Nat.div_one, Nat.mod_one] at hdenotes

/-- A sign goes with numbers of quanta as their own sign does. -/
theorem sign_apply_mul (s : Sign) {n : Nat} (hn : 0 < n) (c : Int) :
    (s.apply (n : Int)).sign * c = s.apply c := by
  have hpos : (0 : Int) < n := Int.natCast_pos.2 hn
  cases s
  · show (-(n : Int)).sign * c = -c
    rw [Int.sign_neg, Int.sign_eq_one_of_pos hpos, Int.neg_one_mul]
  · show (n : Int).sign * c = c
    rw [Int.sign_eq_one_of_pos hpos, Int.one_mul]

theorem natAbs_apply (s : Sign) (n : Nat) : (s.apply (n : Int)).natAbs = n := by
  cases s
  · exact (Int.natAbs_neg _).trans (Int.natAbs_natCast n)
  · exact Int.natAbs_natCast n

theorem apply_apply (s s' : Sign) (c : Int) : s.apply (s'.apply c) = (s * s').apply c := by
  cases s <;> cases s'
  · exact Int.neg_neg c
  · rfl
  · rfl
  · rfl

/-- A product of decoded finite scalars stands for the rounded product of their numbers of
quanta. -/
theorem Decoded.level_mul {u v : UnpackedFloat} (hu : Decoded u) (hv : Decoded v)
    (hfu : u.isFinite = true) (hfv : v.isFinite = true) :
    level (Float32.ofModel (.pack (UnpackedFloat.mul .binary32 u v))) =
      (levelOf u * levelOf v).sign *
        capped (nearest (levelOf u * levelOf v).natAbs (2 ^ 149)) := by
  cases hu with
  | notANumber => exact nomatch hfu
  | infinity s => exact nomatch hfu
  | zero s =>
    rw [levelOf.eq_3, Int.zero_mul, Int.sign_zero, Int.zero_mul]
    cases hv with
    | notANumber => exact nomatch hfv
    | infinity s' => exact nomatch hfv
    | zero s' => exact (Decoded.zero _).level_pack
    | finite s' h' cap' => exact (Decoded.zero _).level_pack
  | @finite s m e h cap =>
    cases hv with
    | notANumber => exact nomatch hfv
    | infinity s' => exact nomatch hfv
    | zero s' =>
      rw [levelOf.eq_3, Int.mul_zero, Int.sign_zero, Int.zero_mul]
      exact (Decoded.zero _).level_pack
    | @finite s' n f h' cap' =>
      rw [levelOf.eq_4, levelOf.eq_4, Int.sign_mul, Int.natAbs_mul, natAbs_apply, natAbs_apply,
        Int.mul_assoc, sign_apply_mul s' (quanta_pos h'), sign_apply_mul s (quanta_pos h),
        apply_apply]
      exact levelOf_pack (denotes_mul (s * s') h h')

/-- **A product of finite scalars stands for the rounded product of their levels.** -/
theorem level_mul {x y : Float32} (hx : x.isFinite = true) (hy : y.isFinite = true) :
    level (x * y) = (level x * level y).sign *
      capped (nearest (level x * level y).natAbs (2 ^ 149)) :=
  (decoded x).level_mul (decoded y) hx hy

/-- A finite scalar is neither infinity. -/
theorem ne_infinity_of_isFinite {x : Float32} (h : x.isFinite = true) :
    x ≠ infinity ∧ x ≠ negInfinity := by
  constructor
  · rintro rfl
    exact absurd h (by decide)
  · rintro rfl
    exact absurd h (by decide)

/-- A product of finite scalars is no NaN. -/
theorem isNaN_mul_of_isFinite {x y : Float32} (hx : x.isFinite = true) (hy : y.isFinite = true) :
    (x * y).isNaN = false := by
  obtain ⟨hinf, hneg⟩ := ne_infinity_of_isFinite hx
  obtain ⟨hinf', hneg'⟩ := ne_infinity_of_isFinite hy
  rw [Bool.eq_false_iff, Ne, isNaN_mul_iff, isNaN_of_isFinite hx, isNaN_of_isFinite hy]
  simp [hinf, hneg, hinf', hneg']

/-- The size of a product is the rounded product of the sizes. -/
theorem natAbs_level_mul {x y : Float32} (hx : x.isFinite = true) (hy : y.isFinite = true) :
    (level (x * y)).natAbs =
      capped (nearest ((level x).natAbs * (level y).natAbs) (2 ^ 149)) := by
  rw [level_mul hx hy, Int.natAbs_mul, Int.natAbs_natCast, Int.natAbs_mul]
  rcases eq_or_ne (level x * level y) 0 with hzero | hne
  · have hsizes : (level x).natAbs * (level y).natAbs = 0 := by rw [← Int.natAbs_mul, hzero]; rfl
    rw [hsizes, nearest_zero (Nat.two_pow_pos 149)]
    rfl
  · rw [Int.natAbs_sign_of_ne_zero hne, Nat.one_mul]

/-- A product is finite if the sizes of its factors leave room. -/
theorem isFinite_mul {x y : Float32} (hx : x.isFinite = true) (hy : y.isFinite = true) {k : Nat}
    (hk : k < 277) (h : (level x).natAbs * (level y).natAbs ≤ 2 ^ k * 2 ^ 149) :
    (x * y).isFinite = true := by
  have hsmall : nearest ((level x).natAbs * (level y).natAbs) (2 ^ 149) < overflow :=
    Nat.lt_of_le_of_lt (nearest_le_two_pow (Nat.two_pow_pos 149) h) (two_pow_lt_overflow hk)
  rw [isFinite_iff_level, natAbs_level_mul hx hy, capped, Nat.min_eq_left (Nat.le_of_lt hsmall)]
  exact ⟨isNaN_mul_of_isFinite hx hy, hsmall⟩

/-- A product with a factor of at most one is finite. -/
theorem isFinite_mul_of_le_one {x y : Float32} (hx : x.isFinite = true) (hy : y.isFinite = true)
    (h : (level y).natAbs ≤ 2 ^ 149) : (x * y).isFinite = true := by
  have hself : nearest (level x).natAbs 1 ≤ (level x).natAbs := by
    have hcapped := capped_nearest_natAbs_level x
    have hfinite := (isFinite_iff_level.1 hx).2
    unfold capped at hcapped
    omega
  have hle : nearest ((level x).natAbs * (level y).natAbs) (2 ^ 149) ≤ nearest (level x).natAbs 1 :=
    nearest_mono (Nat.two_pow_pos 149) Nat.one_pos (by
      rw [Nat.mul_one]
      exact Nat.mul_le_mul_left _ h)
  rw [isFinite_iff_level, natAbs_level_mul hx hy]
  refine ⟨isNaN_mul_of_isFinite hx hy, ?_⟩
  exact Nat.lt_of_le_of_lt (Nat.le_trans (Nat.min_le_left _ _) (Nat.le_trans hle hself))
    (isFinite_iff_level.1 hx).2

/-! ## Squares -/

/-- A square is not negative. -/
theorem zero_le_mul_self {x : Float32} (h : x.isNaN = false) : zero ≤ x * x := by
  rcases isFinite_or_infinite h with hfinite | rfl | rfl
  · rw [zero_le_iff_level, level_mul hfinite hfinite]
    refine ⟨isNaN_mul_of_isFinite hfinite hfinite, ?_⟩
    have hsquare : 0 ≤ level x * level x := mul_self_nonneg _
    exact Int.mul_nonneg (Int.sign_nonneg_iff.2 hsquare) (Int.natCast_nonneg _)
  · decide
  · decide

/-- A square has twice the digits. -/
theorem two_pow_le_level_mul_self {x : Float32} {j k : Nat} (hx : x.isFinite = true) (hk : k < 277)
    (hjk : k + 149 = j + j) (h : 2 ^ j ≤ (level x).natAbs) :
    ((2 ^ k : Nat) : Int) ≤ level (x * x) := by
  have hsquare : 2 ^ k * 2 ^ 149 ≤ (level x).natAbs * (level x).natAbs :=
    calc 2 ^ k * 2 ^ 149 = 2 ^ j * 2 ^ j := two_pow_mul_two_pow hjk
      _ ≤ (level x).natAbs * (level x).natAbs := Nat.mul_le_mul h h
  have hsize : 2 ^ k ≤ (level (x * x)).natAbs := by
    rw [natAbs_level_mul hx hx]
    exact Nat.le_min.2 ⟨two_pow_le_nearest (Nat.two_pow_pos 149) hsquare,
      Nat.le_of_lt (two_pow_lt_overflow hk)⟩
  obtain ⟨-, hnonneg⟩ := zero_le_iff_level.1 (zero_le_mul_self (isNaN_of_isFinite hx))
  generalize 2 ^ k = bound at hsize ⊢
  omega

/-- Only finite scalars have finite squares. -/
theorem isFinite_of_mul_self {x : Float32} (h : (x * x).isFinite = true) : x.isFinite = true := by
  have hnumber : x.isNaN = false := by
    rw [Bool.eq_false_iff]
    intro hnan
    exact Bool.eq_false_iff.1 (isNaN_of_isFinite h) (isNaN_mul_iff.2 (.inl hnan))
  rcases isFinite_or_infinite hnumber with hfinite | rfl | rfl
  · exact hfinite
  · exact absurd h (by decide)
  · exact absurd h (by decide)

/-! ## Square roots -/

/-- **A square root has at least half the digits**, those of one being half of its own. -/
theorem two_pow_le_level_sqrt {x : Float32} {j : Nat} (hj : j < 277)
    (h : ((2 ^ j : Nat) : Int) ≤ level x) :
    ((2 ^ ((j + 149) / 2) : Nat) : Int) ≤ level x.sqrt := by
  have hpos : 0 < levelOf x.toModel.unpack :=
    Int.lt_of_lt_of_le (Int.natCast_pos.2 (Nat.two_pow_pos j)) h
  have hsmall : 2 ^ ((j + 149) / 2) < overflow := two_pow_lt_overflow (by omega)
  have hsqrt : level x.sqrt = level (Float32.ofModel (.pack
      (UnpackedFloat.sqrt .binary32 x.toModel.unpack))) := rfl
  rw [level] at h
  rw [hsqrt]
  rcases (decoded x).of_levelOf_pos hpos with hunpack | ⟨m, e, hcanonical, hunpack⟩
  · rw [hunpack]
    exact Int.ofNat_le.2 (Nat.le_of_lt hsmall)
  · rw [hunpack] at h ⊢
    obtain ⟨m', e', pos, hroot, hcanonical', hsize⟩ := exists_sqrt hcanonical
    have hdigits : j ≤ m.log2 + (e + 149).toNat := by
      rw [← log2_shiftLeft hcanonical.pos, Nat.le_log2 (by
        rw [Nat.shiftLeft_eq]
        exact Nat.ne_of_gt (quanta_pos hcanonical)), Nat.shiftLeft_eq]
      exact Int.ofNat_le.1 h
    have hrange := hcanonical.range
    have hrange' := hcanonical'.range
    have hdigits' : (j + 149) / 2 ≤ m'.log2 + (e' + 149).toNat := by
      unfold totalExponent at hsize
      omega
    have hle : 2 ^ ((j + 149) / 2) ≤ quanta m' e' :=
      calc 2 ^ ((j + 149) / 2) ≤ 2 ^ (m'.log2 + (e' + 149).toNat) :=
            Nat.pow_le_pow_right Nat.two_pos hdigits'
        _ = 2 ^ m'.log2 * 2 ^ (e' + 149).toNat := Nat.pow_add 2 _ _
        _ ≤ quanta m' e' := Nat.mul_le_mul_right _ (Nat.log2_self_le (Nat.ne_of_gt hcanonical'.pos))
    rw [hroot, levelOf_pack (.finite hcanonical')]
    exact Int.ofNat_le.2 (Nat.le_min.2 ⟨hle, Nat.le_of_lt hsmall⟩)

/-! ## Zeros -/

/-- The scalars that equal zero. -/
theorem beq_zero_iff {x : Float32} : (x == zero) = true ↔ x = zero ∨ x = negZero := by
  constructor
  · intro h
    obtain ⟨hnumber, -, hlevel⟩ := beq_iff_level.1 h
    rcases (decoded x).of_levelOf_eq_zero hlevel with hnan | hzero
    · exact absurd hnan (isNaN_eq_false_iff.1 hnumber)
    · exact exists_unpack_eq_zero_iff.1 hzero
  · rintro (rfl | rfl)
    · decide
    · decide

/-- A scalar that is at least zero equals it exactly if it is at most zero. -/
theorem beq_zero_iff_le {x : Float32} (h : zero ≤ x) : (x == zero) = true ↔ x ≤ zero := by
  obtain ⟨hnumber, hlevel⟩ := zero_le_iff_level.1 h
  have hzero : level zero = 0 := rfl
  rw [beq_iff_level, le_iff_level hnumber (by decide)]
  constructor
  · rintro ⟨-, -, heq⟩
    exact Int.le_of_eq heq
  · intro hle
    exact ⟨hnumber, by decide, by omega⟩

/-- A sum of nonnegative scalars is zero exactly if both are. -/
theorem add_beq_zero_iff {x y : Float32} (hx : zero ≤ x) (hy : zero ≤ y) :
    (x + y == zero) = true ↔ (x == zero) = true ∧ (y == zero) = true := by
  obtain ⟨hle, hle'⟩ := le_add hx hy
  constructor
  · intro hsum
    have hsumLe := (beq_zero_iff_le (le_trans hx hle)).1 hsum
    exact ⟨(beq_zero_iff_le hx).2 (le_trans hle hsumLe),
      (beq_zero_iff_le hy).2 (le_trans hle' hsumLe)⟩
  · rintro ⟨hxzero, hyzero⟩
    rcases beq_zero_iff.1 hxzero with rfl | rfl <;> rcases beq_zero_iff.1 hyzero with rfl | rfl
    all_goals decide

/-- A scalar that is at least zero equals it, or stands for a quantum at least. -/
theorem beq_zero_or_one_le_level {x : Float32} (h : zero ≤ x) :
    (x == zero) = true ∨ ((2 ^ 0 : Nat) : Int) ≤ level x := by
  obtain ⟨hnumber, hlevel⟩ := zero_le_iff_level.1 h
  have hzero : level zero = 0 := rfl
  rcases Int.lt_or_eq_of_le hlevel with hpos | heq
  · exact .inr hpos
  · exact .inl (beq_iff_level.2 ⟨hnumber, by decide, by rw [hzero, ← heq]⟩)

/-- **A square root is zero exactly if the radicand is.** -/
theorem sqrt_beq_zero_iff {x : Float32} (h : zero ≤ x) :
    (x.sqrt == zero) = true ↔ (x == zero) = true := by
  constructor
  · intro hroot
    rcases beq_zero_or_one_le_level h with hzero | hsome
    · exact hzero
    · have hlevel := (beq_iff_level.1 hroot).2.2
      have hpos := two_pow_le_level_sqrt (by decide) hsome
      have hlevelZero : level zero = 0 := rfl
      omega
  · intro hzero
    rcases beq_zero_iff.1 hzero with rfl | rfl
    · decide
    · decide

/-- An infinite factor makes a product with a finite scalar infinite, unless that is zero. -/
theorem mul_infinite {x y : Float32} (hx : x.isFinite = true) (hne : ¬ (x == zero) = true)
    (hy : y = infinity ∨ y = negInfinity) : x * y = infinity ∨ x * y = negInfinity := by
  obtain ⟨s', hunpack'⟩ := exists_unpack_eq_infinity_iff.2 hy
  rw [← exists_unpack_eq_infinity_iff]
  have hmul : (x * y).toModel.unpack = UnpackedFloat.unpack .binary32
      (UnpackedFloat.pack .binary32
        (UnpackedFloat.mul .binary32 x.toModel.unpack y.toModel.unpack)) := rfl
  have hfinite : x.toModel.unpack.isFinite = true := hx
  rw [hmul, hunpack']
  rw [beq_zero_iff, ← exists_unpack_eq_zero_iff] at hne
  cases hunpack : x.toModel.unpack with
  | notANumber =>
    rw [hunpack] at hfinite
    exact nomatch hfinite
  | infinity s =>
    rw [hunpack] at hfinite
    exact nomatch hfinite
  | zero s => exact absurd ⟨s, hunpack⟩ hne
  | finite s m e pos =>
    have hproduct : UnpackedFloat.mul .binary32 (.finite s m e pos) (.infinity s') =
        .infinity (s * s') := rfl
    rw [hproduct]
    refine ⟨s * s', ?_⟩
    cases s * s'
    · rfl
    · rfl

/-! ## Inverses and counts -/

/-- **The inverse of what is great is small.** -/
theorem level_one_div_le {x : Float32} {k : Nat} (hk : k ≤ 298)
    (h : ((2 ^ k : Nat) : Int) ≤ level x) : zero ≤ one / x ∧
      level (one / x) ≤ (2 ^ (298 - k) : Nat) := by
  have hpos : 0 < level x := Int.lt_of_lt_of_le (Int.natCast_pos.2 (Nat.two_pow_pos k)) h
  have hnumber : x.isNaN = false := by
    rw [isNaN_eq_false_iff]
    intro hnan
    rw [level, hnan] at hpos
    exact absurd hpos (Int.lt_irrefl 0)
  rw [zero_le_iff_level]
  rcases isFinite_or_infinite hnumber with hfinite | rfl | rfl
  · have hzero : zero < x := (lt_iff_level (by decide) hnumber).2 hpos
    obtain ⟨hquotient, hlevel⟩ :=
      level_div (show zero ≤ one by decide) (by decide) hzero hfinite
    rw [hlevel]
    refine ⟨⟨hquotient, Int.natCast_nonneg _⟩, Int.ofNat_le.2 ?_⟩
    refine Nat.le_trans (Nat.min_le_left _ _) (nearest_le_two_pow (by omega) ?_)
    calc (level one).toNat * 2 ^ 149 = 2 ^ (298 - k) * 2 ^ k := by
          rw [level_one, Int.toNat_natCast]
          exact two_pow_mul_two_pow (by omega)
      _ ≤ 2 ^ (298 - k) * (level x).toNat := Nat.mul_le_mul_left _ (by omega)
  · have hinverse : one / infinity = zero := by decide
    rw [hinverse]
    exact ⟨⟨by decide, Int.le_refl 0⟩, Int.natCast_nonneg _⟩
  · exact absurd hpos (by decide)

/-- **Counts lie between one and `2 ^ 64`.** -/
theorem level_ofCount_mem {n : Nat} (hn : 0 < n) (h : n < UInt64.size) :
    (ofCount n).isNaN = false ∧ ((2 ^ 149 : Nat) : Int) ≤ level (ofCount n) ∧
      level (ofCount n) ≤ (2 ^ 213 : Nat) := by
  have hcount : n.toUInt64.toNat = n := Nat.mod_eq_of_lt h
  have hofCount : ofCount n = Float32.ofModel (.pack
      (UnpackedFloat.normalize .binary32 n.toUInt64.toNat 0 .positive)) := rfl
  have hpos : (0 : Int) < (n : Int) * (2 ^ 149 : Nat) :=
    Int.mul_pos (Int.natCast_pos.2 hn) (Int.natCast_pos.2 (Nat.two_pow_pos 149))
  rw [hofCount, hcount, level_normalize n (show (-149 : Int) ≤ 0 by decide)]
  have hscale : ((0 : Int) + 149).toNat = 149 := rfl
  rw [hscale, rounded, Int.sign_eq_one_of_pos hpos, Int.one_mul, Int.natAbs_mul, Int.natAbs_natCast,
    Int.natAbs_natCast]
  refine ⟨?_, Int.ofNat_le.2 (Nat.le_min.2 ⟨?_, ?_⟩), Int.ofNat_le.2 ?_⟩
  · rw [Bool.eq_false_iff, Ne, isNaN_ofModel_pack]
    exact normalize_ne_notANumber _ _ _ _
  · refine two_pow_le_nearest Nat.one_pos ?_
    rw [Nat.mul_one]
    exact Nat.le_mul_of_pos_left _ hn
  · exact Nat.le_of_lt (two_pow_lt_overflow (by decide))
  · refine Nat.le_trans (Nat.min_le_left _ _) (nearest_le_two_pow Nat.one_pos ?_)
    rw [Nat.mul_one, show 213 = 64 + 149 from rfl, Nat.pow_add]
    exact Nat.mul_le_mul_right _ (Nat.le_of_lt h)

end Scalar

end PolicyValue
