import PolicyValue.Proofs.Rounding
import PolicyValue.Scalar.Narrow

/-!
# Rounding to the nearest

Every finite scalar is a whole number of quanta, where a quantum is `2 ^ -149`, the least positive
scalar.  What an operation rounds is a quotient of such numbers, and the result is the nearest
number of quanta whose mantissa has at most 24 digits, a half going to the even one.

* `Scalar.nearest`: the rounded number of quanta;
* `Scalar.nearest_mono`: rounding keeps the order of quotients, so it depends on the quotient only;
* `Scalar.nearest_quanta`: it changes no number that needs no rounding;
* `Scalar.denotes_roundWithAccuracy`, `Scalar.denotes_round`: it is what rounding a mantissa gives.
-/

open Float.Model Float.Model.UnpackedFloat

namespace PolicyValue

/-! ## Quotients rounded to integers -/

/-- A rounded quotient is the integer quotient or one more. -/
theorem div_le_roundDiv (num den : Nat) : num / den ≤ roundDiv num den := by
  unfold roundDiv
  dsimp only
  split
  · exact Nat.le_refl _
  · split
    · exact Nat.le_succ _
    · exact Nat.le_add_right _ _

theorem roundDiv_le (num den : Nat) : roundDiv num den ≤ num / den + 1 := by
  unfold roundDiv
  dsimp only
  split
  · exact Nat.le_succ _
  · split
    · exact Nat.le_refl _
    · omega

/-- The integer quotients of fractions are in the fractions' order. -/
theorem div_le_div_of_mul_le_mul {a b c d : Nat} (hb : 0 < b) (hd : 0 < d) (h : a * d ≤ c * b) :
    a / b ≤ c / d := by
  rw [Nat.le_div_iff_mul_le hd]
  refine Nat.le_of_mul_le_mul_right ?_ hb
  calc a / b * d * b = a / b * b * d := Nat.mul_right_comm _ _ _
    _ ≤ a * d := Nat.mul_le_mul_right d (Nat.div_mul_le_self a b)
    _ ≤ c * b := h

/-- Of quotients with the same integer part the greater one has the greater rest. -/
theorem mod_mul_le_mod_mul {a b c d : Nat} (h : a * d ≤ c * b) (heq : a / b = c / d) :
    a % b * d ≤ c % d * b := by
  have ha : a / b * b * d + a % b * d = a * d := by rw [← Nat.add_mul, Nat.div_add_mod']
  have hc : c / d * d * b + c % d * b = c * b := by rw [← Nat.add_mul, Nat.div_add_mod']
  have hwhole : a / b * b * d = c / d * d * b := by rw [heq, Nat.mul_right_comm]
  omega

/-- A fraction that is not above one of less than a half is less than a half. -/
theorem two_mul_lt_of_mul_le_mul {r b s d : Nat} (hb : 0 < b) (h : r * d ≤ s * b)
    (hs : 2 * s < d) : 2 * r < b := by
  refine Nat.lt_of_mul_lt_mul_right (a := d) ?_
  calc 2 * r * d = 2 * (r * d) := Nat.mul_assoc _ _ _
    _ ≤ 2 * (s * b) := Nat.mul_le_mul_left 2 h
    _ = 2 * s * b := (Nat.mul_assoc _ _ _).symm
    _ < d * b := Nat.mul_lt_mul_of_pos_right hs hb
    _ = b * d := Nat.mul_comm d b

/-- A fraction that is not below one of more than a half is more than a half. -/
theorem lt_two_mul_of_mul_le_mul {r b s d : Nat} (hd : 0 < d) (h : r * d ≤ s * b)
    (hr : b < 2 * r) : d < 2 * s := by
  refine Nat.lt_of_mul_lt_mul_right (a := b) ?_
  calc d * b = b * d := Nat.mul_comm d b
    _ < 2 * r * d := Nat.mul_lt_mul_of_pos_right hr hd
    _ = 2 * (r * d) := Nat.mul_assoc _ _ _
    _ ≤ 2 * (s * b) := Nat.mul_le_mul_left 2 h
    _ = 2 * s * b := (Nat.mul_assoc _ _ _).symm

/-- **A greater quotient is rounded to a greater integer.** -/
theorem roundDiv_mono {a b c d : Nat} (hb : 0 < b) (hd : 0 < d) (h : a * d ≤ c * b) :
    roundDiv a b ≤ roundDiv c d := by
  rcases Nat.eq_or_lt_of_le (div_le_div_of_mul_le_mul hb hd h) with heq | hlt
  · -- With equal integer quotients the rests decide.
    have hrest : a % b * d ≤ c % d * b := mod_mul_le_mod_mul h heq
    unfold roundDiv
    dsimp only
    rw [heq]
    split
    · exact div_le_roundDiv c d
    · rename_i hge
      rw [if_neg (mt (two_mul_lt_of_mul_le_mul hb hrest) hge)]
      split
      · rename_i hgreat
        rw [if_pos (lt_two_mul_of_mul_le_mul hd hrest hgreat)]
      · split
        · omega
        · exact Nat.le_refl _
  · exact Nat.le_trans (roundDiv_le a b) (Nat.le_trans hlt (div_le_roundDiv c d))

/-- Equal quotients are rounded to the same integer. -/
theorem roundDiv_mul_right (a : Nat) {b c : Nat} (hb : 0 < b) (hc : 0 < c) :
    roundDiv (a * c) (b * c) = roundDiv a b := by
  have hbc : 0 < b * c := Nat.mul_pos hb hc
  have heq : a * c * b = a * (b * c) := by rw [Nat.mul_assoc, Nat.mul_comm c b]
  exact Nat.le_antisymm (roundDiv_mono hbc hb (Nat.le_of_eq heq))
    (roundDiv_mono hb hbc (Nat.le_of_eq heq.symm))

/-- An integer is rounded to itself. -/
theorem roundDiv_mul_self (n : Nat) {d : Nat} (hd : 0 < d) : roundDiv (n * d) d = n := by
  unfold roundDiv
  dsimp only
  rw [Nat.mul_mod_left, Nat.mul_zero, if_pos hd, Nat.mul_div_cancel n hd]

namespace Scalar

/-! ## Numbers of quanta -/

/-- The last binary place that a number of quanta keeps when it has 24 digits. -/
def lastPlace (n : Nat) : Nat := n.log2 - 23

/-- The number of quanta nearest to a quotient of such numbers, with at most 24 digits. -/
def nearest (num den : Nat) : Nat :=
  roundDiv num (den * 2 ^ lastPlace (num / den)) * 2 ^ lastPlace (num / den)

/-- Above the last place there are at most 24 digits. -/
theorem div_lastPlace_lt (n : Nat) : n / 2 ^ lastPlace n < 2 ^ 24 := by
  rw [Nat.div_lt_iff_lt_mul (Nat.two_pow_pos _), ← Nat.pow_add]
  refine Nat.lt_of_lt_of_le Nat.lt_log2_self (Nat.pow_le_pow_right Nat.two_pos ?_)
  unfold lastPlace
  omega

/-- Above a last place that is no unit there are 24 digits. -/
theorem le_div_lastPlace {n : Nat} (h : 0 < lastPlace n) : 2 ^ 23 ≤ n / 2 ^ lastPlace n := by
  unfold lastPlace at h ⊢
  have hn : n ≠ 0 := by
    rintro rfl
    exact absurd h (by decide)
  rw [Nat.le_div_iff_mul_le (Nat.two_pow_pos _), ← Nat.pow_add, show 23 + (n.log2 - 23) = n.log2 by
    omega]
  exact Nat.log2_self_le hn

/-- A rounded mantissa has at most 24 digits, or is the least number of 25. -/
theorem roundDiv_lastPlace_le (num den : Nat) :
    roundDiv num (den * 2 ^ lastPlace (num / den)) ≤ 2 ^ 24 := by
  refine Nat.le_trans (roundDiv_le _ _) ?_
  rw [← Nat.div_div_eq_div_mul]
  exact div_lastPlace_lt (num / den)

/-- A rounded mantissa whose last place is no unit has at least 24 digits. -/
theorem le_roundDiv_lastPlace {num den : Nat} (h : 0 < lastPlace (num / den)) :
    2 ^ 23 ≤ roundDiv num (den * 2 ^ lastPlace (num / den)) := by
  refine Nat.le_trans (le_div_lastPlace h) ?_
  rw [Nat.div_div_eq_div_mul]
  exact div_le_roundDiv _ _

/-- **Rounding keeps the order.** -/
theorem nearest_mono {a b c d : Nat} (hb : 0 < b) (hd : 0 < d) (h : a * d ≤ c * b) :
    nearest a b ≤ nearest c d := by
  have hquotient : a / b ≤ c / d := div_le_div_of_mul_le_mul hb hd h
  have hplace : lastPlace (a / b) ≤ lastPlace (c / d) := by
    unfold lastPlace
    rcases Nat.eq_zero_or_pos (a / b) with hzero | hpos
    · rw [hzero]
      exact Nat.zero_le _
    · exact Nat.sub_le_sub_right (log2_le_log2 hpos hquotient) 23
  rcases Nat.eq_or_lt_of_le hplace with heq | hlt
  · unfold nearest
    rw [heq]
    refine Nat.mul_le_mul_right _ (roundDiv_mono (Nat.mul_pos hb (Nat.two_pow_pos _))
      (Nat.mul_pos hd (Nat.two_pow_pos _)) ?_)
    rw [← Nat.mul_assoc, ← Nat.mul_assoc]
    exact Nat.mul_le_mul_right _ h
  · -- With different last places a power of two lies between the results.
    calc nearest a b ≤ 2 ^ 24 * 2 ^ lastPlace (a / b) :=
          Nat.mul_le_mul_right _ (roundDiv_lastPlace_le a b)
      _ ≤ 2 ^ 23 * 2 ^ lastPlace (c / d) := by
          rw [← Nat.pow_add, ← Nat.pow_add]
          exact Nat.pow_le_pow_right Nat.two_pos (by omega)
      _ ≤ nearest c d :=
          Nat.mul_le_mul_right _ (le_roundDiv_lastPlace (Nat.lt_of_le_of_lt (Nat.zero_le _) hlt))

/-- What is rounded depends on the quotient only. -/
theorem nearest_congr {a b c d : Nat} (hb : 0 < b) (hd : 0 < d) (h : a * d = c * b) :
    nearest a b = nearest c d :=
  Nat.le_antisymm (nearest_mono hb hd (Nat.le_of_eq h)) (nearest_mono hd hb (Nat.le_of_eq h.symm))

/-- A canonical number, in quanta. -/
def quanta (m : Nat) (e : Int) : Nat := m * 2 ^ (e + 149).toNat

/-- The last place of a canonical number of quanta is at most that of its mantissa. -/
theorem lastPlace_quanta_le {m : Nat} {e : Int} (h : Canonical m e) :
    lastPlace (quanta m e) ≤ (e + 149).toNat := by
  have hwidth := h.width
  unfold lastPlace quanta
  rw [← Nat.shiftLeft_eq, log2_shiftLeft h.pos]
  omega

/-- Without digits below the last place nothing is rounded. -/
theorem nearest_eq_self {n q : Nat} (h : n = q * 2 ^ lastPlace n) : nearest n 1 = n := by
  unfold nearest
  rw [Nat.div_one, Nat.one_mul]
  calc roundDiv n (2 ^ lastPlace n) * 2 ^ lastPlace n
      = roundDiv (q * 2 ^ lastPlace n) (2 ^ lastPlace n) * 2 ^ lastPlace n := by rw [← h]
    _ = q * 2 ^ lastPlace n := by rw [roundDiv_mul_self q (Nat.two_pow_pos _)]
    _ = n := h.symm

/-- **A canonical number is rounded to itself.** -/
theorem nearest_quanta {m : Nat} {e : Int} (h : Canonical m e) :
    nearest (quanta m e) 1 = quanta m e := by
  obtain ⟨k, hk⟩ := Nat.exists_eq_add_of_le (lastPlace_quanta_le h)
  refine nearest_eq_self (q := m * 2 ^ k) ?_
  rw [Nat.mul_assoc, ← Nat.pow_add, Nat.add_comm, ← hk]
  rfl

/-! ## Mantissas with round bits -/

/-- The mantissa of a quotient, with the bits that tell where the quotient lies above it. -/
def quotientMantissa (num den : Nat) : ExtendedMantissa :=
  .ofMantissaAndAccuracy (num / den) (accuracyOfFraction (num % den) den)

/-- The round bit of a quotient tells whether a half is left, the sticky bit whether anything else
is. -/
theorem quotientMantissa_eq (num : Nat) {den : Nat} (hden : 0 < den) : quotientMantissa num den =
    ⟨num / den, decide (den ≤ 2 * (num % den)),
      decide (num % den ≠ 0 ∧ 2 * (num % den) ≠ den)⟩ := by
  unfold quotientMantissa accuracyOfFraction
  by_cases hrest : num % den = 0
  · rw [if_pos hrest, hrest, decide_eq_false (by omega), decide_eq_false (by omega)]
    rfl
  · rw [if_neg hrest]
    rcases Nat.lt_trichotomy (2 * (num % den)) den with hlt | heq | hgt
    · rw [Nat.compare_eq_lt.2 hlt, decide_eq_false (by omega), decide_eq_true (by omega)]
      rfl
    · rw [Nat.compare_eq_eq.2 heq, decide_eq_true (by omega), decide_eq_false (by omega)]
      rfl
    · rw [Nat.compare_eq_gt.2 hgt, decide_eq_true (by omega), decide_eq_true (by omega)]
      rfl

/-- A mantissa of a quotient is rounded as the quotient is. -/
theorem roundedMantissa_quotientMantissa (num : Nat) {den : Nat} (hden : 0 < den) :
    (quotientMantissa num den).roundedMantissa = roundDiv num den := by
  rw [quotientMantissa_eq num hden]
  unfold roundDiv
  dsimp only
  rcases Nat.lt_trichotomy (2 * (num % den)) den with hlt | heq | hgt
  · rw [if_pos hlt, decide_eq_false (Nat.not_le.2 hlt)]
    cases decide (num % den ≠ 0 ∧ 2 * (num % den) ≠ den) <;> rfl
  · rw [if_neg (by omega), if_neg (by omega), decide_eq_true (by omega), decide_eq_false (by omega)]
    rfl
  · rw [if_neg (by omega), if_pos hgt, decide_eq_true (by omega), decide_eq_true (by omega)]
    rfl

/-- A quotient cut by one place is the quotient by twice the divisor. -/
theorem shiftRightOne_quotientMantissa (num : Nat) {den : Nat} (hden : 0 < den) :
    (quotientMantissa num den).shiftRightOne = quotientMantissa num (den * 2) := by
  have hrest : num % den < den := Nat.mod_lt num hden
  rw [quotientMantissa_eq num hden, quotientMantissa_eq num (Nat.mul_pos hden Nat.two_pos),
    Nat.mod_mul, ← Nat.div_div_eq_div_mul]
  show ExtendedMantissa.mk (num / den / 2) (num / den % 2 != 0) (_ || _) = _
  rw [← Bool.decide_or]
  rcases Nat.mod_two_eq_zero_or_one (num / den) with hbit | hbit
  · rw [hbit]
    congr 1
    · exact (decide_eq_false (by omega)).symm
    · exact decide_eq_decide.2 (by omega)
  · rw [hbit]
    congr 1
    · exact (decide_eq_true (by omega)).symm
    · exact decide_eq_decide.2 (by omega)

/-- A quotient cut by some places. -/
theorem shiftRight_quotientMantissa (num : Nat) {den : Nat} (hden : 0 < den) (k : Nat) :
    quotientMantissa num den >>> k = quotientMantissa num (den * 2 ^ k) := by
  show Nat.repeat ExtendedMantissa.shiftRightOne k (quotientMantissa num den) = _
  induction k with
  | zero => rw [Nat.pow_zero, Nat.mul_one, Nat.repeat]
  | succ k ih =>
    rw [Nat.repeat, ih, shiftRightOne_quotientMantissa num (Nat.mul_pos hden (Nat.two_pow_pos k)),
      Nat.pow_succ, Nat.mul_assoc]

/-! ## Rounding -/

/-- A number of quanta with a sign, as rounding gives it: a zero or a canonical number. -/
inductive Denotes (s : Sign) : UnpackedFloat → Nat → Prop
  | zero : Denotes s (.zero s) 0
  | finite {m : Nat} {e : Int} (h : Canonical m e) : Denotes s (.finite s m e h.pos) (quanta m e)

/-- A positive integer quotient has as many more digits as places are put behind the dividend. -/
theorem log2_mul_two_pow_div {num den : Nat} (hden : 0 < den) (h : 0 < num / den) (k : Nat) :
    (num * 2 ^ k / den).log2 = (num / den).log2 + k := by
  have hlow : 2 ^ (num / den).log2 * den ≤ num :=
    (Nat.le_div_iff_mul_le hden).1 (Nat.log2_self_le (Nat.ne_of_gt h))
  have hhigh : num < 2 ^ ((num / den).log2 + 1) * den :=
    (Nat.div_lt_iff_lt_mul hden).1 Nat.lt_log2_self
  have hlow' : 2 ^ ((num / den).log2 + k) ≤ num * 2 ^ k / den := by
    rw [Nat.le_div_iff_mul_le hden, Nat.pow_add, Nat.mul_right_comm]
    exact Nat.mul_le_mul_right _ hlow
  have hhigh' : num * 2 ^ k / den < 2 ^ ((num / den).log2 + k + 1) := by
    rw [Nat.div_lt_iff_lt_mul hden, Nat.add_right_comm, Nat.pow_add _ _ k, Nat.mul_right_comm]
    exact Nat.mul_lt_mul_of_pos_right hhigh (Nat.two_pow_pos k)
  have hpos : num * 2 ^ k / den ≠ 0 :=
    Nat.ne_of_gt (Nat.lt_of_lt_of_le (Nat.two_pow_pos _) hlow')
  exact (Nat.log2_eq_iff hpos).2 ⟨hlow', hhigh'⟩

/-- The exponent for the size of a quotient, in quanta, is the last place of their number. -/
theorem lastPlace_scaled {num den : Nat} (hden : 0 < den) {e t : Int}
    (ht : max (totalExponent (num / den) e - 24) (-149) = t) (hcap : e ≤ t) :
    lastPlace (num * 2 ^ (e + 149).toNat / (den * 2 ^ (-149 - e).toNat)) = (t + 149).toNat := by
  unfold totalExponent at ht
  unfold lastPlace
  rcases Int.lt_or_le e (-149) with hsmall | hlarge
  · have hzero : (e + 149).toNat = 0 := by omega
    rw [hzero, Nat.pow_zero, Nat.mul_one, ← Nat.div_div_eq_div_mul, log2_div_two_pow]
    omega
  · have hzero : (-149 - e).toNat = 0 := by omega
    rw [hzero, Nat.pow_zero, Nat.mul_one]
    rcases Nat.eq_zero_or_pos (num / den) with hnone | hsome
    · -- Nothing before the point: then the exponent is the least one.
      rw [hnone] at ht
      have hlog : ((0 : Nat).log2 : Int) = 0 := rfl
      have hleast : (e + 149).toNat = 0 := by omega
      rw [hleast, Nat.pow_zero, Nat.mul_one, hnone]
      omega
    · rw [log2_mul_two_pow_div hden hsome]
      omega

/-- The number of quanta nearest to a quotient that is scaled by a power of two. -/
theorem nearest_scaled {num den : Nat} (hden : 0 < den) {e t : Int}
    (ht : max (totalExponent (num / den) e - 24) (-149) = t) (hcap : e ≤ t) :
    nearest (num * 2 ^ (e + 149).toNat) (den * 2 ^ (-149 - e).toNat) =
      roundDiv num (den * 2 ^ (t - e).toNat) * 2 ^ (t + 149).toNat := by
  rw [nearest, lastPlace_scaled hden ht hcap]
  congr 1
  have hplaces : (-149 - e).toNat + (t + 149).toNat = (t - e).toNat + (e + 149).toNat := by
    omega
  rw [Nat.mul_assoc, ← Nat.pow_add, hplaces, Nat.pow_add, ← Nat.mul_assoc]
  exact roundDiv_mul_right num (Nat.mul_pos hden (Nat.two_pow_pos _)) (Nat.two_pow_pos _)

/-- The last step of rounding: a mantissa that is left is that of a canonical number. -/
theorem denotes_of_canonical (s : Sign) {m m' : Nat} {e e' : Int} (hm : m' = m) (he : e' = e)
    (hcanonical : 0 < m → Canonical m e) :
    Denotes s (if h : m' = 0 then .zero s else .finite s m' e' (Nat.pos_of_ne_zero h))
      (quanta m e) := by
  subst hm he
  split
  next hzero =>
    have hquanta : quanta m' e' = 0 := by rw [quanta, hzero, Nat.zero_mul]
    rw [hquanta]
    exact .zero
  next hpos => exact .finite (hcanonical (Nat.pos_of_ne_zero hpos))

/-- A rounded mantissa that has become too long gives its last digit, a zero, to the exponent. -/
theorem denotes_carry (s : Sign) {n : Nat} {t : Int} (hn : n ≤ 2 ^ 24) (ht : -149 ≤ t)
    (hfull : -149 < t → 2 ^ 23 ≤ n) :
    let shifted := shiftToTargetExponent .binary32 n t .exact
    Denotes s (if h : shifted.1.mantissa = 0 then .zero s
      else .finite s shifted.1.mantissa shifted.2 (Nat.pos_of_ne_zero h)) (quanta n t) := by
  intro shifted
  generalize hk : (max (totalExponent n t - 24) (-149) - t).toNat = k
  have hmantissa : shifted.1.mantissa = n / 2 ^ k := by
    rw [← hk]
    exact mantissa_shiftRight _ _
  have hexponent : shifted.2 = t + k := by
    rw [← hk]
    rfl
  unfold totalExponent at hk
  rcases Nat.eq_or_lt_of_le hn with hlong | hshort
  · have hlog : n.log2 = 24 := by rw [hlong, Nat.log2_two_pow]
    have hquanta : quanta n t = quanta (2 ^ 23) (t + 1) := by
      have hplaces : (t + 1 + 149).toNat = (t + 149).toNat + 1 := by omega
      rw [quanta, quanta, hplaces, hlong, Nat.pow_succ 2 (t + 149).toNat]
      omega
    obtain rfl : k = 1 := by omega
    rw [hquanta]
    refine denotes_of_canonical s (hmantissa.trans (by omega)) hexponent fun _ => ?_
    exact ⟨Nat.two_pow_pos 23, by rw [Nat.log2_two_pow], by omega, fun _ => Nat.log2_two_pow⟩
  · have hlog : n.log2 ≤ 23 := by
      rcases Nat.eq_zero_or_pos n with rfl | hpos
      · exact Nat.zero_le 23
      · exact Nat.lt_succ_iff.1 ((Nat.log2_lt (Nat.ne_of_gt hpos)).2 hshort)
    obtain rfl : k = 0 := by omega
    refine denotes_of_canonical s (hmantissa.trans (Nat.div_one n))
      (hexponent.trans (Int.add_zero t)) fun hpos => ⟨hpos, hlog, ht, fun hlarge => ?_⟩
    have hdigits := (Nat.le_log2 (Nat.ne_of_gt hpos)).2 (hfull hlarge)
    omega

/-- **A quotient is rounded to the nearest number of quanta.** -/
theorem denotes_roundWithAccuracy (s : Sign) (num : Nat) {den : Nat} (hden : 0 < den) {e : Int}
    (hcap : e ≤ Format.binary32.targetExponent (totalExponent (num / den) e)) :
    Denotes s (roundWithAccuracy .binary32 s (num / den) e (accuracyOfFraction (num % den) den))
      (nearest (num * 2 ^ (e + 149).toNat) (den * 2 ^ (-149 - e).toNat)) := by
  rw [targetExponent_binary32] at hcap
  generalize ht : max (totalExponent (num / den) e - 24) (-149) = t at hcap
  rw [nearest_scaled hden ht hcap]
  have hshift : shiftToTargetExponent .binary32 (num / den) e
        (accuracyOfFraction (num % den) den) =
      (quotientMantissa num (den * 2 ^ (t - e).toNat), t) := by
    rw [shiftToTargetExponent, targetExponent_binary32, ht]
    exact Prod.ext (shiftRight_quotientMantissa num hden _) (by
      show e + ((t - e).toNat : Int) = t
      omega)
  rw [roundWithAccuracy, hshift]
  dsimp only
  rw [roundedMantissa_quotientMantissa num (Nat.mul_pos hden (Nat.two_pow_pos _))]
  unfold totalExponent at ht
  -- What is left before the point is the integer quotient without the places that are cut.
  have hquotient : num / (den * 2 ^ (t - e).toNat) = num / den / 2 ^ (t - e).toNat :=
    (Nat.div_div_eq_div_mul ..).symm
  refine denotes_carry s ?_ (by omega) fun hlarge => ?_
  · refine Nat.le_trans (roundDiv_le _ _) ?_
    rw [hquotient]
    refine (Nat.div_lt_iff_lt_mul (Nat.two_pow_pos _)).2 ?_
    rw [← Nat.pow_add]
    exact Nat.lt_of_lt_of_le Nat.lt_log2_self (Nat.pow_le_pow_right Nat.two_pos (by omega))
  · refine Nat.le_trans ?_ (div_le_roundDiv _ _)
    have hpos : num / den ≠ 0 := by
      intro hzero
      rw [hzero] at ht
      have hlog : ((0 : Nat).log2 : Int) = 0 := rfl
      omega
    rw [hquotient, Nat.le_div_iff_mul_le (Nat.two_pow_pos _), ← Nat.pow_add]
    exact Nat.le_trans (Nat.pow_le_pow_right Nat.two_pos (by omega)) (Nat.log2_self_le hpos)

/-- **An integer number of places is rounded to the nearest number of quanta.** -/
theorem denotes_round (s : Sign) {m : Nat} (hm : 0 < m) {e : Int} (he : -149 ≤ e) :
    Denotes s (UnpackedFloat.round .binary32 s m e) (nearest (m * 2 ^ (e + 149).toNat) 1) := by
  rw [UnpackedFloat.round, decreaseExponent, targetExponent_binary32]
  dsimp only
  generalize hk : (e - max (totalExponent m e - 24) (-149)).toNat = k
  have hlog : (m <<< k).log2 = m.log2 + k := log2_shiftLeft hm k
  have hcap : e - k ≤ Format.binary32.targetExponent (totalExponent (m <<< k / 1) (e - k)) := by
    rw [targetExponent_binary32, Nat.div_one]
    unfold totalExponent at hk ⊢
    omega
  have hround := denotes_roundWithAccuracy s (m <<< k) Nat.one_pos hcap
  have hplaces : k + (e - k + 149).toNat = (e + 149).toNat := by omega
  have hunit : (-149 - (e - k)).toNat = 0 := by omega
  rw [hunit, Nat.shiftLeft_eq, Nat.mul_assoc, ← Nat.pow_add, hplaces, Nat.div_one, Nat.mod_one,
    ← Nat.shiftLeft_eq] at hround
  exact hround

end Scalar

end PolicyValue
