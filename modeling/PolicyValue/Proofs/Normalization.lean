import PolicyValue.Proofs.Export
import PolicyValue.Proofs.Magnitude
import PolicyValue.Proofs.Softmax

/-!
# What normalization divides by

Normalization divides by the number of entries and by a square root, that of the mean square of the
deviations plus epsilon.  As long as the squares have a finite sum, the root is zero only if mean
square and epsilon both are, and otherwise its inverse cannot carry a deviation out of the finite
range: a deviation is great only where the mean square is.

An epsilon of zero is admissible, and mean squares are zero for constant vectors and for deviations
whose squares are rounded to zero.  Then the inverse of the root is infinite, and deviations and
factors of zero give NaNs.

* `Scalar.isFinite_mul_inverse_sqrt`: a deviation over the root is finite;
* `normalizes_of_validate`: what is divided by, and which outputs are NaNs, for valid archives;
* `isNaN_normalize_constant`: a constant vector with an epsilon of zero.
-/

namespace PolicyValue

open Scalar (zero one negZero infinity negInfinity ofCount level isNaN_of_isFinite)

/-! ## Quotients by counts and roots -/

namespace Scalar

/-- Counts of at least one are positive and finite. -/
theorem ofCount_mem {n : Nat} (hn : 0 < n) (h : n < UInt64.size) :
    zero < ofCount n ∧ (ofCount n).isFinite = true := by
  obtain ⟨hnumber, hge, hle⟩ := level_ofCount_mem hn h
  have hpos : 0 < level (ofCount n) :=
    Int.lt_of_lt_of_le (Int.natCast_pos.2 (Nat.two_pow_pos 149)) hge
  have hsmall : 2 ^ 213 < overflow := two_pow_lt_overflow (by decide)
  exact ⟨(lt_iff_level (by decide) hnumber).2 hpos, isFinite_iff_level.2 ⟨hnumber, by omega⟩⟩

/-- A scalar above zero does not equal it. -/
theorem not_beq_zero_of_lt {x : Float32} (h : zero < x) (hx : x.isNaN = false) :
    ¬ (x == zero) = true := by
  intro hzero
  have hpos := (lt_iff_level (by decide) hx).1 h
  rw [(beq_iff_level.1 hzero).2.2] at hpos
  exact Int.lt_irrefl _ hpos

/-- A nonnegative scalar over a count is nonnegative. -/
theorem zero_le_div_ofCount {x : Float32} {n : Nat} (hx : zero ≤ x) (hfinite : x.isFinite = true)
    (hn : 0 < n) (h : n < UInt64.size) : zero ≤ x / ofCount n := by
  obtain ⟨hcount, hcount'⟩ := ofCount_mem hn h
  obtain ⟨hnumber, hlevel⟩ := level_div hx hfinite hcount hcount'
  rw [zero_le_iff_level, hlevel]
  exact ⟨hnumber, Int.natCast_nonneg _⟩

/-- A count takes at most 64 digits from what it divides. -/
theorem two_pow_le_level_div_ofCount {x : Float32} {n k : Nat} (hx : zero ≤ x)
    (hfinite : x.isFinite = true) (hn : 0 < n) (h : n < UInt64.size) (hk : k < 277)
    (hle : ((2 ^ (k + 64) : Nat) : Int) ≤ level x) :
    ((2 ^ k : Nat) : Int) ≤ level (x / ofCount n) := by
  obtain ⟨hcount, hcount'⟩ := ofCount_mem hn h
  obtain ⟨-, hge, hcountLe⟩ := level_ofCount_mem hn h
  have hpos : 0 < level (ofCount n) :=
    Int.lt_of_lt_of_le (Int.natCast_pos.2 (Nat.two_pow_pos 149)) hge
  rw [(level_div hx hfinite hcount hcount').2]
  refine Int.ofNat_le.2 (Nat.le_min.2 ⟨?_, Nat.le_of_lt (two_pow_lt_overflow hk)⟩)
  refine two_pow_le_nearest (by omega) ?_
  calc 2 ^ k * (level (ofCount n)).toNat ≤ 2 ^ k * 2 ^ 213 := Nat.mul_le_mul_left _ (by omega)
    _ = 2 ^ (k + 64) * 2 ^ 149 := two_pow_mul_two_pow (Nat.add_assoc k 64 149).symm
    _ ≤ (level x).toNat * 2 ^ 149 := Nat.mul_le_mul_right _ (by omega)

/-- The inverse of a root is finite and small if the radicand is great. -/
theorem inverse_sqrt_mem {r : Float32} {j : Nat} (hj : j < 277)
    (h : ((2 ^ j : Nat) : Int) ≤ level r) :
    (one / r.sqrt).isFinite = true ∧ (level (one / r.sqrt)).natAbs ≤ 2 ^ (298 - (j + 149) / 2) := by
  have hroot := two_pow_le_level_sqrt hj h
  obtain ⟨hnonneg, hle⟩ := level_one_div_le (by omega) hroot
  obtain ⟨hnumber, hlevel⟩ := zero_le_iff_level.1 hnonneg
  have hsmall : 2 ^ (298 - (j + 149) / 2) < overflow := two_pow_lt_overflow (by omega)
  generalize 2 ^ (298 - (j + 149) / 2) = bound at hle hsmall ⊢
  have hsize : (level (one / r.sqrt)).natAbs ≤ bound := by omega
  exact ⟨isFinite_iff_level.2 ⟨hnumber, Nat.lt_of_le_of_lt hsize hsmall⟩, hsize⟩

/-- **A deviation over the root is finite.**  A small one cannot become great enough, as the
radicand is one quantum at least; the square of a great one makes the radicand at least one. -/
theorem isFinite_mul_inverse_sqrt {d total r : Float32} {n : Nat} (hn : 0 < n)
    (h : n < UInt64.size) (hd : d.isFinite = true) (hle : d * d ≤ total)
    (htotal : total.isFinite = true) (hr : total / ofCount n ≤ r) (hne : ¬ (r == zero) = true) :
    (d * (one / r.sqrt)).isFinite = true := by
  have hsquare : zero ≤ d * d := zero_le_mul_self (isNaN_of_isFinite hd)
  have hnonneg : zero ≤ total := le_trans hsquare hle
  have hmean : zero ≤ total / ofCount n := zero_le_div_ofCount hnonneg htotal hn h
  rcases Nat.lt_or_ge (2 ^ 181) (level d).natAbs with hgreat | hsmall
  · have hgreatSquare : ((2 ^ (149 + 64) : Nat) : Int) ≤ level (d * d) :=
      two_pow_le_level_mul_self hd (by decide) (j := 181) rfl (Nat.le_of_lt hgreat)
    obtain ⟨hnumber, -⟩ := zero_le_iff_level.1 hsquare
    have htotalLevel : ((2 ^ (149 + 64) : Nat) : Int) ≤ level total :=
      Int.le_trans hgreatSquare ((le_iff_level hnumber (isNaN_of_isFinite htotal)).1 hle)
    have hmeanLevel := two_pow_le_level_div_ofCount hnonneg htotal hn h (by decide) htotalLevel
    obtain ⟨hnumber', hnumber''⟩ := not_isNaN_of_le hr
    obtain ⟨hfinite, hbound⟩ := inverse_sqrt_mem (j := 149) (by decide)
      (Int.le_trans hmeanLevel ((le_iff_level hnumber' hnumber'').1 hr))
    exact isFinite_mul_of_le_one hd hfinite hbound
  · have hsome := (beq_zero_or_one_le_level (le_trans hmean hr)).resolve_left hne
    obtain ⟨hfinite, hbound⟩ := inverse_sqrt_mem (by decide) hsome
    refine isFinite_mul hd hfinite (k := 256) (by decide) ?_
    calc (level d).natAbs * (level (one / r.sqrt)).natAbs ≤ 2 ^ 181 * 2 ^ 224 :=
          Nat.mul_le_mul hsmall hbound
      _ = 2 ^ 256 * 2 ^ 149 := two_pow_mul_two_pow rfl

/-- The inverse of a zero is infinite. -/
theorem one_div_of_beq_zero {x : Float32} (h : (x == zero) = true) :
    one / x = infinity ∨ one / x = negInfinity := by
  rcases beq_zero_iff.1 h with rfl | rfl
  · exact .inl (by decide)
  · exact .inr (by decide)

/-- Scaling by a finite factor and shifting by a finite amount make a NaN of NaNs only, and of an
infinity that is scaled by zero. -/
theorem isNaN_mul_add_iff {z g b : Float32} (hg : g.isFinite = true) (hb : b.isFinite = true) :
    (z * g + b).isNaN = true ↔
      z.isNaN = true ∨ ((z = infinity ∨ z = negInfinity) ∧ (g == zero) = true) := by
  obtain ⟨hg₁, hg₂⟩ := ne_infinity_of_isFinite hg
  obtain ⟨hb₁, hb₂⟩ := ne_infinity_of_isFinite hb
  rw [isNaN_add_iff, isNaN_mul_iff, isNaN_of_isFinite hg, isNaN_of_isFinite hb, beq_zero_iff]
  simp [hg₁, hg₂, hb₁, hb₂]

/-- **A deviation over the root, scaled and shifted, is a NaN exactly if the root is zero and the
deviation or the factor is.** -/
theorem isNaN_standardized_iff {d total r g b : Float32} {n : Nat} (hn : 0 < n)
    (h : n < UInt64.size) (hd : d.isFinite = true) (hle : d * d ≤ total)
    (htotal : total.isFinite = true) (hr : total / ofCount n ≤ r) (hg : g.isFinite = true)
    (hb : b.isFinite = true) : (d * (one / r.sqrt) * g + b).isNaN = true ↔
      (r == zero) = true ∧ ((d == zero) = true ∨ (g == zero) = true) := by
  rw [isNaN_mul_add_iff hg hb]
  have hnonneg : zero ≤ r := le_trans (zero_le_div_ofCount
    (le_trans (zero_le_mul_self (isNaN_of_isFinite hd)) hle) htotal hn h) hr
  by_cases hzero : (r == zero) = true
  · have hinverse := one_div_of_beq_zero ((sqrt_beq_zero_iff hnonneg).2 hzero)
    by_cases hdeviation : (d == zero) = true
    · refine iff_of_true (.inl ?_) ⟨hzero, .inl hdeviation⟩
      exact isNaN_mul_iff.2 (.inr (.inr (.inr ⟨beq_zero_iff.1 hdeviation, hinverse⟩)))
    · have hinfinite := mul_infinite hd hdeviation hinverse
      have hnumber : (d * (one / r.sqrt)).isNaN = false := by
        rcases hinfinite with hpos | hneg
        · rw [hpos]
          decide
        · rw [hneg]
          decide
      rw [hnumber]
      simp [hinfinite, hzero, hdeviation]
  · have hfinite := isFinite_mul_inverse_sqrt hn h hd hle htotal hr hzero
    obtain ⟨hpos, hneg⟩ := ne_infinity_of_isFinite hfinite
    rw [isNaN_of_isFinite hfinite]
    simp [hpos, hneg, hzero]

end Scalar

/-! ## Vectors with finite squares -/

/-- Sums, differences, products, quotients and square roots are those of binary32; of the
exponential and the hyperbolic tangent nothing is said. -/
structure Arithmetic.IsBinary32 [Arithmetic] : Prop where
  /-- Sums. -/
  add_eq : ∀ x y : Float32, add x y = x + y
  /-- Differences. -/
  sub_eq : ∀ x y : Float32, sub x y = x - y
  /-- Products. -/
  mul_eq : ∀ x y : Float32, mul x y = x * y
  /-- Quotients. -/
  div_eq : ∀ x y : Float32, div x y = x / y
  /-- Square roots. -/
  sqrt_eq : ∀ x : Float32, sqrt x = x.sqrt

theorem Arithmetic.isBinary32_binary32 : @IsBinary32 binary32 where
  add_eq _ _ := rfl
  sub_eq _ _ := rfl
  mul_eq _ _ := rfl
  div_eq _ _ := rfl
  sqrt_eq _ := rfl

section

variable [Arithmetic]

/-- The mean of the squared deviations from the mean. -/
def meanSquare (xs : List Float32) : Float32 := div (squares (mean xs) xs) (ofCount xs.length)

/-- One entry of a normalized vector. -/
theorem getElem?_normalize {xs gamma beta : List Float32} {epsilon x g b : Float32} {i : Nat}
    (hx : xs[i]? = some x) (hg : gamma[i]? = some g) (hb : beta[i]? = some b) :
    (normalize xs gamma beta epsilon)[i]? =
      some (add (mul (mul (sub x (mean xs)) (div one (sqrt (radicand epsilon xs)))) g) b) := by
  have hcorrection : (gamma.zip beta)[i]? = some (g, b) := List.getElem?_zip_eq_some.2 ⟨hg, hb⟩
  rw [normalize, List.getElem?_zipWith, hx, hcorrection]

/-- **If the squares of the deviations have a finite sum, all deviations are finite**, and no square
is above the sum. -/
theorem square_le_squares (h : Arithmetic.IsBinary32) {center : Float32} {xs : List Float32}
    (hfinite : (squares center xs).isFinite = true) : zero ≤ squares center xs ∧
      ∀ x ∈ xs, (x - center).isFinite = true ∧ (x - center) * (x - center) ≤ squares center xs := by
  have hsquares : squares center xs = sum (xs.map fun x => (x - center) * (x - center)) := by
    simp only [squares, h.sub_eq, h.mul_eq]
  rw [hsquares] at hfinite ⊢
  have hterms : ∀ t ∈ xs.map fun x => (x - center) * (x - center), zero ≤ t := by
    intro t ht
    have hnumber : t.isNaN = false := by
      rw [Bool.eq_false_iff]
      intro hnan
      exact Bool.eq_false_iff.1 (isNaN_of_isFinite hfinite)
        ((isNaN_sum_iff h.add_eq).2 (.inl ⟨t, ht, hnan⟩))
    obtain ⟨x, -, rfl⟩ := List.mem_map.1 ht
    refine Scalar.zero_le_mul_self (Bool.eq_false_iff.2 fun hnan => ?_)
    exact Bool.eq_false_iff.1 hnumber (Scalar.isNaN_mul_iff.2 (.inl hnan))
  obtain ⟨hnonneg, hle⟩ := le_sum h.add_eq hterms
  refine ⟨hnonneg, fun x hx => ?_⟩
  have hmem := List.mem_map_of_mem (f := fun x => (x - center) * (x - center)) hx
  have hsquare : ((x - center) * (x - center)).isFinite = true :=
    Scalar.isFinite_of_le (hterms _ hmem) (hle _ hmem) hfinite
  exact ⟨Scalar.isFinite_of_mul_self hsquare, hle _ hmem⟩

/-! ## Divisors and NaNs -/

/-- What normalization divides by, and which outputs are NaNs. -/
structure Normalizes (epsilon : Float32) (xs gamma beta : List Float32) : Prop where
  /-- The root is one of a nonnegative number. -/
  radicand_nonneg : zero ≤ radicand epsilon xs
  /-- The count that sums are divided by is not zero. -/
  count_ne_zero : ¬ (ofCount xs.length == zero) = true
  /-- The root is zero exactly if mean square and epsilon are. -/
  root_eq_zero_iff : (sqrt (radicand epsilon xs) == zero) = true ↔
    (meanSquare xs == zero) = true ∧ (epsilon == zero) = true
  /-- There is one output per entry. -/
  length : (normalize xs gamma beta epsilon).length = xs.length
  /-- An output is a NaN exactly if the root is zero and so is the deviation or the factor. -/
  isNaN_iff : ∀ {i : Nat} {x g y : Float32}, xs[i]? = some x → gamma[i]? = some g →
    (normalize xs gamma beta epsilon)[i]? = some y →
      (y.isNaN = true ↔ (sqrt (radicand epsilon xs) == zero) = true ∧
        ((sub x (mean xs) == zero) = true ∨ (g == zero) = true))

/-- The mean square of a nonempty vector is not negative. -/
theorem zero_le_meanSquare (h : Arithmetic.IsBinary32) {xs : List Float32} (hne : xs ≠ [])
    (hcount : xs.length < UInt64.size) (hfinite : (squares (mean xs) xs).isFinite = true) :
    zero ≤ meanSquare xs := by
  rw [meanSquare, h.div_eq]
  exact Scalar.zero_le_div_ofCount (square_le_squares h hfinite).1 hfinite
    (List.length_pos_iff.2 hne) hcount

/-- **What normalization of a vector with finite squares divides by.**  For the epsilon of every
valid archive and every nonempty vector whose squared deviations have a finite sum, with a finite
factor and a finite shift per entry: the radicand is not negative, the count is not zero, and the
root is zero only for a mean square and an epsilon of zero.  An output is a NaN exactly if the root
is zero and its deviation or its factor is, so with a positive epsilon none is.  Entries and their
sum are finite as soon as the squares are, so nothing more is asked of them. -/
theorem normalizes_of_validate (h : Arithmetic.IsBinary32) {a : Archive} (ha : a.validate = .ok ())
    {xs gamma beta : List Float32} (hne : xs ≠ []) (hcount : xs.length < UInt64.size)
    (hgamma : gamma.length = xs.length) (hbeta : beta.length = xs.length)
    (hfactors : ∀ g ∈ gamma, g.isFinite = true) (hshifts : ∀ b ∈ beta, b.isFinite = true)
    (hsquares : (squares (mean xs) xs).isFinite = true) :
    Normalizes a.header.epsilon xs gamma beta := by
  obtain ⟨-, -, -, hepsilon⟩ := Archive.validate_eq_ok_iff.1 ha
  have hpos : 0 < xs.length := List.length_pos_iff.2 hne
  have hmean := zero_le_meanSquare h hne hcount hsquares
  have hradicand : radicand a.header.epsilon xs = meanSquare xs + a.header.epsilon := h.add_eq _ _
  obtain ⟨hle, -⟩ := Scalar.le_add hmean hepsilon.zero_le
  rw [← hradicand] at hle
  have hnonneg : zero ≤ radicand a.header.epsilon xs := Scalar.le_trans hmean hle
  have hroot : (sqrt (radicand a.header.epsilon xs) == zero) = true ↔
      (radicand a.header.epsilon xs == zero) = true := by
    rw [h.sqrt_eq]
    exact Scalar.sqrt_beq_zero_iff hnonneg
  obtain ⟨hcountPos, hcountFinite⟩ := Scalar.ofCount_mem hpos hcount
  refine ⟨hnonneg, Scalar.not_beq_zero_of_lt hcountPos (isNaN_of_isFinite hcountFinite), ?_,
    length_normalize _ hgamma hbeta, ?_⟩
  · rw [hroot, hradicand]
    exact Scalar.add_beq_zero_iff hmean hepsilon.zero_le
  · intro i x g y hx hg hy
    obtain ⟨b, hb⟩ : ∃ b, beta[i]? = some b := by
      obtain ⟨hi, -⟩ := List.getElem?_eq_some_iff.1 hx
      exact ⟨_, List.getElem?_eq_getElem (hbeta.symm ▸ hi)⟩
    rw [getElem?_normalize hx hg hb, Option.some_inj, h.add_eq, h.mul_eq, h.mul_eq, h.div_eq,
      h.sqrt_eq] at hy
    obtain ⟨hdeviation, hsquare⟩ := (square_le_squares h hsquares).2 x (List.mem_of_getElem? hx)
    rw [← hy, hroot, h.sub_eq]
    rw [meanSquare, h.div_eq] at hle
    exact Scalar.isNaN_standardized_iff hpos hcount hdeviation hsquare hsquares hle
      (hfactors g (List.mem_of_getElem? hg)) (hshifts b (List.mem_of_getElem? hb))

end

/-! ## Constant vectors -/

/-- An archive of this epsilon with nothing in it. -/
def bareArchive (epsilon : Float32) : Archive :=
  ⟨⟨archiveVersion, stateSize.toUInt64, actionSize.toUInt64, .ofList [], epsilon⟩, .ofList []⟩

/-- The scalar five. -/
def five : Float32 := Float32.ofBits 0x40a00000

/-- With the default epsilon the root of a constant vector is not zero, so no output is a NaN. -/
theorem normalizes_of_validate_constant :
    let a := bareArchive Network.Config.defaultEpsilon
    let xs := [five, five]
    a.validate = .ok () ∧ (squares (mean xs) xs).isFinite = true ∧
      Normalizes a.header.epsilon xs [one, zero] [zero, one] ∧
      ¬ (sqrt (radicand a.header.epsilon xs) == zero) = true := by
  intro a xs
  have hvalid : a.validate = .ok () := by decide +kernel
  have hsquares : (squares (mean xs) xs).isFinite = true := by decide +kernel
  have hnormalizes : Normalizes a.header.epsilon xs [one, zero] [zero, one] :=
    normalizes_of_validate Arithmetic.isBinary32_binary32 hvalid (List.cons_ne_nil _ _) (by decide)
      rfl rfl (by decide) (by decide) hsquares
  refine ⟨hvalid, hsquares, hnormalizes, fun hroot => ?_⟩
  exact absurd (hnormalizes.root_eq_zero_iff.1 hroot).2 (by decide)

/-- **With an epsilon of zero, which is valid, constant vectors are normalized to NaNs.** -/
theorem isNaN_normalize_constant :
    let a := bareArchive zero
    let xs := [five, five, five]
    let gamma := [one, one, one]
    let beta := [zero, zero, zero]
    a.validate = .ok () ∧ (∀ x ∈ xs ++ gamma ++ beta, x.isFinite = true) ∧
      (∀ before ∈ xs.inits, (sum before).isFinite = true ∧
        (squares (mean xs) before).isFinite = true) ∧
      (sqrt (radicand a.header.epsilon xs) == zero) = true ∧
      ∀ y ∈ normalize xs gamma beta a.header.epsilon, y.isNaN = true := by
  decide +kernel

end PolicyValue
