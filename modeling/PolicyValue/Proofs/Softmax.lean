import PolicyValue.Proofs.Monotone
import PolicyValue.Proofs.Padding

/-!
# The softmax as a policy

The greatest finite score has weight one, which bounds the sum of the weights from below.  Weights
of scores that are finite or negative infinity lie between zero and one; adding such weights up
stops at `2 ^ 24`, where one more changes nothing, so the sum is finite for any number of scores.

Of the exponential only what its use needs is assumed: that it is monotone, that it is one at zero
and nonnegative below, and that it keeps NaNs.

* `maskedSoftmax_isPolicy`: probabilities lie between zero and one, in the order of the scores;
* `maskedSoftmax_negInfinity`: what the probability of negative infinity is for any other scores.
-/

namespace PolicyValue

open Scalar (zero one negZero negInfinity le_refl le_trans isNaN_of_isFinite not_isNaN_of_le)

/-! ## The greatest finite score -/

/-- Without a finite score there is no greatest one. -/
theorem greatest?_eq_none {scores : List Float32} (h : ∀ s ∈ scores, s.isFinite = false) :
    greatest? (scores.filter Float32.isFinite) = none := by
  have hfilter : scores.filter Float32.isFinite = [] :=
    List.filter_eq_nil_iff.2 fun s hs => Bool.eq_false_iff.1 (h s hs)
  rw [hfilter]
  rfl

/-- **The greatest finite score is a finite score, and none is above it.** -/
theorem exists_top {scores : List Float32} (h : ∃ s ∈ scores, s.isFinite = true) :
    ∃ top, greatest? (scores.filter Float32.isFinite) = some top ∧ top ∈ scores ∧
      top.isFinite = true ∧ ∀ s ∈ scores, s.isFinite = true → s ≤ top := by
  obtain ⟨s, hs, hfinite⟩ := h
  have hmem : s ∈ scores.filter Float32.isFinite := List.mem_filter.2 ⟨hs, hfinite⟩
  obtain ⟨top, htop⟩ : ∃ top, greatest? (scores.filter Float32.isFinite) = some top := by
    cases hfilter : scores.filter Float32.isFinite with
    | nil =>
      rw [hfilter] at hmem
      exact nomatch hmem
    | cons s' rest => exact ⟨_, rfl⟩
  obtain ⟨hmemTop, hfiniteTop⟩ := List.mem_filter.1 (mem_of_greatest? htop)
  refine ⟨top, htop, hmemTop, hfiniteTop, fun s' hs' hfinite' => ?_⟩
  exact le_of_greatest? (fun x hx => isNaN_of_isFinite (List.mem_filter.1 hx).2) htop s'
    (List.mem_filter.2 ⟨hs', hfinite'⟩)

/-- Scores whose softmax is a policy: finite ones and negative infinities, with a greatest finite
one. -/
structure Normalizable (scores : List Float32) (top : Float32) : Prop where
  /-- It is the greatest finite score. -/
  greatest : greatest? (scores.filter Float32.isFinite) = some top
  /-- It is a score. -/
  mem : top ∈ scores
  /-- It is finite. -/
  finite : top.isFinite = true
  /-- No score is above it. -/
  le : ∀ s ∈ scores, s ≤ top
  /-- The scores are finite or negative infinity. -/
  masked : ∀ s ∈ scores, s.isFinite = true ∨ s = negInfinity

/-- Scores that are finite or negative infinity have a greatest finite one as soon as one is
finite. -/
theorem exists_normalizable {scores : List Float32}
    (hscores : ∀ s ∈ scores, s.isFinite = true ∨ s = negInfinity)
    (hsome : ∃ s ∈ scores, s.isFinite = true) : ∃ top, Normalizable scores top := by
  obtain ⟨top, htop, hmem, hfinite, hgreatest⟩ := exists_top hsome
  refine ⟨top, htop, hmem, hfinite, fun s hs => ?_, hscores⟩
  rcases hscores s hs with hs' | rfl
  · exact hgreatest s hs hs'
  · exact Scalar.negInfinity_le (isNaN_of_isFinite hfinite)

/-! ## An exponential with one step -/

/-- Binary32 arithmetic with an exponential that is zero below zero and one from there on. -/
@[reducible]
def Arithmetic.stepped : Arithmetic :=
  { Arithmetic.binary32 with
    exp := fun x => if x.isNaN then x else if x < zero then zero else one }

/-- A NaN stays one. -/
theorem Arithmetic.isNaN_stepped {x : Float32} (h : x.isNaN = true) :
    (stepped.exp x).isNaN = true := by
  show (if x.isNaN then x else if x < zero then zero else one).isNaN = true
  rw [if_pos h, h]

/-- Numbers are taken to zero or one. -/
theorem Arithmetic.stepped_exp {x : Float32} (h : x.isNaN = false) :
    stepped.exp x = if x < zero then zero else one := by
  show (if x.isNaN then x else if x < zero then zero else one) = _
  rw [if_neg (Bool.eq_false_iff.1 h)]

theorem Arithmetic.stepped_nonneg {x : Float32} (h : x.isNaN = false) :
    zero ≤ stepped.exp x := by
  rw [stepped_exp h]
  split <;> decide

/-- A step keeps the order. -/
theorem Arithmetic.stepped_mono {x y : Float32} (h : x ≤ y) : stepped.exp x ≤ stepped.exp y := by
  obtain ⟨hx, hy⟩ := not_isNaN_of_le h
  rw [stepped_exp hx, stepped_exp hy]
  by_cases hneg : x < zero
  · rw [if_pos hneg]
    split <;> decide
  · have hneg' : ¬ y < zero := by
      rw [Scalar.lt_iff_level hx (by decide)] at hneg
      rw [Scalar.lt_iff_level hy (by decide)]
      exact fun hlt => hneg (Int.lt_of_le_of_lt ((Scalar.le_iff_level hx hy).1 h) hlt)
    rw [if_neg hneg, if_neg hneg']
    decide

/-- The greatest and the least finite scalar, whose difference overflows, and negative infinity. -/
def extremes : List Float32 := [Float32.ofBits 0x7f7fffff, Float32.ofBits 0xff7fffff, negInfinity]

/-! ## Weights -/

/-- Only negative infinity equals negative infinity. -/
theorem beq_negInfinity_iff {x : Float32} : (x == negInfinity) = true ↔ x = negInfinity := by
  constructor
  · intro h
    have hcompare : (x.toModel.unpack.compare (.infinity .negative) == some .eq) = true := h
    rw [← Scalar.unpack_eq_negInfinity_iff]
    generalize x.toModel.unpack = u at hcompare ⊢
    cases u with
    | notANumber => exact nomatch hcompare
    | infinity s =>
      cases s with
      | negative => rfl
      | positive => exact nomatch hcompare
    | zero s => exact nomatch hcompare
    | finite s m e pos => cases s <;> exact nomatch hcompare
  · rintro rfl
    decide

/-- No finite score is below negative infinity. -/
theorem not_le_negInfinity {s : Float32} (hs : s.isFinite = true) : ¬ s ≤ negInfinity := by
  intro hle
  have hlevel := (Scalar.le_iff_level (isNaN_of_isFinite hs) (by decide)).1 hle
  have hsmall := (Scalar.isFinite_iff_level.1 hs).2
  have hnegInfinity : Scalar.level negInfinity = -(Scalar.overflow : Int) := rfl
  omega

section

variable [Arithmetic]

/-- The weight of a score other than negative infinity. -/
theorem weightOf_eq {top s : Float32} (h : s ≠ negInfinity) :
    weightOf top s = exp (sub s top) := by
  rw [weightOf, if_neg (mt beq_negInfinity_iff.1 h)]

/-- The softmax of scores with a greatest finite one. -/
theorem maskedSoftmax_eq_map {scores : List Float32} {top : Float32}
    (h : greatest? (scores.filter Float32.isFinite) = some top) :
    maskedSoftmax scores =
      scores.map fun s => div (weightOf top s) (sum (scores.map (weightOf top))) := by
  rw [maskedSoftmax, h]
  dsimp only
  rw [List.map_map]
  rfl

/-- The greatest finite score has weight one. -/
theorem weightOf_top (hsub : ∀ x y : Float32, sub x y = x - y) (hexpZero : exp zero = one)
    {top : Float32} (htop : top.isFinite = true) : weightOf top top = one := by
  have hne : top ≠ negInfinity := by
    rintro rfl
    exact absurd htop (by decide)
  rw [weightOf_eq hne, hsub, Scalar.sub_self htop, hexpZero]

/-- The weight of a number is nonnegative. -/
theorem weightOf_nonneg (hsub : ∀ x y : Float32, sub x y = x - y)
    (hexpNonneg : ∀ x : Float32, x.isNaN = false → zero ≤ exp x) {top s : Float32}
    (htop : top.isFinite = true) (hs : s.isNaN = false) : zero ≤ weightOf top s := by
  by_cases hpadding : s = negInfinity
  · rw [hpadding, weightOf_negInfinity]
    decide
  · rw [weightOf_eq hpadding, hsub]
    refine hexpNonneg _ ?_
    rw [Bool.eq_false_iff, Ne, Scalar.isNaN_sub_iff_of_finite htop, hs]
    exact Bool.false_ne_true

/-- The weight of a NaN is one. -/
theorem isNaN_weightOf (hsub : ∀ x y : Float32, sub x y = x - y)
    (hexpNaN : ∀ x : Float32, x.isNaN = true → (exp x).isNaN = true) {top s : Float32}
    (htop : top.isFinite = true) (hs : s.isNaN = true) : (weightOf top s).isNaN = true := by
  have hne : s ≠ negInfinity := by
    rintro rfl
    exact absurd hs (by decide)
  rw [weightOf_eq hne, hsub]
  exact hexpNaN _ ((Scalar.isNaN_sub_iff_of_finite htop).2 hs)

/-- **Greater scores have greater weights**, as far as they are finite or negative infinity. -/
theorem weightOf_mono (hsub : ∀ x y : Float32, sub x y = x - y)
    (hexpMono : ∀ x y : Float32, x ≤ y → exp x ≤ exp y)
    (hexpNonneg : ∀ x : Float32, x ≤ zero → zero ≤ exp x) {top s t : Float32}
    (htop : top.isFinite = true) (hs : s.isFinite = true ∨ s = negInfinity)
    (ht : t.isFinite = true ∨ t = negInfinity) (hst : s ≤ t) (hle : t ≤ top) :
    weightOf top s ≤ weightOf top t := by
  have hne : ∀ {x : Float32}, x.isFinite = true → x ≠ negInfinity := by
    rintro x hx rfl
    exact absurd hx (by decide)
  rcases ht with ht | rfl
  · rcases hs with hs | rfl
    · rw [weightOf_eq (hne hs), weightOf_eq (hne ht), hsub, hsub]
      exact hexpMono _ _ (Scalar.sub_le_sub hs ht htop hst)
    · have hdifference : t - top ≤ zero := by
        rw [← Scalar.sub_self htop]
        exact Scalar.sub_le_sub ht htop htop hle
      rw [weightOf_negInfinity, weightOf_eq (hne ht), hsub]
      exact hexpNonneg _ hdifference
  · rcases hs with hs | rfl
    · exact absurd hst (not_le_negInfinity hs)
    · rw [weightOf_negInfinity]
      decide

/-! ## Sums of weights -/

/-- **No nonnegative term is above the sum.** -/
theorem le_sum (hadd : ∀ x y : Float32, add x y = x + y) {terms : List Float32}
    (h : ∀ t ∈ terms, zero ≤ t) : zero ≤ sum terms ∧ ∀ t ∈ terms, t ≤ sum terms := by
  induction terms using List.reverseRecOn with
  | nil => exact ⟨(show zero ≤ zero by decide), nofun⟩
  | append_singleton terms t ih =>
    obtain ⟨hsum, hterms⟩ := ih fun t' ht' => h t' (List.mem_append_left _ ht')
    have ht : zero ≤ t := h t (List.mem_append_right _ (.head _))
    obtain ⟨hle, hle'⟩ := Scalar.le_add hsum ht
    rw [sum_concat, hadd]
    refine ⟨le_trans hsum hle, fun t' ht' => ?_⟩
    rcases List.mem_append.1 ht' with hbefore | hlast
    · exact le_trans (hterms t' hbefore) hle
    · obtain rfl := List.mem_singleton.1 hlast
      exact hle'

/-- The scalar `2 ^ 24`, from which on adding one changes nothing. -/
def saturation : Float32 := Float32.ofBits 0x4b800000

/-- **A sum of any number of terms between zero and one stops at `2 ^ 24`.** -/
theorem sum_le_saturation (hadd : ∀ x y : Float32, add x y = x + y) {terms : List Float32}
    (h : ∀ t ∈ terms, zero ≤ t ∧ t ≤ one) : sum terms ≤ saturation := by
  induction terms using List.reverseRecOn with
  | nil => exact (show zero ≤ saturation by decide)
  | append_singleton terms t ih =>
    have hterms : ∀ t' ∈ terms, zero ≤ t' ∧ t' ≤ one :=
      fun t' ht' => h t' (List.mem_append_left _ ht')
    have hsum : sum terms ≤ saturation := ih hterms
    obtain ⟨hzero, hone⟩ := h t (List.mem_append_right _ (.head _))
    have hfinite : (sum terms).isFinite = true :=
      Scalar.isFinite_of_le (le_sum hadd fun t' ht' => (hterms t' ht').1).1 hsum (by decide)
    have hlast : t.isFinite = true := Scalar.isFinite_of_le hzero hone (by decide)
    rw [sum_concat, hadd]
    have hstep : sum terms + t ≤ saturation + one :=
      Scalar.add_le_add hfinite (by decide) hlast (by decide) hsum hone
    have hsame : saturation + one = saturation := by decide +kernel
    rwa [hsame] at hstep

/-- Terms that are zero change no sum but that of negative zeros. -/
theorem foldl_add_of_eq_zero (hadd : ∀ x y : Float32, add x y = x + y) {terms : List Float32}
    (h : ∀ t ∈ terms, t = zero) {acc : Float32} (hacc : acc ≠ negZero) :
    terms.foldl add acc = acc := by
  induction terms with
  | nil => rfl
  | cons t terms ih =>
    obtain rfl : t = zero := h t (.head _)
    rw [List.foldl_cons, hadd, Scalar.add_zero_eq_self hacc]
    exact ih fun t' ht' => h t' (.tail _ ht')

/-- A sum with one term other than zero, which is one. -/
theorem sum_eq_one (hadd : ∀ x y : Float32, add x y = x + y) {before after : List Float32}
    (hbefore : ∀ t ∈ before, t = zero) (hafter : ∀ t ∈ after, t = zero) :
    sum (before ++ one :: after) = one := by
  have hone : zero + one = one := by decide +kernel
  rw [sum, List.foldl_append, List.foldl_cons, foldl_add_of_eq_zero hadd hbefore (by decide), hadd,
    hone]
  exact foldl_add_of_eq_zero hadd hafter (by decide)

/-! ## Policies -/

/-- Probabilities for scores: numbers between zero and one, in the order of the scores, and all of
it on the finite score if there is only one. -/
structure IsPolicy (scores policy : List Float32) : Prop where
  /-- There is one probability per score. -/
  length : policy.length = scores.length
  /-- No probability is a NaN. -/
  number : ∀ p ∈ policy, p.isNaN = false
  /-- Probabilities lie between zero and one. -/
  range : ∀ p ∈ policy, zero ≤ p ∧ p ≤ one
  /-- A greater score has a greater probability. -/
  order : ∀ {i j : Nat} {s t p q : Float32}, scores[i]? = some s → scores[j]? = some t →
    policy[i]? = some p → policy[j]? = some q → s ≤ t → p ≤ q
  /-- The only finite score has probability one, all others have zero. -/
  single : ∀ {before after : List Float32} {s : Float32}, scores = before ++ s :: after →
    s.isFinite = true → (∀ t ∈ before ++ after, t.isFinite = false) →
    policy = before.map (fun _ => zero) ++ one :: after.map fun _ => zero

namespace Normalizable

variable {scores : List Float32} {top : Float32}

/-- Weights lie between zero and one. -/
theorem weight_mem (h : Normalizable scores top) (hsub : ∀ x y : Float32, sub x y = x - y)
    (hexpMono : ∀ x y : Float32, x ≤ y → exp x ≤ exp y) (hexpZero : exp zero = one)
    (hexpNonneg : ∀ x : Float32, x ≤ zero → zero ≤ exp x) :
    ∀ s ∈ scores, zero ≤ weightOf top s ∧ weightOf top s ≤ one := by
  intro s hs
  have hle : s ≤ top := h.le s hs
  constructor
  · rw [← weightOf_negInfinity top]
    exact weightOf_mono hsub hexpMono hexpNonneg h.finite (.inr rfl) (h.masked s hs)
      (Scalar.negInfinity_le (not_isNaN_of_le hle).1) hle
  · rw [← weightOf_top hsub hexpZero h.finite]
    exact weightOf_mono hsub hexpMono hexpNonneg h.finite (h.masked s hs) (.inl h.finite) hle
      (le_refl (isNaN_of_isFinite h.finite))

/-- **The denominator is finite and at least one**, and no weight is above it. -/
theorem total_mem (h : Normalizable scores top) (hadd : ∀ x y : Float32, add x y = x + y)
    (hsub : ∀ x y : Float32, sub x y = x - y) (hexpZero : exp zero = one)
    (hweights : ∀ s ∈ scores, zero ≤ weightOf top s ∧ weightOf top s ≤ one) :
    (sum (scores.map (weightOf top))).isFinite = true ∧ one ≤ sum (scores.map (weightOf top)) ∧
      ∀ s ∈ scores, weightOf top s ≤ sum (scores.map (weightOf top)) := by
  have hrange : ∀ w ∈ scores.map (weightOf top), zero ≤ w ∧ w ≤ one :=
    List.forall_mem_map.2 hweights
  obtain ⟨hnonneg, hterms⟩ := le_sum hadd fun w hw => (hrange w hw).1
  refine ⟨Scalar.isFinite_of_le hnonneg (sum_le_saturation hadd hrange) (by decide), ?_,
    List.forall_mem_map.1 hterms⟩
  exact hterms one (List.mem_map.2 ⟨top, h.mem, weightOf_top hsub hexpZero h.finite⟩)

/-- A score that is not finite is padding, of weight zero. -/
theorem weightOf_of_not_isFinite (h : Normalizable scores top) {s : Float32} (hs : s ∈ scores)
    (hinfinite : s.isFinite = false) : weightOf top s = zero := by
  rcases h.masked s hs with hfinite | rfl
  · rw [hinfinite] at hfinite
    exact nomatch hfinite
  · exact weightOf_negInfinity top

omit [Arithmetic] in
/-- The greatest score is the finite one if there is only one. -/
theorem top_of_single (h : Normalizable scores top) {before after : List Float32} {s : Float32}
    (hsplit : scores = before ++ s :: after) (hrest : ∀ t ∈ before ++ after, t.isFinite = false) :
    top = s := by
  have hmem := h.mem
  rw [hsplit, List.mem_append, List.mem_cons] at hmem
  rcases hmem with hbefore | heq | hafter
  · exact absurd h.finite (Bool.eq_false_iff.1 (hrest top (List.mem_append_left _ hbefore)))
  · exact heq
  · exact absurd h.finite (Bool.eq_false_iff.1 (hrest top (List.mem_append_right _ hafter)))

/-- With one finite score the denominator is one, and the weights are the probabilities. -/
theorem policy_of_single (h : Normalizable scores top) (hadd : ∀ x y : Float32, add x y = x + y)
    (hsub : ∀ x y : Float32, sub x y = x - y) (hdiv : ∀ x y : Float32, div x y = x / y)
    (hexpZero : exp zero = one) {before after : List Float32} {s : Float32}
    (hsplit : scores = before ++ s :: after)
    (hrest : ∀ t ∈ before ++ after, t.isFinite = false) :
    maskedSoftmax scores = before.map (fun _ => zero) ++ one :: after.map fun _ => zero := by
  have hpadding : ∀ t ∈ before ++ after, weightOf top t = zero := by
    intro t ht
    have hmem : t ∈ before ++ s :: after :=
      (List.mem_append.1 ht).elim (List.mem_append_left _) fun hafter =>
        List.mem_append_right _ (.tail _ hafter)
    exact h.weightOf_of_not_isFinite (hsplit ▸ hmem) (hrest t ht)
  have hone : weightOf top s = one := by
    rw [← h.top_of_single hsplit hrest]
    exact weightOf_top hsub hexpZero h.finite
  have htotal : sum (scores.map (weightOf top)) = one := by
    rw [hsplit, List.map_append, List.map_cons, hone]
    refine sum_eq_one hadd ?_ ?_
    · exact List.forall_mem_map.2 fun t ht => hpadding t (List.mem_append_left _ ht)
    · exact List.forall_mem_map.2 fun t ht => hpadding t (List.mem_append_right _ ht)
  have hzeros : ∀ {part : List Float32}, (∀ t ∈ part, t ∈ before ++ after) →
      part.map (fun t => div (weightOf top t) one) = part.map fun _ => zero := by
    intro part hpart
    refine List.map_congr_left fun t ht => ?_
    rw [hpadding t (hpart t ht), hdiv]
    decide +kernel
  have hquotient : one / one = one := by decide +kernel
  rw [maskedSoftmax_eq_map h.greatest, htotal, hsplit, List.map_append, List.map_cons, hone, hdiv,
    hquotient, hzeros fun t ht => List.mem_append_left _ ht,
    hzeros fun t ht => List.mem_append_right _ ht]

end Normalizable

/-- **The masked softmax is a policy.**  If every score is finite or negative infinity and one is
finite, the denominator is finite and at least one, and the probabilities are a policy. -/
theorem maskedSoftmax_isPolicy (hadd : ∀ x y : Float32, add x y = x + y)
    (hsub : ∀ x y : Float32, sub x y = x - y) (hdiv : ∀ x y : Float32, div x y = x / y)
    (hexpMono : ∀ x y : Float32, x ≤ y → exp x ≤ exp y) (hexpZero : exp zero = one)
    (hexpNonneg : ∀ x : Float32, x ≤ zero → zero ≤ exp x) {scores : List Float32}
    (hscores : ∀ s ∈ scores, s.isFinite = true ∨ s = negInfinity)
    (hsome : ∃ s ∈ scores, s.isFinite = true) :
    ∃ top total, greatest? (scores.filter Float32.isFinite) = some top ∧
      total = sum (scores.map (weightOf top)) ∧
      maskedSoftmax scores = scores.map (fun s => div (weightOf top s) total) ∧
      total.isFinite = true ∧ one ≤ total ∧ IsPolicy scores (maskedSoftmax scores) := by
  obtain ⟨top, h⟩ := exists_normalizable hscores hsome
  have hweights := h.weight_mem hsub hexpMono hexpZero hexpNonneg
  obtain ⟨hfinite, hbelow, hterms⟩ := h.total_mem hadd hsub hexpZero hweights
  have hpos : zero < sum (scores.map (weightOf top)) :=
    Scalar.lt_of_lt_of_le (by decide) (by decide) hbelow
  have hsoftmax := maskedSoftmax_eq_map h.greatest
  have hrange : ∀ p ∈ maskedSoftmax scores, zero ≤ p ∧ p ≤ one := by
    rw [hsoftmax, List.forall_mem_map]
    intro s hs
    obtain ⟨hzero, hone⟩ := hweights s hs
    have hle := hterms s hs
    rw [hdiv]
    refine ⟨?_, Scalar.div_le_one hzero hle hpos hfinite⟩
    rw [← Scalar.zero_div hpos (isNaN_of_isFinite hfinite)]
    exact Scalar.div_le_div (by decide) hzero (Scalar.isFinite_of_le hzero hle hfinite) hpos hfinite
  refine ⟨top, _, h.greatest, rfl, hsoftmax, hfinite, hbelow, length_maskedSoftmax scores,
    fun p hp => (not_isNaN_of_le (hrange p hp).2).1, hrange, ?_, fun hsplit _ hrest =>
      h.policy_of_single hadd hsub hdiv hexpZero hsplit hrest⟩
  rw [hsoftmax]
  intro i j s t p q hs ht hp hq hst
  rw [List.getElem?_map, hs] at hp
  rw [List.getElem?_map, ht] at hq
  obtain rfl := Option.some.inj hp
  obtain rfl := Option.some.inj hq
  have hmem := List.mem_of_getElem? hs
  have hmem' := List.mem_of_getElem? ht
  show div _ _ ≤ div _ _
  rw [hdiv, hdiv]
  refine Scalar.div_le_div (hweights s hmem).1 ?_
    (Scalar.isFinite_of_le (hweights t hmem').1 (hterms t hmem') hfinite) hpos hfinite
  exact weightOf_mono hsub hexpMono hexpNonneg h.finite (h.masked s hmem) (h.masked t hmem') hst
    (h.le t hmem')

end

/-- The softmax of the extremes is a policy. -/
theorem maskedSoftmax_isPolicy_extremes :
    (∀ s ∈ extremes, s.isFinite = true ∨ s = negInfinity) ∧
      (∃ s ∈ extremes, s.isFinite = true) ∧ ∃ total : Float32,
      total = @sum .stepped (extremes.map (@weightOf .stepped (Float32.ofBits 0x7f7fffff))) ∧
      total.isFinite = true ∧ one ≤ total ∧
      IsPolicy extremes (@maskedSoftmax .stepped extremes) := by
  have hscores : ∀ s ∈ extremes, s.isFinite = true ∨ s = negInfinity := by decide
  have hsome : ∃ s ∈ extremes, s.isFinite = true := by decide
  obtain ⟨top, total, htop, htotal, -, hfinite, hone, hpolicy⟩ :=
    @maskedSoftmax_isPolicy .stepped (fun _ _ => rfl) (fun _ _ => rfl) (fun _ _ => rfl)
      (fun _ _ => Arithmetic.stepped_mono) (by decide)
      (fun _ hx => Arithmetic.stepped_nonneg (not_isNaN_of_le hx).1) _ hscores hsome
  have hgreatest : greatest? (extremes.filter Float32.isFinite) =
      some (Float32.ofBits 0x7f7fffff) := by decide +kernel
  obtain rfl := Option.some.inj (hgreatest.symm.trans htop)
  exact ⟨hscores, hsome, total, htotal, hfinite, hone, hpolicy⟩

/-! ## The probability of a masked slot -/

section

variable [Arithmetic]

/-- The sum of the weights is a NaN if a score is one. -/
theorem isNaN_sum_weights (hadd : ∀ x y : Float32, add x y = x + y)
    (hsub : ∀ x y : Float32, sub x y = x - y)
    (hexpNaN : ∀ x : Float32, x.isNaN = true → (exp x).isNaN = true) {scores : List Float32}
    {top : Float32} (htop : top.isFinite = true) (h : ∃ s ∈ scores, s.isNaN = true) :
    (sum (scores.map (weightOf top))).isNaN = true := by
  obtain ⟨s, hs, hnan⟩ := h
  exact (isNaN_sum_iff hadd).2
    (.inl ⟨_, List.mem_map_of_mem hs, isNaN_weightOf hsub hexpNaN htop hnan⟩)

/-- The sum of the weights is at least one if no score is a NaN. -/
theorem one_le_sum_weights (hadd : ∀ x y : Float32, add x y = x + y)
    (hsub : ∀ x y : Float32, sub x y = x - y)
    (hexpNonneg : ∀ x : Float32, x.isNaN = false → zero ≤ exp x) (hexpZero : exp zero = one)
    {scores : List Float32} {top : Float32} (hmem : top ∈ scores) (htop : top.isFinite = true)
    (h : ∀ s ∈ scores, s.isNaN = false) : one ≤ sum (scores.map (weightOf top)) := by
  have hweights : ∀ w ∈ scores.map (weightOf top), zero ≤ w :=
    List.forall_mem_map.2 fun s hs => weightOf_nonneg hsub hexpNonneg htop (h s hs)
  exact (le_sum hadd hweights).2 one (List.mem_map.2 ⟨top, hmem, weightOf_top hsub hexpZero htop⟩)

/-- **What negative infinity gets beside any other scores.**  Its probability is zero exactly if no
score is a NaN or none is finite; otherwise the sum of the weights is a NaN, and so is the
probability. -/
theorem maskedSoftmax_negInfinity (hadd : ∀ x y : Float32, add x y = x + y)
    (hsub : ∀ x y : Float32, sub x y = x - y) (hdiv : ∀ x y : Float32, div x y = x / y)
    (hexpNaN : ∀ x : Float32, x.isNaN = true → (exp x).isNaN = true)
    (hexpNonneg : ∀ x : Float32, x.isNaN = false → zero ≤ exp x) (hexpZero : exp zero = one)
    {scores : List Float32} {i : Nat} (h : scores[i]? = some negInfinity) :
    ∃ p, (maskedSoftmax scores)[i]? = some p ∧
      (p = zero ↔ (∀ s ∈ scores, s.isNaN = false) ∨ ∀ s ∈ scores, s.isFinite = false) ∧
      (p ≠ zero → p.isNaN = true) := by
  by_cases hsome : ∃ s ∈ scores, s.isFinite = true
  · obtain ⟨top, htop, hmem, hfinite, -⟩ := exists_top hsome
    have hprobability : (maskedSoftmax scores)[i]? =
        some (zero / sum (scores.map (weightOf top))) := by
      rw [maskedSoftmax_eq_map htop, List.getElem?_map, h, Option.map_some, weightOf_negInfinity,
        hdiv]
    refine ⟨_, hprobability, ?_⟩
    by_cases hnan : ∃ s ∈ scores, s.isNaN = true
    · have hquotient := Scalar.isNaN_div (x := zero)
        (isNaN_sum_weights hadd hsub hexpNaN hfinite hnan)
      obtain ⟨s, hs, hsNaN⟩ := hnan
      refine ⟨iff_of_false ?_ ?_, fun _ => hquotient⟩
      · intro hzero
        rw [hzero] at hquotient
        exact absurd hquotient (by decide)
      · rintro (hnumbers | hnone)
        · exact Bool.eq_false_iff.1 (hnumbers s hs) hsNaN
        · exact Bool.eq_false_iff.1 (hnone top hmem) hfinite
    · have hnumbers : ∀ s ∈ scores, s.isNaN = false := fun s hs =>
        Bool.eq_false_iff.2 fun hsNaN => hnan ⟨s, hs, hsNaN⟩
      have hone := one_le_sum_weights hadd hsub hexpNonneg hexpZero hmem hfinite hnumbers
      have hpos := Scalar.lt_of_lt_of_le (by decide) (show zero < one by decide) hone
      rw [Scalar.zero_div hpos (not_isNaN_of_le hone).2]
      exact ⟨iff_of_true rfl (.inl hnumbers), fun hne => absurd rfl hne⟩
  · have hnone : ∀ s ∈ scores, s.isFinite = false := fun s hs =>
      Bool.eq_false_iff.2 fun hs' => hsome ⟨s, hs, hs'⟩
    refine ⟨zero, ?_, iff_of_true rfl (.inr hnone), fun hne => absurd rfl hne⟩
    rw [maskedSoftmax, greatest?_eq_none hnone]
    dsimp only
    rw [List.getElem?_map, h, Option.map_some]

end

/-- Negative infinity beside the extremes has probability zero. -/
theorem maskedSoftmax_negInfinity_extremes : extremes[2]? = some negInfinity ∧
    (@maskedSoftmax .stepped extremes)[2]? = some zero := by
  have hmasked : extremes[2]? = some negInfinity := rfl
  obtain ⟨p, hp, hzero, -⟩ := @maskedSoftmax_negInfinity .stepped (fun _ _ => rfl) (fun _ _ => rfl)
    (fun _ _ => rfl) (fun _ => Arithmetic.isNaN_stepped) (fun _ => Arithmetic.stepped_nonneg)
    (by decide) extremes 2 hmasked
  have hnumbers : ∀ s ∈ extremes, s.isNaN = false := by decide
  rw [hzero.2 (.inl hnumbers)] at hp
  exact ⟨hmasked, hp⟩

/-- **Beside a NaN and a finite score negative infinity has a NaN for its probability.** -/
theorem maskedSoftmax_negInfinity_beside_nan :
    [Float32.nan, zero, negInfinity][2]? = some negInfinity ∧
      (@maskedSoftmax .stepped [Float32.nan, zero, negInfinity])[2]? = some Float32.nan ∧
      Float32.nan ≠ zero := by
  refine ⟨rfl, ?_, by decide⟩
  decide +kernel

end PolicyValue
