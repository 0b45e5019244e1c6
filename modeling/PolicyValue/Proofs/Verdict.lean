import PolicyValue.Proofs.Report
import PolicyValue.Proofs.ValueRange

/-!
# Verdicts and errors

A verification passes when no output diverges, and it also says how far the outputs are off.  The
two agree but in one case: an infinity that is recorded and given again is no divergence, while its
error is the difference of two equal infinities, a NaN, and so counts as infinite.

* `Comparison.diverges_eq_false_iff`: what is no divergence, by the error;
* `Comparison.Saturated`: the case in which the two disagree;
* `verify_verdict`: a verification passes exactly if all errors are within their tolerances but
  those of equal infinities;
* `verify_saturated`: an overflowing score that passes with an infinite error.
-/

namespace PolicyValue

open Scalar (zero one infinity negInfinity level)

/-! ## Differences and equality -/

namespace Scalar

open Float.Model Float.Model.UnpackedFloat

/-- Scalars are equal if they are numbers of the same level. -/
theorem beq_iff_level {x y : Float32} :
    (x == y) = true ↔ x.isNaN = false ∧ y.isNaN = false ∧ level x = level y := by
  have hmodel : (x == y) = true ↔
      (x.toModel.unpack.compare y.toModel.unpack == some .eq) = true := Iff.rfl
  rw [hmodel, isNaN_eq_false_iff, isNaN_eq_false_iff, beq_iff_eq]
  constructor
  · intro h
    have hx : x.toModel.unpack ≠ .notANumber := by
      intro hx
      rw [hx] at h
      cases h
    have hy : y.toModel.unpack ≠ .notANumber := by
      intro hy
      rw [hy] at h
      cases hx : x.toModel.unpack <;> rw [hx] at h <;> cases h
    rw [compare_eq (decoded x) (decoded y) hx hy, Option.some_inj, Int.compare_eq_eq] at h
    exact ⟨hx, hy, h⟩
  · rintro ⟨hx, hy, h⟩
    rw [compare_eq (decoded x) (decoded y) hx hy, Option.some_inj, Int.compare_eq_eq]
    exact h

/-- A number is finite or an infinity. -/
theorem isFinite_or_infinite {x : Float32} (h : x.isNaN = false) :
    x.isFinite = true ∨ x = infinity ∨ x = negInfinity := by
  rw [isNaN_eq_false_iff] at h
  rw [← exists_unpack_eq_infinity_iff]
  have hmodel : x.isFinite = x.toModel.unpack.isFinite := rfl
  rw [hmodel]
  generalize x.toModel.unpack = u at h ⊢
  cases u with
  | notANumber => exact absurd rfl h
  | infinity s => exact .inr ⟨s, rfl⟩
  | zero s => exact .inl rfl
  | finite s m e pos => exact .inl rfl

/-- What equals a finite scalar is no distance away from it. -/
theorem sub_of_beq {x y : Float32} (heq : (x == y) = true) (hx : x.isFinite = true) :
    (x - y).isNaN = false ∧ level (x - y) = 0 := by
  obtain ⟨hnx, hny, hlevel⟩ := beq_iff_level.1 heq
  have hy : y.isFinite = true :=
    isFinite_iff_level.2 ⟨hny, hlevel ▸ (isFinite_iff_level.1 hx).2⟩
  constructor
  · rw [Bool.eq_false_iff, Ne, isNaN_sub_iff_of_finite hy, hnx]
    exact Bool.false_ne_true
  · rw [level_sub hx hy, hlevel, Int.sub_self, rounded_zero]

/-- What equals an infinity is this infinity. -/
theorem eq_of_beq_infinite {x y : Float32} (heq : (x == y) = true)
    (hx : x = infinity ∨ x = negInfinity) : y = x := by
  obtain ⟨-, hny, hlevel⟩ := beq_iff_level.1 heq
  have hoverflow := overflow_pos
  have hinfinity : level infinity = overflow := rfl
  have hnegInfinity : level negInfinity = -(overflow : Int) := rfl
  -- finite scalars have lesser levels, and the two infinities have different ones
  rcases isFinite_or_infinite hny with hfinite | rfl | rfl
  · have hsmall := (isFinite_iff_level.1 hfinite).2
    rcases hx with rfl | rfl <;> omega
  · rcases hx with rfl | rfl
    · rfl
    · omega
  · rcases hx with rfl | rfl
    · omega
    · rfl

/-- An admissible tolerance is at least zero, and infinity is beyond it. -/
theorem Admissible.zero_le {t : Float32} (h : Admissible t) : zero ≤ t :=
  le_of_not_lt (by decide) (isNaN_of_isFinite h.1) h.2

theorem Admissible.not_infinity_le {t : Float32} (h : Admissible t) : ¬ infinity ≤ t := by
  intro hle
  have hlevel := (le_iff_level (by decide) (isNaN_of_isFinite h.1)).1 hle
  have hsmall := (isFinite_iff_level.1 h.1).2
  have hinfinity : level infinity = overflow := rfl
  omega

end Scalar

namespace Verification

/-! ## One comparison -/

namespace Comparison

/-- Both outputs are the same infinity. -/
def Saturated (c : Comparison) : Prop :=
  (c.expected = infinity ∧ c.actual = infinity) ∨
    (c.expected = negInfinity ∧ c.actual = negInfinity)

/-- A saturated comparison is one of equal outputs. -/
theorem Saturated.beq {c : Comparison} (h : c.Saturated) : (c.expected == c.actual) = true := by
  rcases h with ⟨hexpected, hactual⟩ | ⟨hexpected, hactual⟩
  · rw [hexpected, hactual]
    decide
  · rw [hexpected, hactual]
    decide

variable [Arithmetic]

/-- The error of a saturated comparison is infinite. -/
theorem Saturated.error_eq (hsub : ∀ x y : Float32, sub x y = x - y) {c : Comparison}
    (h : c.Saturated) : c.error = infinity := by
  have hnan : c.distance.isNaN = true := by
    rw [distance, hsub, Scalar.isNaN_abs, Scalar.isNaN_sub_iff]
    exact .inr (.inr h)
  rw [error, if_pos hnan]

/-- Equal outputs are no distance apart unless they are saturated. -/
theorem distance_le_of_beq (hsub : ∀ x y : Float32, sub x y = x - y) {c : Comparison}
    (ht : Scalar.Admissible c.tolerance) (heq : (c.expected == c.actual) = true) :
    c.distance ≤ c.tolerance ∨ c.Saturated := by
  rcases Scalar.isFinite_or_infinite (Scalar.beq_iff_level.1 heq).1 with hfinite | hinfinite
  · left
    obtain ⟨hnumber, hlevel⟩ := Scalar.sub_of_beq heq hfinite
    obtain ⟨htolerance, hnonneg⟩ := Scalar.zero_le_iff_level.1 ht.zero_le
    rw [distance, hsub, Scalar.le_iff_level ((Scalar.isNaN_abs _).trans hnumber) htolerance,
      Scalar.level_abs, hlevel]
    exact hnonneg
  · right
    have hactual : c.actual = c.expected := Scalar.eq_of_beq_infinite heq hinfinite
    exact hinfinite.imp (fun h => ⟨h, hactual.trans h⟩) fun h => ⟨h, hactual.trans h⟩

/-- An error is within an admissible tolerance exactly if the distance is. -/
theorem error_le_iff {c : Comparison} (ht : Scalar.Admissible c.tolerance) :
    c.error ≤ c.tolerance ↔ c.distance ≤ c.tolerance := by
  unfold error
  split
  next hnan =>
    refine iff_of_false ht.not_infinity_le fun hle => ?_
    rw [(Scalar.not_isNaN_of_le hle).1] at hnan
    exact Bool.false_ne_true hnan
  next => rfl

/-- A saturated comparison has its error beyond every admissible tolerance. -/
theorem Saturated.not_error_le (hsub : ∀ x y : Float32, sub x y = x - y) {c : Comparison}
    (h : c.Saturated) (ht : Scalar.Admissible c.tolerance) : ¬ c.error ≤ c.tolerance := by
  rw [h.error_eq hsub]
  exact ht.not_infinity_le

/-- **Outputs do not diverge exactly if their error is within the tolerance or they are the same
infinity.** -/
theorem diverges_eq_false_iff (hsub : ∀ x y : Float32, sub x y = x - y) {c : Comparison}
    (ht : Scalar.Admissible c.tolerance) :
    c.diverges = false ↔ c.error ≤ c.tolerance ∨ c.Saturated := by
  have hdiverges : c.diverges = false ↔
      c.distance ≤ c.tolerance ∨ (c.expected == c.actual) = true := by
    rw [diverges, Bool.and_eq_false_iff, Bool.not_eq_false', decide_eq_true_iff, Bool.not_eq_false']
  rw [hdiverges, error_le_iff ht]
  constructor
  · rintro (hle | heq)
    · exact .inl hle
    · exact distance_le_of_beq hsub ht heq
  · rintro (hle | hsaturated)
    · exact .inl hle
    · exact .inr hsaturated.beq

/-- Equal finite outputs have no error. -/
theorem error_eq_zero (hsub : ∀ x y : Float32, sub x y = x - y) {c : Comparison}
    (heq : c.actual = c.expected) (hfinite : c.expected.isFinite = true) : c.error = zero := by
  have hdistance : c.distance = zero := by
    rw [distance, hsub, heq, Scalar.sub_self hfinite]
    decide
  rw [error, hdistance, if_neg (by decide)]

end Comparison

/-! ## All comparisons -/

/-- The slots of one group have its tolerance. -/
theorem tolerance_of_mem_compareSlots {output : Nat → Output} {tolerance : Float32} {slot : Nat}
    {expected actual : List Float32} {c : Comparison}
    (hc : c ∈ compareSlots output tolerance slot expected actual) : c.tolerance = tolerance := by
  induction expected generalizing slot actual with
  | nil => cases actual <;> exact nomatch hc
  | cons e expected ih =>
    cases actual with
    | nil => exact nomatch hc
    | cons a actual =>
      rcases List.mem_cons.1 hc with rfl | hc
      · rfl
      · exact ih hc

/-- The tolerances of some settings are finite and not negative. -/
structure Settings.Admissible (s : Settings) : Prop where
  /-- That of the scores. -/
  score : Scalar.Admissible s.scoreTolerance
  /-- That of the value. -/
  value : Scalar.Admissible s.valueTolerance
  /-- That of the probabilities. -/
  policy : Scalar.Admissible s.policyTolerance

/-- The tolerances unless told otherwise are admissible. -/
theorem Settings.admissible_default : Settings.default.Admissible :=
  ⟨⟨by decide, by decide⟩, ⟨by decide, by decide⟩, ⟨by decide, by decide⟩⟩

/-- Each comparison has the tolerance of its group. -/
theorem Settings.Admissible.of_mem {v : TestVector} {scored : ScoredBatch} {prediction : Prediction}
    {settings : Settings} (h : settings.Admissible) {c : Comparison}
    (hc : c ∈ allComparisons v scored prediction settings) : Scalar.Admissible c.tolerance := by
  rcases List.mem_append.1 hc with hc | hc
  · exact tolerance_of_mem_compareSlots hc ▸ h.score
  · rcases List.mem_cons.1 hc with rfl | hc
    · exact h.value
    · exact tolerance_of_mem_compareSlots hc ▸ h.policy

section

variable [Arithmetic]

/-- The greatest error is within a bound exactly if all errors are. -/
theorem greatestError_le_iff {cs : List Comparison} {t : Float32} (ht : zero ≤ t) :
    greatestError cs ≤ t ↔ ∀ c ∈ cs, c.error ≤ t := by
  by_cases hcs : cs = []
  · subst hcs
    exact iff_of_true ht fun _ hc => nomatch hc
  · obtain ⟨hmem, hgreatest⟩ := isGreatestOf_greatestError hcs
    constructor
    · intro hle c hc
      exact Scalar.le_trans (hgreatest c.error (List.mem_map_of_mem hc)) hle
    · intro hall
      obtain ⟨c, hc, heq⟩ := List.mem_map.1 hmem
      rw [← heq]
      exact hall c hc

/-- The errors of a report are within the tolerances. -/
structure Report.Within (r : Report) (s : Settings) : Prop where
  /-- The greatest error of a score. -/
  score : r.scoreError ≤ s.scoreTolerance
  /-- The error of the value. -/
  value : r.valueError ≤ s.valueTolerance
  /-- The greatest error of a probability. -/
  policy : r.policyError ≤ s.policyTolerance

section

variable {v : TestVector} {scored : ScoredBatch} {prediction : Prediction} {settings : Settings}

/-- The errors of a report are within the tolerances exactly if those of all comparisons are. -/
theorem Report.within_ofOutputs_iff (h : settings.Admissible) :
    (ofOutputs v scored prediction settings).Within settings ↔
      ∀ c ∈ allComparisons v scored prediction settings, c.error ≤ c.tolerance := by
  have hgroup : ∀ {output : Nat → Output} {t : Float32} {slot : Nat}
      {expected actual : List Float32}, Scalar.Admissible t →
      (greatestError (compareSlots output t slot expected actual) ≤ t ↔
        ∀ c ∈ compareSlots output t slot expected actual, c.error ≤ c.tolerance) := by
    intro output t slot expected actual ht
    rw [greatestError_le_iff ht.zero_le]
    exact forall₂_congr fun c hc => by rw [tolerance_of_mem_compareSlots hc]
  rw [allComparisons, List.forall_mem_append, List.forall_mem_cons, ← hgroup h.score,
    ← hgroup h.policy]
  constructor
  · intro hr
    exact ⟨hr.score, hr.value, hr.policy⟩
  · rintro ⟨hscore, hvalue, hpolicy⟩
    exact ⟨hscore, hvalue, hpolicy⟩

/-- A report passes exactly if no comparison diverges. -/
theorem Report.passed_ofOutputs_iff : (ofOutputs v scored prediction settings).passed = true ↔
    ∀ c ∈ allComparisons v scored prediction settings, c.diverges = false := by
  have hdivergences : (ofOutputs v scored prediction settings).divergences =
      (allComparisons v scored prediction settings).filterMap Comparison.divergence? := rfl
  rw [passed, hdivergences, List.isEmpty_iff, filterMap_divergence?, List.map_eq_nil_iff,
    List.filter_eq_nil_iff]
  exact forall₂_congr fun c _ => Bool.eq_false_iff.symm

end

/-! ## Exact replays -/

/-- All errors of a report are zero. -/
def Report.Errorless (r : Report) : Prop :=
  r.scoreError = zero ∧ r.valueError = zero ∧ r.policyError = zero

/-- A greatest error is zero if all errors are. -/
theorem greatestError_eq_zero {cs : List Comparison} (h : ∀ c ∈ cs, c.error = zero) :
    greatestError cs = zero := by
  by_cases hcs : cs = []
  · rw [hcs]
    rfl
  · obtain ⟨c, hc, heq⟩ := List.mem_map.1 (isGreatestOf_greatestError hcs).1
    rw [← heq, h c hc]

/-- An exact replay of outputs that are no NaNs has no errors exactly if all outputs are finite. -/
theorem Report.errorless_ofSelf_iff (hsub : ∀ x y : Float32, sub x y = x - y) {v : TestVector}
    (settings : Settings) (hv : v.NaNFree) :
    (ofSelf v settings).Errorless ↔ ∀ x ∈ v.outputs, x.isFinite = true := by
  constructor
  · rintro ⟨hscore, hvalue, hpolicy⟩ x hx
    have hzero : zero ≤ zero := by decide
    have herrors : ∀ c ∈ v.selfComparisons settings, c.error ≤ zero := by
      rw [TestVector.selfComparisons, List.forall_mem_append, List.forall_mem_cons,
        ← greatestError_le_iff hzero, ← greatestError_le_iff hzero]
      exact ⟨hscore ▸ hzero, hvalue ▸ hzero, hpolicy ▸ hzero⟩
    obtain ⟨c, hc, rfl⟩ := TestVector.exists_mem_of_mem settings hx
    obtain ⟨-, heq⟩ := TestVector.mem_outputs_of_mem hc
    rcases Scalar.isFinite_or_infinite (hv _ hx) with hfinite | hinfinite
    · exact hfinite
    · have hsaturated : c.Saturated :=
        hinfinite.imp (fun h => ⟨h, heq.trans h⟩) fun h => ⟨h, heq.trans h⟩
      have hle := herrors c hc
      rw [hsaturated.error_eq hsub] at hle
      exact absurd hle (by decide)
  · intro h
    have herrors : ∀ c ∈ v.selfComparisons settings, c.error = zero := by
      intro c hc
      obtain ⟨hmem, heq⟩ := TestVector.mem_outputs_of_mem hc
      exact Comparison.error_eq_zero hsub heq (h c.expected hmem)
    rw [TestVector.selfComparisons, List.forall_mem_append, List.forall_mem_cons] at herrors
    obtain ⟨hscores, hvalue, hpolicy⟩ := herrors
    exact ⟨greatestError_eq_zero hscores, hvalue, greatestError_eq_zero hpolicy⟩

/-! ## The verdict -/

/-- **The verdict and the errors agree but for infinities that are recorded and given again.**  Take
a sound test vector and tolerances that are finite and not negative.  A model passes exactly if
every error is within its tolerance or of two equal infinities; so the greatest errors are within
the tolerances exactly if the model passes and no two outputs compared are the same infinity.  A
model that gives the recorded outputs again, none of them a NaN, passes, and has no errors exactly
if all of them are finite.  Of the arithmetic it is used that `sub` is the difference of scalars. -/
theorem verify_verdict (hsub : ∀ x y : Float32, sub x y = x - y) (m : Model) {v : TestVector}
    {settings : Settings} (hsettings : settings.Admissible) {state : StateVector}
    {batch : ActionBatch} (hinputs : v.inputs = .ok (state, batch)) :
    ∃ scored prediction report cs, Evaluator.score m state batch = .ok scored ∧
      Evaluator.policy m state batch = .ok prediction ∧ verify m v settings = .ok report ∧
      Comparisons v scored prediction settings cs ∧
      (report.passed = true ↔ ∀ c ∈ cs, c.error ≤ c.tolerance ∨ c.Saturated) ∧
      (report.Within settings ↔ report.passed = true ∧ ∀ c ∈ cs, ¬ c.Saturated) ∧
      (v.NaNFree → scored.scores = v.scores → scored.value = v.value →
        prediction.policy = v.policy → report.passed = true ∧
          (report.Errorless ↔ ∀ x ∈ v.outputs, x.isFinite = true)) := by
  obtain ⟨scored, prediction, hscored, hprediction, hverify, hcomparisons, -⟩ :=
    verify_summarizes m settings hinputs
  have hpassed : (Report.ofOutputs v scored prediction settings).passed = true ↔
      ∀ c ∈ allComparisons v scored prediction settings,
        c.error ≤ c.tolerance ∨ c.Saturated := by
    rw [Report.passed_ofOutputs_iff]
    exact forall₂_congr fun c hc => Comparison.diverges_eq_false_iff hsub (hsettings.of_mem hc)
  refine ⟨scored, prediction, _, _, hscored, hprediction, hverify, hcomparisons, hpassed, ?_, ?_⟩
  · rw [Report.within_ofOutputs_iff hsettings, hpassed, ← forall₂_and]
    refine forall₂_congr fun c hc => ⟨fun hle => ⟨.inl hle, fun hsaturated => ?_⟩,
      fun h => h.1.resolve_right h.2⟩
    exact hsaturated.not_error_le hsub (hsettings.of_mem hc) hle
  · intro hv hscores hvalue hpolicy
    have hself : Report.ofOutputs v scored prediction settings = Report.ofSelf v settings := by
      rw [Report.ofSelf, Report.ofOutputs, Report.ofOutputs, hscores, hvalue, hpolicy]
    rw [hself]
    exact ⟨Report.passed_ofSelf settings hv, Report.errorless_ofSelf_iff hsub settings hv⟩

end

/-! ## A score beyond the greatest scalar -/

/-- An archive whose two scoring layers give a great scalar and multiply it by itself; its value is
zero. -/
def overflowingArchive : Archive where
  header :=
    { version := archiveVersion
      stateSize := stateSize.toUInt64
      actionSize := actionSize.toUInt64
      graph := .ofList [(stateEncoder, []), (actionEncoder, []),
        (actionScorer, [.affine "s1", .affine "s2"]), (valueHead, [.affine "v"])]
      epsilon := Network.Config.defaultEpsilon }
  parameters := .ofList [
    ("s1", .affine (List.replicate (stateSize + actionSize) [zero]) [Network.great]),
    ("s2", .affine [[Network.great]] [zero]),
    ("v", .affine (List.replicate stateSize [zero]) [zero])]

/-- The outputs of this archive, recorded. -/
def overflowing : TestVector :=
  ⟨(StateVector.constant zero).values, [(ActionVector.constant zero).values], [infinity], zero,
    [zero]⟩

set_option maxRecDepth 2000 in
/-- The archive gives these outputs. -/
theorem score_overflowing : (Executor.ofArchive overflowingArchive >>= fun e =>
    e.score (.constant zero) (.single (.constant zero))) =
      .ok ⟨overflowing.scores, overflowing.value⟩ := by
  decide +kernel

/-- None of the outputs is a NaN. -/
theorem nanFree_overflowing : overflowing.NaNFree := by
  have houtputs : overflowing.outputs = [infinity, zero, zero] := rfl
  rw [TestVector.NaNFree, houtputs]
  decide

/-- The recorded inputs are those of the outputs. -/
theorem inputs_overflowing :
    overflowing.inputs = .ok (.constant zero, .single (.constant zero)) := by
  have hvector : overflowing =
      TestVector.ofScored (.constant zero) (.single (.constant zero)) ⟨[infinity], zero⟩ := rfl
  rw [hvector]
  exact TestVector.inputs_ofScored rfl rfl

/-- The replay of these outputs passes, and has an error. -/
theorem verify_verdict_overflowing : ∃ e, Executor.ofArchive overflowingArchive = .ok e ∧
    Settings.default.Admissible ∧ ∃ report, verify e overflowing Settings.default = .ok report ∧
      report.passed = true ∧ ¬ report.Errorless := by
  obtain ⟨e, he, hscore⟩ := bind_eq_ok.1 score_overflowing
  obtain ⟨scored, prediction, report, cs, hscored, hprediction, hverify, -, -, -, hreplay⟩ :=
    verify_verdict (fun _ _ => rfl) (.executor e overflowingArchive he)
      Settings.admissible_default inputs_overflowing
  obtain rfl := Except.ok.inj (hscored.symm.trans hscore)
  obtain rfl := Except.ok.inj (hprediction.symm.trans (Evaluator.policy_eq_ok hscored))
  obtain ⟨hpassed, herrorless⟩ := hreplay nanFree_overflowing rfl rfl rfl
  refine ⟨e, he, Settings.admissible_default, report, hverify, hpassed, fun hzero => ?_⟩
  exact absurd (herrorless.1 hzero infinity (.head _)) (by decide)

set_option maxRecDepth 2000 in
/-- **A verification can pass with an error beyond every tolerance**: an exact replay of a score
that overflows, none of whose outputs is a NaN. -/
theorem verify_saturated : ∃ e, Executor.ofArchive overflowingArchive = .ok e ∧
    overflowing.NaNFree ∧ Settings.default.Admissible ∧
    e.score (.constant zero) (.single (.constant zero)) =
      .ok ⟨overflowing.scores, overflowing.value⟩ ∧
    ∃ report, verify e overflowing Settings.default = .ok report ∧ report.passed = true ∧
      report.scoreError = infinity ∧ ¬ report.scoreError ≤ Settings.default.scoreTolerance := by
  have hverify : (Executor.ofArchive overflowingArchive >>= fun e =>
      verify e overflowing Settings.default) = .ok ⟨infinity, zero, zero, []⟩ := by
    decide +kernel
  obtain ⟨e, he, hscore⟩ := bind_eq_ok.1 score_overflowing
  rw [he, ok_bind] at hverify
  exact ⟨e, he, nanFree_overflowing, Settings.admissible_default, hscore, _, hverify, rfl, rfl,
    by decide⟩

end Verification

end PolicyValue
