import PolicyValue.Proofs.Monotone
import PolicyValue.Proofs.Slotwise
import PolicyValue.Scalar.Binary32

/-!
# Verification reports are exact

Verifying a model fails only on a test vector that is not sound.  Otherwise every recorded output is
compared with the model's, and the report holds the comparisons that fail, in order, and the
greatest error of each group.  Nothing is assumed of the arithmetic: an absolute value is never
negative, whatever difference it is taken of.

* `Comparisons`: the comparisons of a replay, one for each output;
* `Report.Summarizes`: a report that says of some comparisons what holds of them;
* `verify_exact`: a report is about all comparisons and says nothing else.
-/

namespace PolicyValue

open Scalar (zero infinity le_refl)

namespace Scalar

open Float.Model Float.Model.UnpackedFloat

/-- An absolute value stands for the absolute number of quanta. -/
theorem level_abs (x : Float32) : level x.abs = (level x).natAbs := by
  have happly : ∀ (s : Sign) (n : Nat), (n : Int) = (s.apply n).natAbs := by
    intro s n
    cases s <;> simp only [Sign.apply] <;> omega
  have habs : ∀ {u : UnpackedFloat}, Decoded u →
      Decoded u.abs ∧ levelOf u.abs = (levelOf u).natAbs := by
    intro u hu
    cases hu with
    | notANumber => exact ⟨.notANumber, rfl⟩
    | infinity s => exact ⟨.infinity _, happly s _⟩
    | zero s => exact ⟨.zero _, rfl⟩
    | finite s h cap => exact ⟨.finite _ h cap, happly s _⟩
  obtain ⟨hdecoded, hlevel⟩ := habs (decoded x)
  exact hdecoded.level_pack.trans hlevel

/-- An absolute value is a NaN exactly if it is one of a NaN. -/
theorem isNaN_abs (x : Float32) : x.abs.isNaN = x.isNaN := by
  have habs : ∀ u : UnpackedFloat, u.abs = .notANumber ↔ u = .notANumber := by
    intro u
    cases u <;> simp [UnpackedFloat.abs]
  rw [Bool.eq_iff_iff, isNaN_iff_unpack (x := x), ← habs]
  exact isNaN_ofModel_pack

/-- An absolute value is nonnegative unless it is a NaN. -/
theorem zero_le_abs {x : Float32} (h : x.abs.isNaN = false) : zero ≤ x.abs := by
  rw [zero_le_iff_level, level_abs]
  exact ⟨h, Int.natCast_nonneg _⟩

end Scalar

namespace Verification

/-! ## Replays -/

/-- A sound vector has an action, and a score and a probability for each. -/
theorem TestVector.lengths_of_inputs {v : TestVector} {state : StateVector} {batch : ActionBatch}
    (h : v.inputs = .ok (state, batch)) : 0 < v.actions.length ∧ batch.size = v.actions.length ∧
      v.scores.length = v.actions.length ∧ v.policy.length = v.actions.length := by
  obtain ⟨state', -, h⟩ := bind_eq_ok.1 h
  obtain ⟨actions, hactions, h⟩ := bind_eq_ok.1 h
  have hlength : v.actions.length = actions.length := (mapM_eq_ok.1 hactions).length_eq
  dsimp only at h
  have hscores : v.scores.length = actions.length := by
    by_contra hne
    rw [if_pos hne] at h
    exact nomatch h
  rw [if_neg (not_not_intro hscores)] at h
  have hpolicy : v.policy.length = actions.length := by
    by_contra hne
    rw [if_pos hne] at h
    exact nomatch h
  rw [if_neg (not_not_intro hpolicy)] at h
  obtain ⟨batch', hbatch, h⟩ := bind_eq_ok.1 h
  obtain ⟨rfl, rfl⟩ := Prod.mk.inj (pure_eq_ok.1 h)
  have hsize : batch'.size = actions.length := by
    rw [ActionBatch.size, ActionBatch.actions_of_allValid hbatch]
  have hpos : 0 < batch'.size := by
    rw [ActionBatch.size, ← batch'.length_mask]
    exact List.length_pos_of_mem batch'.mem_mask
  omega

section

variable [Arithmetic]

/-- A model that scores the inputs of a vector has a report. -/
theorem verify_of_inputs {ε : Type} [Evaluator ε] {model : ε} {v : TestVector}
    (settings : Settings) {state : StateVector} {batch : ActionBatch} {scored : ScoredBatch}
    (hinputs : v.inputs = .ok (state, batch))
    (hmodel : Evaluator.score model state batch = .ok scored) :
    verify model v settings = .ok (Report.ofOutputs v scored
      ⟨maskedSoftmax scored.scores, scored.value⟩ settings) :=
  bind_eq_ok.2 ⟨(state, batch), hinputs, bind_eq_ok.2 ⟨scored, hmodel,
    bind_eq_ok.2 ⟨_, Evaluator.policy_eq_ok hmodel, rfl⟩⟩⟩

/-- **Verifying a model fails exactly on a vector that is not sound**, and with the vector's
error. -/
theorem verify_eq_error_iff (m : Model) (v : TestVector) (settings : Settings) (e : Error) :
    verify m v settings = .error e ↔ v.inputs = .error e := by
  cases hinputs : v.inputs with
  | error e' =>
    have hverify : verify m v settings = .error e' := by
      rw [verify, hinputs]
      rfl
    rw [hverify, Except.error.injEq, Except.error.injEq]
  | ok inputs =>
    obtain ⟨state, batch⟩ := inputs
    obtain ⟨score, value, hscore⟩ := m.exists_scoring state
    rw [verify_of_inputs settings hinputs (hscore batch)]
    exact iff_of_false nofun nofun

end

/-! ## Comparisons of slots -/

/-- The comparisons of two lists are as many as the lists have in common. -/
theorem length_compareSlots (output : Nat → Output) (tolerance : Float32) (slot : Nat)
    (expected actual : List Float32) :
    (compareSlots output tolerance slot expected actual).length =
      min expected.length actual.length := by
  induction expected generalizing slot actual with
  | nil => cases actual <;> rfl
  | cons e expected ih =>
    cases actual with
    | nil => rfl
    | cons a actual =>
      rw [compareSlots, List.length_cons, ih, List.length_cons, List.length_cons,
        Nat.add_min_add_right]

/-- A slot is compared with the same slot. -/
theorem getElem?_compareSlots (output : Nat → Output) (tolerance : Float32) (slot : Nat)
    {expected actual : List Float32} {i : Nat} {e a : Float32} (he : expected[i]? = some e)
    (ha : actual[i]? = some a) :
    (compareSlots output tolerance slot expected actual)[i]? =
      some ⟨output (slot + i), e, a, tolerance⟩ := by
  induction expected generalizing slot actual i with
  | nil => exact nomatch he
  | cons e' expected ih =>
    cases actual with
    | nil => exact nomatch ha
    | cons a' actual =>
      cases i with
      | zero =>
        obtain rfl := Option.some.inj he
        obtain rfl := Option.some.inj ha
        rfl
      | succ i =>
        rw [compareSlots, List.getElem?_cons_succ, ih (slot + 1) he ha, Nat.add_right_comm]
        rfl

/-- The slots that are compared are numbered from the first on. -/
theorem map_output_compareSlots (output : Nat → Output) (tolerance : Float32) (slot : Nat)
    (expected actual : List Float32) :
    (compareSlots output tolerance slot expected actual).map Comparison.output =
      (List.range' slot (min expected.length actual.length)).map output := by
  induction expected generalizing slot actual with
  | nil => cases actual <;> rfl
  | cons e expected ih =>
    cases actual with
    | nil => rfl
    | cons a actual =>
      rw [compareSlots, List.map_cons, ih, List.length_cons, List.length_cons,
        Nat.add_min_add_right, List.range'_succ, List.map_cons]

/-! ## Names of outputs -/

/-- Numbers have different decimal forms. -/
theorem repr_injective : Function.Injective Nat.repr := by
  intro m n h
  rw [Nat.repr_eq_ofList_toDigits, Nat.repr_eq_ofList_toDigits, String.ofList_inj] at h
  calc m = Nat.ofDigitChars 10 (Nat.toDigits 10 m) 0 := Nat.ofDigitChars_ten_toDigits.symm
    _ = Nat.ofDigitChars 10 (Nat.toDigits 10 n) 0 := by rw [h]
    _ = n := Nat.ofDigitChars_ten_toDigits

/-- The names of slots of one group differ. -/
theorem slotName_injective (before after : String) :
    Function.Injective fun slot : Nat => before ++ slot.repr ++ after := by
  intro i j h
  exact repr_injective ((String.append_right_inj _).1 ((String.append_left_inj _).1 h))

/-- The first letter of an output's name, which differs from group to group. -/
def Output.initial : Output → Char
  | .score _ => 's'
  | .value => 'v'
  | .policy _ => 'p'

theorem Output.head?_name (o : Output) : o.name.toList.head? = some o.initial := by
  cases o with
  | score i =>
    rw [name, String.toList_append, String.toList_append]
    rfl
  | value => rfl
  | policy i =>
    rw [name, String.toList_append, String.toList_append]
    rfl

/-- **Outputs have different names.** -/
theorem Output.name_injective : Function.Injective Output.name := by
  intro a b h
  have hinitial : a.initial = b.initial := by
    rw [← Option.some_inj, ← head?_name, ← head?_name, h]
  cases a with
  | score i =>
    cases b with
    | score j => rw [slotName_injective "scores[" "]" h]
    | value => exact absurd hinitial (show 's' ≠ 'v' by decide)
    | policy j => exact absurd hinitial (show 's' ≠ 'p' by decide)
  | value =>
    cases b with
    | score j => exact absurd hinitial (show 'v' ≠ 's' by decide)
    | value => rfl
    | policy j => exact absurd hinitial (show 'v' ≠ 'p' by decide)
  | policy i =>
    cases b with
    | score j => exact absurd hinitial (show 'p' ≠ 's' by decide)
    | value => exact absurd hinitial (show 'p' ≠ 'v' by decide)
    | policy j => rw [slotName_injective "policy[" "]" h]

/-! ## All comparisons -/

/-- What is compared in a replay: a recorded output and the model's for every slot and the value,
scores first and probabilities last, each with the tolerance of its group. -/
structure Comparisons (v : TestVector) (scored : ScoredBatch) (prediction : Prediction)
    (settings : Settings) (cs : List Comparison) : Prop where
  /-- Two comparisons for each action, and one for the value. -/
  length : cs.length = 2 * v.actions.length + 1
  /-- The scores come first. -/
  scores : ∀ i < v.actions.length, ∃ e a, v.scores[i]? = some e ∧ scored.scores[i]? = some a ∧
    cs[i]? = some ⟨.score i, e, a, settings.scoreTolerance⟩
  /-- The value comes after the scores. -/
  value : cs[v.actions.length]? = some ⟨.value, v.value, scored.value, settings.valueTolerance⟩
  /-- The probabilities come after the value. -/
  policy : ∀ i < v.actions.length, ∃ e a, v.policy[i]? = some e ∧ prediction.policy[i]? = some a ∧
    cs[v.actions.length + 1 + i]? = some ⟨.policy i, e, a, settings.policyTolerance⟩

/-- The comparisons of a model's outputs, in order. -/
def allComparisons (v : TestVector) (scored : ScoredBatch) (prediction : Prediction)
    (settings : Settings) : List Comparison :=
  compareSlots .score settings.scoreTolerance 0 v.scores scored.scores ++
    ⟨.value, v.value, scored.value, settings.valueTolerance⟩ ::
      compareSlots .policy settings.policyTolerance 0 v.policy prediction.policy

/-- Outputs of the right numbers are all compared. -/
theorem comparisons_allComparisons {v : TestVector} {scored : ScoredBatch}
    {prediction : Prediction} (settings : Settings)
    (hscores : v.scores.length = v.actions.length)
    (hscores' : scored.scores.length = v.actions.length)
    (hpolicy : v.policy.length = v.actions.length)
    (hpolicy' : prediction.policy.length = v.actions.length) :
    Comparisons v scored prediction settings (allComparisons v scored prediction settings) := by
  have hlength : (compareSlots .score settings.scoreTolerance 0 v.scores scored.scores).length =
      v.actions.length := by
    rw [length_compareSlots, hscores, hscores', Nat.min_self]
  have hlength' : (compareSlots .policy settings.policyTolerance 0 v.policy
      prediction.policy).length = v.actions.length := by
    rw [length_compareSlots, hpolicy, hpolicy', Nat.min_self]
  have hslot : ∀ {xs : List Float32}, xs.length = v.actions.length → ∀ i < v.actions.length,
      ∃ x, xs[i]? = some x := fun {xs} hxs i hi =>
    ⟨_, List.getElem?_eq_getElem (hxs.symm ▸ hi)⟩
  refine ⟨?_, fun i hi => ?_, ?_, fun i hi => ?_⟩
  · rw [allComparisons, List.length_append, List.length_cons, hlength, hlength']
    omega
  · obtain ⟨e, he⟩ := hslot hscores i hi
    obtain ⟨a, ha⟩ := hslot hscores' i hi
    refine ⟨e, a, he, ha, ?_⟩
    rw [allComparisons, List.getElem?_append_left (by omega), getElem?_compareSlots _ _ _ he ha,
      Nat.zero_add]
  · rw [allComparisons, List.getElem?_append_right (by omega), hlength, Nat.sub_self,
      List.getElem?_cons_zero]
  · obtain ⟨e, he⟩ := hslot hpolicy i hi
    obtain ⟨a, ha⟩ := hslot hpolicy' i hi
    refine ⟨e, a, he, ha, ?_⟩
    have hindex : v.actions.length + 1 + i - v.actions.length = i + 1 := by omega
    rw [allComparisons, List.getElem?_append_right (by omega), hlength, hindex,
      List.getElem?_cons_succ, getElem?_compareSlots _ _ _ he ha, Nat.zero_add]

/-- No output is compared twice. -/
theorem nodup_allComparisons (v : TestVector) (scored : ScoredBatch) (prediction : Prediction)
    (settings : Settings) :
    ((allComparisons v scored prediction settings).map fun c => c.output.name).Nodup := by
  have hnames : ((allComparisons v scored prediction settings).map Comparison.output).Nodup := by
    rw [allComparisons, List.map_append, List.map_cons, map_output_compareSlots,
      map_output_compareSlots]
    have hslots : ∀ n, (List.range' 0 n).Nodup := fun n => List.nodup_range'
    refine List.nodup_append.2 ⟨(hslots _).map fun _ _ => Output.score.inj,
      List.nodup_cons.2 ⟨?_, (hslots _).map fun _ _ => Output.policy.inj⟩, ?_⟩
    · rw [List.mem_map]
      rintro ⟨i, -, heq⟩
      exact nomatch heq
    · intro x hx y hy heq
      obtain ⟨i, -, rfl⟩ := List.mem_map.1 hx
      rcases List.mem_cons.1 hy with rfl | hy
      · exact nomatch heq
      · obtain ⟨j, -, rfl⟩ := List.mem_map.1 hy
        exact nomatch heq
  have hmap : (allComparisons v scored prediction settings).map (fun c => c.output.name) =
      ((allComparisons v scored prediction settings).map Comparison.output).map Output.name := by
    rw [List.map_map]
    rfl
  rw [hmap]
  exact hnames.map Output.name_injective

/-! ## Errors -/

/-- A scalar that is the greatest of a list. -/
def IsGreatestOf (x : Float32) (xs : List Float32) : Prop := x ∈ xs ∧ ∀ y ∈ xs, y ≤ x

section

variable [Arithmetic]

/-- Errors are nonnegative numbers. -/
theorem Comparison.zero_le_error (c : Comparison) : zero ≤ c.error := by
  unfold error
  split
  next => decide
  next hnumber => exact Scalar.zero_le_abs (Bool.eq_false_iff.2 hnumber)

/-- The greatest error is the greatest of the errors, if there are any. -/
theorem isGreatestOf_greatestError {cs : List Comparison} (h : cs ≠ []) :
    IsGreatestOf (greatestError cs) (cs.map Comparison.error) := by
  obtain ⟨c, rest, rfl⟩ := List.exists_cons_of_ne_nil h
  have hfirst : larger zero c.error = c.error := by
    have hnumber := (Scalar.not_isNaN_of_le c.zero_le_error).2
    have hle := (Scalar.le_iff_level (by decide) hnumber).1 c.zero_le_error
    have hnot : ¬ c.error < zero := fun hlt =>
      Int.not_lt.2 hle ((Scalar.lt_iff_level hnumber (by decide)).1 hlt)
    rw [larger, if_neg (by decide), if_neg (Bool.eq_false_iff.1 hnumber), if_neg hnot]
  have hgreatest : greatest? ((c :: rest).map Comparison.error) =
      some (greatestError (c :: rest)) := by
    rw [greatestError, List.foldl_cons, hfirst, List.map_cons, greatest?, List.foldl_map]
  refine ⟨mem_of_greatest? hgreatest, le_of_greatest? ?_ hgreatest⟩
  exact List.forall_mem_map.2 fun c _ => (Scalar.not_isNaN_of_le c.zero_le_error).2

/-- A report that says of some comparisons, with the value between the scores and the probabilities
of `n` actions, what holds of them. -/
structure Report.Summarizes (r : Report) (n : Nat) (cs : List Comparison) : Prop where
  /-- The divergences are the comparisons of outputs that neither lie within the tolerance nor are
  equal, each with its name. -/
  divergences : r.divergences = (cs.filter fun c =>
      !decide ((sub c.expected c.actual).abs ≤ c.tolerance) && !(c.expected == c.actual)).map
    fun c => ⟨c.output.name, c.expected, c.actual, c.tolerance⟩
  /-- No output is listed twice. -/
  once : (r.divergences.map Divergence.output).Nodup
  /-- The error of the scores is the greatest distance of two of them, a NaN being infinite. -/
  scoreError : IsGreatestOf r.scoreError ((cs.take n).map fun c =>
    if (sub c.expected c.actual).abs.isNaN then infinity else (sub c.expected c.actual).abs)
  /-- The error of the value is the distance of the two, a NaN being infinite. -/
  valueError : ∃ c, cs[n]? = some c ∧ r.valueError =
    if (sub c.expected c.actual).abs.isNaN then infinity else (sub c.expected c.actual).abs
  /-- The error of the probabilities is the greatest distance of two of them, a NaN being infinite. -/
  policyError : IsGreatestOf r.policyError ((cs.drop (n + 1)).map fun c =>
    if (sub c.expected c.actual).abs.isNaN then infinity else (sub c.expected c.actual).abs)

/-- The divergences are the comparisons that fail. -/
theorem filterMap_divergence? (cs : List Comparison) : cs.filterMap Comparison.divergence? =
    (cs.filter Comparison.diverges).map
      fun c => ⟨c.output.name, c.expected, c.actual, c.tolerance⟩ := by
  induction cs with
  | nil => rfl
  | cons c cs ih =>
    cases h : c.diverges with
    | true =>
      have hdivergence :
          c.divergence? = some ⟨c.output.name, c.expected, c.actual, c.tolerance⟩ := by
        rw [Comparison.divergence?, if_pos h]
      rw [List.filterMap_cons_some hdivergence, List.filter_cons_of_pos h, List.map_cons, ih]
    | false =>
      have hdivergence : c.divergence? = none := by
        rw [Comparison.divergence?, if_neg (Bool.eq_false_iff.1 h)]
      rw [List.filterMap_cons_none hdivergence, List.filter_cons_of_neg (Bool.eq_false_iff.1 h), ih]

/-- A report on outputs of the right numbers summarizes their comparisons. -/
theorem summarizes_ofOutputs {v : TestVector} {scored : ScoredBatch}
    {prediction : Prediction} (settings : Settings) {n : Nat} (hpos : 0 < n)
    (hscores : v.scores.length = n) (hscores' : scored.scores.length = n)
    (hpolicy : v.policy.length = n) (hpolicy' : prediction.policy.length = n) :
    (Report.ofOutputs v scored prediction settings).Summarizes n
      (allComparisons v scored prediction settings) := by
  have hlength : (compareSlots .score settings.scoreTolerance 0 v.scores scored.scores).length =
      n := by
    rw [length_compareSlots, hscores, hscores', Nat.min_self]
  have hlength' : (compareSlots .policy settings.policyTolerance 0 v.policy
      prediction.policy).length = n := by
    rw [length_compareSlots, hpolicy, hpolicy', Nat.min_self]
  have hdivergences := filterMap_divergence? (allComparisons v scored prediction settings)
  refine ⟨hdivergences, ?_, ?_, ?_, ?_⟩
  · show ((List.filterMap _ (allComparisons v scored prediction settings)).map _).Nodup
    rw [hdivergences, List.map_map]
    exact (nodup_allComparisons v scored prediction settings).sublist
      (List.filter_sublist.map _)
  · rw [allComparisons, List.take_left' hlength]
    exact isGreatestOf_greatestError (List.ne_nil_of_length_pos (by omega))
  · refine ⟨⟨.value, v.value, scored.value, settings.valueTolerance⟩, ?_, rfl⟩
    rw [allComparisons, List.getElem?_append_right (by omega), hlength, Nat.sub_self]
    rfl
  · have hdrop : (allComparisons v scored prediction settings).drop (n + 1) =
        compareSlots .policy settings.policyTolerance 0 v.policy prediction.policy := by
      rw [allComparisons, ← List.drop_drop, List.drop_left' hlength]
      rfl
    rw [hdrop]
    exact isGreatestOf_greatestError (List.ne_nil_of_length_pos (by omega))

/-- Verifying a model on a sound vector compares all outputs and sums the comparisons up. -/
theorem verify_summarizes (m : Model) {v : TestVector} (settings : Settings) {state : StateVector}
    {batch : ActionBatch} (hinputs : v.inputs = .ok (state, batch)) :
    ∃ scored prediction, Evaluator.score m state batch = .ok scored ∧
      Evaluator.policy m state batch = .ok prediction ∧
      verify m v settings = .ok (Report.ofOutputs v scored prediction settings) ∧
      Comparisons v scored prediction settings (allComparisons v scored prediction settings) ∧
      (Report.ofOutputs v scored prediction settings).Summarizes v.actions.length
        (allComparisons v scored prediction settings) := by
  obtain ⟨hpos, hsize, hscores, hpolicy⟩ := TestVector.lengths_of_inputs hinputs
  obtain ⟨score, value, hscore⟩ := m.exists_scoring state
  have hscored := hscore batch
  generalize hvalues : batch.slots.map (slotScore score) = scores at hscored
  have hscores' : scores.length = v.actions.length := by
    rw [← hvalues, List.length_map, batch.length_slots, hsize]
  have hpolicy' : (maskedSoftmax scores).length = v.actions.length :=
    (length_maskedSoftmax scores).trans hscores'
  exact ⟨_, _, hscored, Evaluator.policy_eq_ok hscored,
    verify_of_inputs settings hinputs hscored,
    comparisons_allComparisons settings hscores hscores' hpolicy hpolicy',
    summarizes_ofOutputs settings hpos hscores hscores' hpolicy hpolicy'⟩

/-- **A report is exact.**  Verifying a model fails exactly on a test vector that is not sound, with
the vector's error.  Otherwise the model scores the vector's inputs, every recorded output is
compared with the model's, and the report summarizes these comparisons. -/
theorem verify_exact (m : Model) (v : TestVector) (settings : Settings) :
    (∀ e, verify m v settings = .error e ↔ v.inputs = .error e) ∧
    ∀ state batch, v.inputs = .ok (state, batch) → ∃ scored prediction report cs,
      Evaluator.score m state batch = .ok scored ∧
      Evaluator.policy m state batch = .ok prediction ∧
      verify m v settings = .ok report ∧ Comparisons v scored prediction settings cs ∧
      report.Summarizes v.actions.length cs := by
  refine ⟨verify_eq_error_iff m v settings, fun state batch hinputs => ?_⟩
  obtain ⟨scored, prediction, hscored, hprediction, hverify, hcomparisons, hreport⟩ :=
    verify_summarizes m settings hinputs
  exact ⟨scored, prediction, _, _, hscored, hprediction, hverify, hcomparisons, hreport⟩

end

/-- A vector whose score is a NaN. -/
def unscorable : TestVector :=
  ⟨(StateVector.constant zero).values, [(ActionVector.constant zero).values], [Float32.nan], zero,
    [zero]⟩

/-- The report on an executor for a score that is a NaN: it does not pass, with an infinite error. -/
theorem verify_exact_sharedKernel : ∃ e, Executor.ofArchive sharedKernelArchive = .ok e ∧
    ∃ scored prediction report cs,
      verify e unscorable Settings.default = .ok report ∧
      Comparisons unscorable scored prediction Settings.default cs ∧ report.Summarizes 1 cs ∧
      report.scoreError = infinity := by
  obtain ⟨e, he, -⟩ := Executor.exists_ofArchive_of_wellTyped sharedKernelArchive_wellTyped
  have hvector : unscorable =
      TestVector.ofScored (.constant zero) (.single (.constant zero)) ⟨[Float32.nan], zero⟩ := rfl
  have hinputs : unscorable.inputs = .ok (.constant zero, .single (.constant zero)) := by
    rw [hvector]
    exact TestVector.inputs_ofScored rfl rfl
  obtain ⟨scored, prediction, report, cs, -, -, hverify, hcomparisons, hreport⟩ :=
    (verify_exact (.executor e sharedKernelArchive he) unscorable Settings.default).2 _ _ hinputs
  refine ⟨e, he, scored, prediction, report, cs, hverify, hcomparisons, hreport, ?_⟩
  obtain ⟨expected, actual, hexpected, -, hfirst⟩ := hcomparisons.scores 0 (by decide)
  obtain rfl : Float32.nan = expected := Option.some.inj hexpected
  rcases cs with _ | ⟨first, rest⟩
  · exact nomatch hfirst
  obtain rfl := Option.some.inj hfirst
  -- The score is the only one, so its error is the greatest.
  obtain ⟨c, hc, herror⟩ := List.mem_map.1 hreport.scoreError.1
  obtain rfl := List.mem_singleton.1 hc
  have hnan : (Float32.nan - actual).abs.isNaN = true := by
    rw [Scalar.isNaN_abs, Scalar.isNaN_sub_iff]
    exact .inl (by decide)
  rw [← herror]
  exact if_pos hnan

end Verification

end PolicyValue
