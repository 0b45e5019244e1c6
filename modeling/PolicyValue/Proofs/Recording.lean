import Mathlib
import PolicyValue.Proofs.Codec
import PolicyValue.Proofs.Shape
import PolicyValue.Proofs.Soundness
import PolicyValue.Verification.Report

/-!
# Recorded outputs, replayed

A test vector that was recorded from a model holds the model's own inputs and outputs.  Read back
from its text and replayed through a model with the same outputs it shows no divergence, whatever
the tolerances.

* `TestVector.ofString_toString`: the text of a vector, read back;
* `TestVector.record_eq_ok`: what a recorded vector is made of;
* `verify_ofScored`: its replay, which compares every output with itself;
* `Report.passed_ofSelf_iff`: it passes exactly if no output is a NaN.
-/

namespace PolicyValue

/-! ## NaNs -/

namespace Scalar

/-- A scalar is equal to itself unless it is a NaN. -/
theorem beq_self (x : Float32) : (x == x) = !x.isNaN := by
  rw [Float32.isNaN_eq_decide_eq_nan]
  by_cases h : x = Float32.nan
  · rw [decide_eq_true h, Float32.beq_self_eq_false_iff.2 h, Bool.not_true]
  · rw [decide_eq_false h, Float32.beq_self_iff.2 h, Bool.not_false]

/-- A finite scalar is no NaN. -/
theorem isNaN_of_isFinite {x : Float32} (h : x.isFinite = true) : x.isNaN = false := by
  rw [Float32.isNaN_eq_decide_eq_nan]
  refine decide_eq_false ?_
  rintro rfl
  revert h
  decide

/-- The distance of a NaN from itself is within no tolerance. -/
theorem not_distance_le {x : Float32} (h : x.isNaN = true) (tolerance : Float32) :
    ¬ (x - x).abs ≤ tolerance := by
  rw [Float32.isNaN_eq_decide_eq_nan] at h
  obtain rfl : x = Float32.nan := of_decide_eq_true h
  have hdistance : (Float32.nan - Float32.nan).abs = Float32.nan := by decide
  rw [hdistance]
  intro hle
  have hcompare : Float32.nan.toModel.unpack.compare tolerance.toModel.unpack = none := rfl
  have hsome : (Float32.nan.toModel.unpack.compare tolerance.toModel.unpack).any (·.isLE) = true :=
    hle
  rw [hcompare] at hsome
  cases hsome

end Scalar

/-! ## Batches without padding -/

namespace ActionBatch

/-- A batch without padding has the given actions. -/
theorem actions_of_allValid {actions : List ActionVector} {batch : ActionBatch}
    (h : allValid actions = .ok batch) : batch.actions = actions :=
  (ofActions_eq_ok.1 h).1

/-- Actions make a batch without padding if there are any. -/
theorem exists_allValid {actions : List ActionVector} (h : 0 < actions.length) :
    ∃ batch, allValid actions = .ok batch := by
  obtain ⟨action, rest, rfl⟩ := List.exists_cons_of_length_pos h
  have hmask : true ∈ (action :: rest).map fun _ => true := .head _
  exact ⟨_, by rw [allValid, ofActions, dif_pos (List.length_map _), dif_pos hmask]⟩

end ActionBatch

namespace Verification

open Sampling

/-! ## The text of a test vector -/

namespace TestVector

/-- The scalars of a test vector, as they are written. -/
def scalars (v : TestVector) : List Float32 :=
  v.state ++ (v.actions.flatten ++ (v.scores ++ v.value :: v.policy))

section

variable [ScalarText]

/-- Test vectors are read back if their scalars are finite. -/
theorem faithful : codec.Faithful scalars 3 := by
  have hscalars := Codec.faithful_scalars.mono (show 1 ≤ 2 by decide)
  have hscalar := Codec.faithful_scalar.mono (show 0 ≤ 2 by decide)
  have hfields : FaithfulFields 2 layout.fields _ _ :=
    .cons (hscalars.required _ _ _) (.cons (Codec.faithful_rows.required _ _ _)
      (.cons (hscalars.required _ _ _) (.cons (hscalar.required _ _ _)
        (.cons (hscalars.required _ _ _) .nil))))
  have hnames : ["state", "actions", "expected_scores", "expected_value",
      "expected_policy"].Nodup := by decide
  refine (Layout.faithful hfields hnames fun _ => rfl).congr fun v => ?_
  show v.state ++ (v.actions.flatten ++ (v.scores ++ ([v.value] ++ (v.policy ++ [])))) = _
  rw [List.append_nil]
  rfl

/-- The text of a test vector is read back, or refused if a scalar is not finite. -/
theorem ofString_toString {v : TestVector} (hv : ScalarText.ReadsBack v.scalars) :
    ofString v.toString =
      if Scalar.allFinite v.scalars then .ok v else .error (.json .mismatched) := by
  rw [ofString, toString, faithful.ofString_toString hv]
  cases Scalar.allFinite v.scalars <;> rfl

/-- A test vector is read back exactly if its scalars are finite. -/
theorem ofString_toString_eq_ok {v v' : TestVector} (hv : ScalarText.ReadsBack v.scalars) :
    ofString v.toString = .ok v' ↔ Scalar.allFinite v.scalars = true ∧ v' = v := by
  rw [ofString_toString hv]
  cases Scalar.allFinite v.scalars with
  | true => simp [eq_comm]
  | false => simp

end

/-! ## Recording -/

/-- What inputs drawn from a sampler are made of. -/
theorem drawInputs_eq_ok {σ : Type} {feature : Sampler σ Float32} {actions : Nat} {s : σ}
    {state : StateVector} {batch : ActionBatch} :
    drawInputs feature actions s = .ok (state, batch) ↔
      StateVector.ofList (draws feature stateSize s).1 = .ok state ∧ ∃ vectors,
        (draws (draws feature actionSize) actions (draws feature stateSize s).2).1.mapM
          ActionVector.ofList = .ok vectors ∧ ActionBatch.allValid vectors = .ok batch := by
  rw [drawInputs]
  -- The draws themselves are opaque here; unfolding them would run the sampler.
  generalize draws feature stateSize s = first
  obtain ⟨features, s⟩ := first
  dsimp only
  generalize draws (draws feature actionSize) actions s = second
  obtain ⟨rows, s⟩ := second
  constructor
  · intro h
    obtain ⟨state', hstate, h⟩ := bind_eq_ok.1 h
    obtain ⟨vectors, hvectors, h⟩ := bind_eq_ok.1 h
    obtain ⟨batch', hbatch, h⟩ := bind_eq_ok.1 h
    cases pure_eq_ok.1 h
    exact ⟨hstate, vectors, hvectors, hbatch⟩
  · rintro ⟨hstate, vectors, hvectors, hbatch⟩
    exact bind_eq_ok.2 ⟨state, hstate, bind_eq_ok.2 ⟨vectors, hvectors,
      bind_eq_ok.2 ⟨batch, hbatch, rfl⟩⟩⟩

/-- A batch that was drawn has no padding. -/
theorem allValid_of_drawInputs {σ : Type} {feature : Sampler σ Float32} {actions : Nat} {s : σ}
    {state : StateVector} {batch : ActionBatch}
    (h : drawInputs feature actions s = .ok (state, batch)) :
    ActionBatch.allValid batch.actions = .ok batch := by
  obtain ⟨-, vectors, -, hbatch⟩ := drawInputs_eq_ok.1 h
  rwa [ActionBatch.actions_of_allValid hbatch]

/-- Inputs can be drawn if there are actions. -/
theorem exists_drawInputs {σ : Type} (feature : Sampler σ Float32) {actions : Nat}
    (h : 0 < actions) (s : σ) :
    ∃ state batch, drawInputs feature actions s = .ok (state, batch) := by
  obtain ⟨state, hstate⟩ : ∃ state, StateVector.ofList (draws feature stateSize s).1 = .ok state :=
    ⟨_, dif_pos (length_draws feature stateSize s)⟩
  obtain ⟨vectors, hvectors⟩ : ∃ vectors, (draws (draws feature actionSize) actions
      (draws feature stateSize s).2).1.mapM ActionVector.ofList = .ok vectors :=
    exists_mapM_eq_ok_iff.2 fun row hrow =>
      ⟨_, dif_pos (length_of_mem_draws feature _ _ _ row hrow)⟩
  have hlength : 0 < vectors.length := by
    rw [← (mapM_eq_ok.1 hvectors).length_eq, length_draws]
    exact h
  obtain ⟨batch, hbatch⟩ := ActionBatch.exists_allValid hlength
  exact ⟨state, batch, drawInputs_eq_ok.2 ⟨hstate, vectors, hvectors, hbatch⟩⟩

/-- Inputs are generated from every seed if there are actions. -/
theorem exists_generateInputs (seed : UInt64) {actions : Nat} (h : 0 < actions) :
    ∃ state batch, generateInputs seed actions = .ok (state, batch) :=
  exists_drawInputs normal h (.seeded seed)

variable [Arithmetic]

/-- The vector of a state and a batch with the outputs for them. -/
def ofScored (state : StateVector) (batch : ActionBatch) (scored : ScoredBatch) : TestVector :=
  ⟨state.values, batch.actions.map (·.values), scored.scores, scored.value,
    maskedSoftmax scored.scores⟩

/-- A recorded vector holds what a model gave for inputs that were drawn. -/
theorem recordFrom_eq_ok {ε σ : Type} [Evaluator ε] {model : ε} {feature : Sampler σ Float32}
    {actions : Nat} {s : σ} {v : TestVector} :
    recordFrom model feature actions s = .ok v ↔ ∃ state batch scored,
      drawInputs feature actions s = .ok (state, batch) ∧
      Evaluator.score model state batch = .ok scored ∧ v = ofScored state batch scored := by
  constructor
  · intro h
    obtain ⟨⟨state, batch⟩, hinputs, h⟩ := bind_eq_ok.1 h
    obtain ⟨scored, hscored, h⟩ := bind_eq_ok.1 h
    obtain ⟨prediction, hprediction, h⟩ := bind_eq_ok.1 h
    rw [Evaluator.policy_eq_ok hscored] at hprediction
    cases Except.ok.inj hprediction
    exact ⟨state, batch, scored, hinputs, hscored, (pure_eq_ok.1 h).symm⟩
  · rintro ⟨state, batch, scored, hinputs, hscored, rfl⟩
    exact bind_eq_ok.2 ⟨(state, batch), hinputs, bind_eq_ok.2 ⟨scored, hscored,
      bind_eq_ok.2 ⟨_, Evaluator.policy_eq_ok hscored, rfl⟩⟩⟩

/-- A vector is recorded from a seed by drawing standard normal inputs. -/
theorem record_eq_ok {ε : Type} [Evaluator ε] {model : ε} {seed : UInt64} {actions : Nat}
    {v : TestVector} : record model seed actions = .ok v ↔ ∃ state batch scored,
      generateInputs seed actions = .ok (state, batch) ∧
      Evaluator.score model state batch = .ok scored ∧ v = ofScored state batch scored :=
  recordFrom_eq_ok

/-- The inputs of a recorded vector are those it was recorded for. -/
theorem inputs_ofScored {state : StateVector} {batch : ActionBatch} {scored : ScoredBatch}
    (hbatch : ActionBatch.allValid batch.actions = .ok batch)
    (hscores : scored.scores.length = batch.actions.length) :
    (ofScored state batch scored).inputs = .ok (state, batch) := by
  have hstate : StateVector.ofList (ofScored state batch scored).state = .ok state :=
    state.ofList_values
  have hactions : (ofScored state batch scored).actions.mapM ActionVector.ofList =
      .ok batch.actions := by
    refine mapM_eq_ok.2 (List.forall₂_map_left_iff.2 (List.forall₂_same.2 fun action _ => ?_))
    exact action.ofList_values
  have hpolicy : (ofScored state batch scored).policy.length = batch.actions.length :=
    (length_maskedSoftmax scored.scores).trans hscores
  have hscores' : ¬ (ofScored state batch scored).scores.length ≠ batch.actions.length :=
    not_not_intro hscores
  rw [inputs, hstate, ok_bind, hactions, ok_bind, if_neg hscores', if_neg (not_not_intro hpolicy)]
  exact bind_eq_ok.2 ⟨batch, hbatch, rfl⟩

end TestVector

/-! ## Comparing equal outputs -/

/-- The outputs that a test vector holds. -/
def TestVector.outputs (v : TestVector) : List Float32 := v.scores ++ v.value :: v.policy

/-- No output that a test vector holds is a NaN. -/
def TestVector.NaNFree (v : TestVector) : Prop := ∀ x ∈ v.outputs, x.isNaN = false

/-- Finite scalars are no NaNs. -/
theorem TestVector.nanFree_of_allFinite {v : TestVector} (h : Scalar.allFinite v.scalars = true) :
    v.NaNFree := by
  intro x hx
  refine Scalar.isNaN_of_isFinite (List.all_eq_true.1 h x ?_)
  exact List.mem_append_right _ (List.mem_append_right _ hx)

/-- The outputs of a test vector, each beside itself. -/
def TestVector.selfComparisons (v : TestVector) (settings : Settings) : List Comparison :=
  compareSlots .score settings.scoreTolerance 0 v.scores v.scores ++
    ⟨.value, v.value, v.value, settings.valueTolerance⟩ ::
      compareSlots .policy settings.policyTolerance 0 v.policy v.policy

/-- A list beside itself. -/
theorem map_compareSlots_self (output : Nat → Output) (tolerance : Float32) (slot : Nat)
    (xs : List Float32) :
    (compareSlots output tolerance slot xs xs).map (fun c => (c.expected, c.actual)) =
      xs.map fun x => (x, x) := by
  induction xs generalizing slot with
  | nil => rfl
  | cons x xs ih => rw [compareSlots, List.map_cons, ih, List.map_cons]

/-- The outputs of a test vector beside themselves. -/
theorem TestVector.map_selfComparisons (v : TestVector) (settings : Settings) :
    (v.selfComparisons settings).map (fun c => (c.expected, c.actual)) =
      v.outputs.map fun x => (x, x) := by
  rw [selfComparisons, List.map_append, List.map_cons, map_compareSlots_self,
    map_compareSlots_self, outputs, List.map_append, List.map_cons]

/-- An output beside itself is some output of the vector. -/
theorem TestVector.mem_outputs_of_mem {v : TestVector} {settings : Settings} {c : Comparison}
    (hc : c ∈ v.selfComparisons settings) : c.expected ∈ v.outputs ∧ c.actual = c.expected := by
  have hpair := List.mem_map_of_mem (f := fun c : Comparison => (c.expected, c.actual)) hc
  rw [v.map_selfComparisons] at hpair
  obtain ⟨x, hx, heq⟩ := List.mem_map.1 hpair
  obtain ⟨rfl, hactual⟩ := Prod.mk.inj heq
  exact ⟨hx, hactual.symm⟩

/-- Every output of the vector is beside itself. -/
theorem TestVector.exists_mem_of_mem {v : TestVector} (settings : Settings) {x : Float32}
    (hx : x ∈ v.outputs) : ∃ c ∈ v.selfComparisons settings, c.expected = x := by
  have hpair := List.mem_map_of_mem (f := fun x : Float32 => (x, x)) hx
  rw [← v.map_selfComparisons settings] at hpair
  obtain ⟨c, hc, heq⟩ := List.mem_map.1 hpair
  exact ⟨c, hc, (Prod.mk.inj heq).1⟩

section

variable [Arithmetic]

namespace Comparison

/-- Equal outputs do not diverge unless they are NaNs, whatever the tolerance. -/
theorem divergence?_eq_none {c : Comparison} (heq : c.actual = c.expected)
    (hnan : c.expected.isNaN = false) : c.divergence? = none := by
  have hdiverges : c.diverges = false := by
    rw [diverges, heq, Scalar.beq_self, hnan, Bool.not_false, Bool.not_true, Bool.and_false]
  rw [divergence?, hdiverges, if_neg Bool.false_ne_true]

/-- A NaN diverges from itself, whatever the tolerance. -/
theorem divergence?_ne_none (hsub : ∀ x y : Float32, sub x y = x - y) {c : Comparison}
    (heq : c.actual = c.expected) (hnan : c.expected.isNaN = true) : c.divergence? ≠ none := by
  have hdistance : ¬ c.distance ≤ c.tolerance := by
    rw [distance, heq, hsub]
    exact Scalar.not_distance_le hnan c.tolerance
  have hdiverges : c.diverges = true := by
    rw [diverges, heq, Scalar.beq_self, hnan, decide_eq_false hdistance, Bool.not_false,
      Bool.not_true, Bool.not_false, Bool.and_self]
  rw [divergence?, if_pos hdiverges]
  exact Option.some_ne_none _

end Comparison

namespace Report

/-- The report on a model that gives the outputs of the vector. -/
def ofSelf (v : TestVector) (settings : Settings) : Report :=
  ofOutputs v ⟨v.scores, v.value⟩ ⟨v.policy, v.value⟩ settings

/-- The divergences are those of the outputs from themselves. -/
theorem passed_ofSelf_iff_forall {v : TestVector} {settings : Settings} :
    (ofSelf v settings).passed = true ↔
      ∀ c ∈ v.selfComparisons settings, c.divergence? = none := by
  rw [passed, List.isEmpty_iff]
  exact List.filterMap_eq_nil_iff

/-- Outputs that are no NaNs pass, whatever the tolerances. -/
theorem passed_ofSelf {v : TestVector} (settings : Settings) (h : v.NaNFree) :
    (ofSelf v settings).passed = true := by
  refine passed_ofSelf_iff_forall.2 fun c hc => ?_
  obtain ⟨hmem, heq⟩ := TestVector.mem_outputs_of_mem hc
  exact Comparison.divergence?_eq_none heq (h c.expected hmem)

/-- Outputs pass exactly if they are no NaNs, whatever the tolerances. -/
theorem passed_ofSelf_iff (hsub : ∀ x y : Float32, sub x y = x - y) {v : TestVector}
    (settings : Settings) : (ofSelf v settings).passed = true ↔ v.NaNFree := by
  refine ⟨fun h x hx => ?_, passed_ofSelf settings⟩
  obtain ⟨c, hc, rfl⟩ := TestVector.exists_mem_of_mem settings hx
  by_contra hnan
  exact Comparison.divergence?_ne_none hsub (TestVector.mem_outputs_of_mem hc).2
    (Bool.eq_true_of_not_eq_false hnan) (passed_ofSelf_iff_forall.1 h c hc)

end Report

/-- **A recorded vector replays through every model with the same outputs**: they are compared with
themselves. -/
theorem verify_ofScored {ε : Type} [Evaluator ε] {model : ε} {state : StateVector}
    {batch : ActionBatch} {scored : ScoredBatch} (settings : Settings)
    (hbatch : ActionBatch.allValid batch.actions = .ok batch)
    (hscores : scored.scores.length = batch.actions.length)
    (hmodel : Evaluator.score model state batch = .ok scored) :
    verify model (TestVector.ofScored state batch scored) settings =
      .ok (Report.ofSelf (TestVector.ofScored state batch scored) settings) := by
  have hinputs : (TestVector.ofScored state batch scored).inputs = .ok (state, batch) :=
    TestVector.inputs_ofScored hbatch hscores
  exact bind_eq_ok.2 ⟨(state, batch), hinputs, bind_eq_ok.2 ⟨scored, hmodel,
    bind_eq_ok.2 ⟨_, Evaluator.policy_eq_ok hmodel, rfl⟩⟩⟩

end

end Verification

end PolicyValue
