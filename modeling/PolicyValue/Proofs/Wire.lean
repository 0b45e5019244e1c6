import PolicyValue.Prediction.Format
import PolicyValue.Proofs.Recording
import PolicyValue.Proofs.Transport
import PolicyValue.Verification.Report

/-!
# Values through text

Beside archives, thirteen types of values travel as JSON texts.  Each value is read back as it was,
or refused because a scalar of it is not finite and was written as `null`.

* `WireType`: the types, each with its values, their JSON form and the scalars in them;
* `WireType.faithful`: every value is read back, or refused, by induction over its shape;
* `WireType.ofString_toString_ite`: the same of texts.
-/

namespace PolicyValue

section

variable [ScalarText]

/-! ## Settings -/

/-- Configurations are read back if their epsilon is finite. -/
theorem Network.Config.faithful : Network.Config.codec.Faithful (fun c => [c.epsilon]) 1 := by
  have hword := Codec.faithful_word64
  have hfields : FaithfulFields 0 Network.Config.layout.fields _ _ :=
    .cons (hword.optional _ _ _) (.cons (hword.optional _ _ _) (.cons (hword.optional _ _ _)
      (.cons (hword.optional _ _ _) (.cons (hword.optional _ _ _) (.cons (hword.optional _ _ _)
        (.cons (Codec.faithful_scalar.optional _ _ _) .nil))))))
  have hnames : ["state_hidden", "state_embed", "action_hidden", "action_embed", "scorer_hidden",
      "value_hidden", "layer_norm_eps"].Nodup := by decide
  exact (Layout.faithful hfields hnames fun _ => rfl).congr fun _ => rfl

namespace Verification

/-- Settings are read back if their tolerances are finite. -/
theorem Settings.faithful : Settings.codec.Faithful
    (fun s => [s.scoreTolerance, s.valueTolerance, s.policyTolerance]) 1 := by
  have hword := Codec.faithful_word64
  have hscalar := Codec.faithful_scalar
  have hfields : FaithfulFields 0 Settings.layout.fields _ _ :=
    .cons (hword.optional _ _ _) (.cons (hword.optional _ _ _) (.cons (hword.optional _ _ _)
      (.cons (hscalar.optional _ _ _) (.cons (hscalar.optional _ _ _)
        (.cons (hscalar.optional _ _ _) .nil)))))
  have hnames : ["init_seed", "input_seed", "num_actions", "score_tolerance", "value_tolerance",
      "policy_tolerance"].Nodup := by decide
  exact (Layout.faithful hfields hnames fun _ => rfl).congr fun _ => rfl

end Verification

/-! ## Vectors and predictions -/

/-- States are read back if their features are finite. -/
theorem StateVector.faithful : StateVector.codec.Faithful (·.values) 1 :=
  Codec.faithful_scalars.restrict fun s => by rw [s.ofList_values]; rfl

/-- Actions are read back if their features are finite. -/
theorem ActionVector.faithful : ActionVector.codec.Faithful (·.values) 1 :=
  Codec.faithful_scalars.restrict fun a => by rw [a.ofList_values]; rfl

/-- Scored batches are read back if their scores and value are finite. -/
theorem ScoredBatch.faithful : ScoredBatch.codec.Faithful (fun b => b.scores ++ [b.value]) 2 := by
  have hscalar := Codec.faithful_scalar.mono (Nat.zero_le 1)
  have hfields : FaithfulFields 1 ScoredBatch.layout.fields _ _ :=
    .cons (Codec.faithful_scalars.required _ _ _) (.cons (hscalar.required _ _ _) .nil)
  have hnames : ["scores", "value"].Nodup := by decide
  exact (Layout.faithful hfields hnames fun _ => rfl).congr fun _ => rfl

/-- Predictions are read back if their probabilities and value are finite. -/
theorem Prediction.faithful : Prediction.codec.Faithful (fun p => p.policy ++ [p.value]) 2 := by
  have hscalar := Codec.faithful_scalar.mono (Nat.zero_le 1)
  have hfields : FaithfulFields 1 Prediction.layout.fields _ _ :=
    .cons (Codec.faithful_scalars.required _ _ _) (.cons (hscalar.required _ _ _) .nil)
  have hnames : ["policy", "value"].Nodup := by decide
  exact (Layout.faithful hfields hnames fun _ => rfl).congr fun _ => rfl

end

/-! ## Reports -/

namespace Verification

/-- The scalars of a divergence, as they are written. -/
def Divergence.scalars (d : Divergence) : List Float32 := [d.expected, d.actual, d.tolerance]

/-- The scalars of a report, as they are written. -/
def Report.scalars (r : Report) : List Float32 :=
  r.scoreError :: r.valueError :: r.policyError :: r.divergences.flatMap Divergence.scalars

variable [ScalarText]

/-- Divergences are read back if their scalars are finite, whatever name they have. -/
theorem Divergence.faithful : Divergence.codec.Faithful Divergence.scalars 1 := by
  have hscalar := Codec.faithful_scalar
  have hfields : FaithfulFields 0 Divergence.layout.fields _ _ :=
    .cons (Codec.faithful_text.required _ _ _) (.cons (hscalar.required _ _ _)
      (.cons (hscalar.required _ _ _) (.cons (hscalar.required _ _ _) .nil)))
  have hnames : ["output", "expected", "actual", "tolerance"].Nodup := by decide
  exact (Layout.faithful hfields hnames fun _ => rfl).congr fun _ => rfl

/-- Reports are read back if their scalars are finite. -/
theorem Report.faithful : Report.codec.Faithful Report.scalars 3 := by
  have hscalar := Codec.faithful_scalar.mono (Nat.zero_le 2)
  have hfields : FaithfulFields 2 Report.layout.fields _ _ :=
    .cons (hscalar.required _ _ _) (.cons (hscalar.required _ _ _) (.cons (hscalar.required _ _ _)
      (.cons (Divergence.faithful.list.required _ _ _) .nil)))
  have hnames : ["max_score_error", "value_error", "max_policy_error", "divergences"].Nodup := by
    decide
  refine (Layout.faithful hfields hnames fun _ => rfl).congr fun r => ?_
  show _ :: _ :: _ :: (r.divergences.flatMap Divergence.scalars ++ []) = _
  rw [List.append_nil]
  rfl

end Verification

/-! ## Types of values -/

open Verification

/-- A type whose values travel as texts. -/
inductive WireType
  | config
  | settings
  | operation
  | graph
  | state
  | action
  | scored
  | prediction
  | record
  | header
  | divergence
  | report
  | testVector
deriving DecidableEq, Repr

namespace WireType

/-- The values of a type. -/
def Value : WireType → Type
  | .config => Network.Config
  | .settings => Settings
  | .operation => Operation
  | .graph => Graph
  | .state => StateVector
  | .action => ActionVector
  | .scored => ScoredBatch
  | .prediction => Prediction
  | .record => Record
  | .header => Header
  | .divergence => Divergence
  | .report => Report
  | .testVector => TestVector

/-- The scalars of a value, as they are written. -/
def scalars : (t : WireType) → t.Value → List Float32
  | .config => fun c : Network.Config => [c.epsilon]
  | .settings => fun s : Settings => [s.scoreTolerance, s.valueTolerance, s.policyTolerance]
  | .operation => fun _ => []
  | .graph => fun _ => []
  | .state => StateVector.values
  | .action => ActionVector.values
  | .scored => fun b : ScoredBatch => b.scores ++ [b.value]
  | .prediction => fun p : Prediction => p.policy ++ [p.value]
  | .record => Record.scalars
  | .header => fun h : Header => [h.epsilon]
  | .divergence => Divergence.scalars
  | .report => Report.scalars
  | .testVector => TestVector.scalars

variable [ScalarText]

/-- The JSON form of the values of a type. -/
def codec : (t : WireType) → Codec t.Value
  | .config => Network.Config.codec
  | .settings => Settings.codec
  | .operation => Operation.codec Json.maxDepth
  | .graph => Graph.codec Json.maxDepth
  | .state => StateVector.codec
  | .action => ActionVector.codec
  | .scored => ScoredBatch.codec
  | .prediction => Prediction.codec
  | .record => Record.codec
  | .header => Header.codec
  | .divergence => Divergence.codec
  | .report => Report.codec
  | .testVector => TestVector.codec

/-- The text of a value. -/
def toString (t : WireType) (v : t.Value) : String := t.codec.toString v

/-- Reads a value from a text. -/
def ofString (t : WireType) (text : String) : Except Error t.Value :=
  (t.codec.ofString text).mapError .json

/-- How deep the containers of a value may be nested. -/
def depth : WireType → Nat
  | .config => 1
  | .settings => 1
  | .operation => 1
  | .graph => 3
  | .state => 1
  | .action => 1
  | .scored => 2
  | .prediction => 2
  | .record => 3
  | .header => 4
  | .divergence => 1
  | .report => 3
  | .testVector => 3

/-- The values of every type are read back if their scalars are finite. -/
theorem faithful : (t : WireType) → t.codec.Faithful t.scalars t.depth
  | .config => Network.Config.faithful
  | .settings => Settings.faithful
  | .operation => Operation.faithful Json.maxDepth
  | .graph => Graph.faithful Json.maxDepth
  | .state => StateVector.faithful
  | .action => ActionVector.faithful
  | .scored => ScoredBatch.faithful
  | .prediction => Prediction.faithful
  | .record => Record.faithful
  | .header => Header.faithful
  | .divergence => Divergence.faithful
  | .report => Report.faithful
  | .testVector => TestVector.faithful

/-- **A value passes through text unharmed or is refused** for its shape, as soon as one scalar of
it is not finite. -/
theorem ofString_toString_ite (t : WireType) (v : t.Value)
    (hscalars : ScalarText.ReadsBack (t.scalars v)) :
    t.ofString (t.toString v) =
      if ∃ x ∈ t.scalars v, x.isFinite = false then .error (.json .mismatched) else .ok v := by
  rw [ofString, toString, t.faithful.ofString_toString hscalars]
  simp only [← Scalar.allFinite_eq_false_iff]
  cases Scalar.allFinite (t.scalars v) <;> rfl

end WireType

/-! ## A report and a padded batch -/

/-- A report whose divergences have names that need escapes, or none, and scalars of both signs and
every size. -/
def Verification.Report.escaped : Report :=
  ⟨Scalar.one, Float32.ofBits 0x80000000, Float32.ofBits 0x00000001,
    [⟨"scores[\"0\"]\n\x00", Scalar.one, Float32.ofBits 0xff7fffff, Float32.ofBits 0x3727c5ac⟩,
      ⟨"", Scalar.zero, Float32.ofBits 0x3dcccccd, Scalar.zero⟩]⟩

/-- A batch whose second slot is padding. -/
def ScoredBatch.padded : ScoredBatch :=
  ⟨maskScores [Scalar.one, Scalar.one] [true, false], Scalar.zero⟩

/-- The report is read back; the batch is refused, since padding scores negative infinity. -/
theorem WireType.ofString_toString_padded :
    WireType.report.ofString (WireType.report.toString Report.escaped) = .ok Report.escaped ∧
      WireType.scored.ofString (WireType.scored.toString ScoredBatch.padded) =
        .error (.json .mismatched) := by
  have hreport : ScalarText.ReadsBack (WireType.report.scalars Report.escaped) := by
    show ∀ x ∈ Report.escaped.scalars, _
    decide +kernel
  have hbatch : ScalarText.ReadsBack (WireType.scored.scalars ScoredBatch.padded) := by
    show ∀ x ∈ ScoredBatch.padded.scores ++ [ScoredBatch.padded.value], _
    decide +kernel
  have hfinite : ¬ ∃ x ∈ Report.escaped.scalars, x.isFinite = false := by decide +kernel
  have hinfinite : ∃ x ∈ ScoredBatch.padded.scores ++ [ScoredBatch.padded.value],
      x.isFinite = false := by decide +kernel
  have hread := WireType.ofString_toString_ite .report Report.escaped hreport
  have hrefused := WireType.ofString_toString_ite .scored ScoredBatch.padded hbatch
  exact ⟨hread.trans (if_neg hfinite), hrefused.trans (if_pos hinfinite)⟩

end PolicyValue
