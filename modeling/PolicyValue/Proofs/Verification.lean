import PolicyValue.Proofs.Forward
import PolicyValue.Proofs.Recording
import PolicyValue.Proofs.Refinement
import PolicyValue.Proofs.Reimport
import PolicyValue.Scalar.Binary32

/-!
# A recorded vector verifies everywhere

The network that a test vector was recorded from, the executor of its export and the network that is
imported from the export give the same outputs, so verifying any of them compares the recorded
outputs with themselves.

* `VerifiesUnlessNaN`: a replay that passes under all settings, unless a recorded output is a NaN;
* `record_verifies`: this holds of all three models.
-/

namespace PolicyValue

/-- A well-formed network with an admissible epsilon is imported from its export. -/
theorem Network.WellFormed.exists_import {net : Network} (h : net.WellFormed)
    (hepsilon : Scalar.Admissible net.config.epsilon) {c : Network.Config}
    (hc : c.SameWidths net.config) (seed : UInt64) :
    ∃ report, Network.ofArchive net.toArchive c seed = .ok (net, report) := by
  obtain ⟨net₀, hdraw⟩ := Network.exists_draw h.widths_pos seed
  obtain ⟨hnet₀, hconfig⟩ := Network.draw_wellFormed hdraw
  have hdraw' : Network.draw { c with epsilon := net.toArchive.header.epsilon } seed = .ok net₀ := by
    rw [show net.toArchive.header.epsilon = net.config.epsilon from rfl, hc.withEpsilon_eq, hdraw]
  exact ⟨_, Network.ofArchive_eq_ok.2
    ⟨net₀, hdraw', Network.stage_toArchive hnet₀ h hconfig hepsilon, rfl⟩⟩

namespace Verification

section

variable [Arithmetic]

/-- Whatever the settings, a model can be verified with a test vector, and passes exactly if no
recorded output is a NaN. -/
def VerifiesUnlessNaN {ε : Type} [Evaluator ε] (model : ε) (v : TestVector) : Prop :=
  ∀ settings : Settings, ∃ report, verify model v settings = .ok report ∧
    (report.passed = true ↔ v.NaNFree)

/-- A model with the outputs of a recorded vector verifies. -/
theorem verifiesUnlessNaN_ofScored (hsub : ∀ x y : Float32, sub x y = x - y) {ε : Type}
    [Evaluator ε] {model : ε} {state : StateVector} {batch : ActionBatch} {scored : ScoredBatch}
    (hbatch : ActionBatch.allValid batch.actions = .ok batch)
    (hscores : scored.scores.length = batch.actions.length)
    (hmodel : Evaluator.score model state batch = .ok scored) :
    VerifiesUnlessNaN model (TestVector.ofScored state batch scored) := by
  intro settings
  exact ⟨_, verify_ofScored settings hbatch hscores hmodel,
    Report.passed_ofSelf_iff hsub settings⟩

/-- **A recorded test vector verifies everywhere, unless it holds a NaN.**  From a network that was
drawn and then loaded any number of times, with an admissible epsilon and a width for the embeddings
of actions, a vector can be recorded with every seed and any positive number of actions.  The
network, the executor of its export and the network imported from its export, in any configuration
of the same widths and from any seed, are verified with it under all settings, and pass exactly if
no recorded output is a NaN.  Of the arithmetic it is used that `sub` is the difference of
scalars. -/
theorem record_verifies (hsub : ∀ x y : Float32, sub x y = x - y) {net : Network}
    (h : net.Reachable) (hepsilon : Scalar.Admissible net.config.epsilon)
    (hembed : 1 ≤ net.config.actionEmbed.toNat) (seed : UInt64) {actions : Nat}
    (hactions : 1 ≤ actions) {c : Network.Config} (hc : c.SameWidths net.config)
    (importSeed : UInt64) :
    ∃ v e imported report, TestVector.record net seed actions = .ok v ∧
      Executor.ofArchive net.toArchive = .ok e ∧
      Network.ofArchive net.toArchive c importSeed = .ok (imported, report) ∧
      VerifiesUnlessNaN net v ∧ VerifiesUnlessNaN e v ∧ VerifiesUnlessNaN imported v := by
  have hnet : net.WellFormed := h.wellFormed
  obtain ⟨state, batch, hinputs⟩ := TestVector.exists_generateInputs seed hactions
  obtain ⟨scored, hscored⟩ := hnet.exists_score state batch
  obtain ⟨e, he⟩ := hnet.exists_ofArchive_iff.2 ⟨hepsilon, hembed⟩
  obtain ⟨report, himport⟩ := hnet.exists_import hepsilon hc importSeed
  have hbatch : ActionBatch.allValid batch.actions = .ok batch :=
    TestVector.allValid_of_drawInputs hinputs
  have hscores : scored.scores.length = batch.actions.length := Network.length_scores hscored
  have hnetwork : VerifiesUnlessNaN net (TestVector.ofScored state batch scored) :=
    verifiesUnlessNaN_ofScored hsub hbatch hscores hscored
  refine ⟨TestVector.ofScored state batch scored, e, net, report, ?_, he, himport, hnetwork, ?_,
    hnetwork⟩
  · exact TestVector.record_eq_ok.2 ⟨state, batch, scored, hinputs, hscored, rfl⟩
  · exact verifiesUnlessNaN_ofScored hsub hbatch hscores
      ((hnet.score_ofArchive he state batch).trans hscored)

end

/-- A vector of three actions recorded from a network of the least widths verifies. -/
theorem record_verifies_single : ∃ net v e imported report,
    Network.draw Network.Config.single 7 = .ok net ∧ TestVector.record net 9 3 = .ok v ∧
    Executor.ofArchive net.toArchive = .ok e ∧
    Network.ofArchive net.toArchive { Network.Config.single with epsilon := Scalar.one } 8 =
      .ok (imported, report) ∧
    VerifiesUnlessNaN net v ∧ VerifiesUnlessNaN e v ∧ VerifiesUnlessNaN imported v := by
  obtain ⟨net, hnet, -, hconfig, hepsilon⟩ := Network.exists_draw_single 7
  have hembed : 1 ≤ net.config.actionEmbed.toNat := by
    rw [hconfig]
    decide
  have hc : { Network.Config.single with epsilon := Scalar.one }.SameWidths net.config := by
    rw [hconfig]
    exact ⟨rfl, rfl, rfl, rfl, rfl, rfl⟩
  obtain ⟨v, e, imported, report, hverifies⟩ := record_verifies (fun _ _ => rfl) (.draw hnet)
    hepsilon hembed 9 (by decide : 1 ≤ 3) hc 8
  exact ⟨net, v, e, imported, report, hnet, hverifies⟩

end Verification

end PolicyValue
