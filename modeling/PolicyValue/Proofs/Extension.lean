import PolicyValue.Proofs.Recording
import PolicyValue.Proofs.Slotwise

/-!
# Longer test vectors

A test vector is drawn feature by feature from one state that is handed on: the state comes first,
then one action after the other.  Asking for more actions changes nothing before the last of them,
and a model scores an action as it does in every other batch.  So a longer vector begins with a
shorter one, whatever the sampler takes from its state at each draw.

* `ActionBatch.map_slots_of_allValid`: without padding the scores are those of the actions;
* `drawInputs_take`: inputs with fewer actions are the first part of inputs with more;
* `TestVector.recordFrom_extends`: so are the recorded scores.
-/

namespace PolicyValue

/-- What a pass makes of the first entries is the first part of what it makes of all. -/
theorem mapM_take_eq_ok {ε α β : Type} {f : α → Except ε β} {xs : List α} {ys : List β} (n : Nat)
    (h : xs.mapM f = .ok ys) : (xs.take n).mapM f = .ok (ys.take n) :=
  mapM_eq_ok.2 (List.forall₂_take n (mapM_eq_ok.1 h))

/-- The slots of a batch without padding score as its actions. -/
theorem ActionBatch.map_slots_of_allValid {actions : List ActionVector} {batch : ActionBatch}
    (h : allValid actions = .ok batch) (score : ActionVector → Float32) :
    batch.slots.map (slotScore score) = batch.actions.map score := by
  obtain ⟨hactions, hmask⟩ := ofActions_eq_ok.1 h
  rw [slots, hmask, ← hactions, List.zip_eq_zipWith, List.zipWith_map_right, List.zipWith_self,
    List.map_map]
  rfl

namespace Verification

open Sampling

/-! ## Inputs -/

section

variable {σ : Type} {feature : Sampler σ Float32} {actions more : Nat} {s : σ} {state : StateVector}
  {batch : ActionBatch}

/-- As many actions are drawn as wanted. -/
theorem length_of_drawInputs (h : drawInputs feature actions s = .ok (state, batch)) :
    batch.actions.length = actions := by
  obtain ⟨-, vectors, hvectors, hbatch⟩ := TestVector.drawInputs_eq_ok.1 h
  rw [ActionBatch.actions_of_allValid hbatch, ← (mapM_eq_ok.1 hvectors).length_eq, length_draws]

/-- **Inputs with fewer actions are the first part of inputs with more**: the state is the same, and
the actions are the first ones. -/
theorem drawInputs_take (hpos : 0 < actions) (hle : actions ≤ more)
    (h : drawInputs feature more s = .ok (state, batch)) :
    ∃ first, drawInputs feature actions s = .ok (state, first) ∧
      first.actions = batch.actions.take actions := by
  obtain ⟨hstate, vectors, hvectors, hbatch⟩ := TestVector.drawInputs_eq_ok.1 h
  obtain ⟨rest, rfl⟩ := Nat.exists_eq_add_of_le hle
  -- the state is drawn before the actions, so both draws go on from the same state of the sampler
  have hfirst := mapM_take_eq_ok actions hvectors
  rw [take_draws] at hfirst
  have hlength : 0 < (vectors.take actions).length := by
    rw [← (mapM_eq_ok.1 hfirst).length_eq, length_draws]
    exact hpos
  obtain ⟨first, hvalid⟩ := ActionBatch.exists_allValid hlength
  refine ⟨first, TestVector.drawInputs_eq_ok.2 ⟨hstate, _, hfirst, hvalid⟩, ?_⟩
  rw [ActionBatch.actions_of_allValid hbatch, ActionBatch.actions_of_allValid hvalid]

end

/-! ## Outputs -/

/-- **A longer test vector extends a shorter one.**  From one state of the sampler, vectors with
`actions` and with `more` actions are recorded; they have the same state and the same value, and the
actions and scores of the first are the first ones of the second. -/
theorem TestVector.recordFrom_extends [Arithmetic] (m : Model) {σ : Type}
    (feature : Sampler σ Float32) (s : σ) {actions more : Nat} (hpos : 1 ≤ actions)
    (hle : actions ≤ more) :
    ∃ shorter longer, recordFrom m feature actions s = .ok shorter ∧
      recordFrom m feature more s = .ok longer ∧
      shorter.actions.length = actions ∧ longer.actions.length = more ∧
      shorter.scores.length = actions ∧ longer.scores.length = more ∧
      shorter.state = longer.state ∧ shorter.value = longer.value ∧
      shorter.actions = longer.actions.take actions ∧
      shorter.scores = longer.scores.take actions := by
  obtain ⟨state, batch, hlonger⟩ := exists_drawInputs feature (Nat.le_trans hpos hle) s
  obtain ⟨first, hshorter, hfirst⟩ := drawInputs_take hpos hle hlonger
  obtain ⟨score, value, hscore⟩ := m.exists_scoring state
  have hscored : ∀ {n : Nat} {b : ActionBatch}, drawInputs feature n s = .ok (state, b) →
      Evaluator.score m state b = .ok ⟨b.actions.map score, value⟩ := by
    intro n b h
    rw [hscore, ActionBatch.map_slots_of_allValid (allValid_of_drawInputs h)]
  refine ⟨_, _, recordFrom_eq_ok.2 ⟨_, _, _, hshorter, hscored hshorter, rfl⟩,
    recordFrom_eq_ok.2 ⟨_, _, _, hlonger, hscored hlonger, rfl⟩, ?_⟩
  have hless := length_of_drawInputs hshorter
  have hmore := length_of_drawInputs hlonger
  have hvalues : ∀ {α : Type} (f : ActionVector → α),
      first.actions.map f = (batch.actions.map f).take actions := by
    intro α f
    rw [hfirst, List.map_take]
  exact ⟨(List.length_map _).trans hless, (List.length_map _).trans hmore,
    (List.length_map _).trans hless, (List.length_map _).trans hmore, rfl, rfl,
    hvalues (·.values), hvalues score⟩

/-- Seeded standard normal inputs of a drawn network: one action, then two. -/
theorem TestVector.recordFrom_extends_single : ∃ (net : Network)
    (hnet : Network.draw .single 7 = .ok net), ∀ [Arithmetic], ∃ shorter longer : TestVector,
      record (Model.network net (.draw hnet)) 9 1 = .ok shorter ∧
      record (Model.network net (.draw hnet)) 9 2 = .ok longer ∧
      shorter.state = longer.state ∧ shorter.value = longer.value ∧
      shorter.actions = longer.actions.take 1 ∧ shorter.scores = longer.scores.take 1 := by
  obtain ⟨net, hnet⟩ := Network.exists_draw Network.Config.positive_single 7
  refine ⟨net, hnet, ?_⟩
  intro _
  obtain ⟨shorter, longer, hshorter, hlonger, -, -, -, -, h⟩ :=
    TestVector.recordFrom_extends (.network net (.draw hnet)) normal (.seeded 9) (Nat.le_refl 1)
      (show 1 ≤ 2 by decide)
  exact ⟨shorter, longer, hshorter, hlonger, h⟩

end Verification

end PolicyValue
