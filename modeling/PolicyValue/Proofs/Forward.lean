import PolicyValue.Proofs.Affine
import PolicyValue.Proofs.Export

/-!
# Forward passes of a network

A forward pass of a network is a score per action and one value, each computed on its own.  Nothing
can fail on the way: the scorer and the value head of a well-formed network have one output,
whatever the width of what they read.

* `Network.score_eq_ok`: what a forward pass is made of;
* `Network.WellFormed.exists_score`: a well-formed network scores every state and batch.
-/

namespace PolicyValue

/-- A list of one number has an output. -/
theorem exists_singleOutput {xs : List Float32} (h : xs.length = 1) :
    ∃ x, singleOutput xs = .ok x := by
  obtain ⟨x, rfl⟩ := List.length_eq_one_iff.1 h
  exact ⟨x, rfl⟩

namespace Network

/-- The last layer of a well-formed network's value head has one output. -/
theorem WellFormed.outputs_head {net : Network} (h : net.WellFormed) :
    net.head.fc2.outputs = 1 := by
  obtain ⟨-, -, -, -, hhead⟩ := h.shapes
  simp only [ValueHead.layers, Layers.shape, List.map_cons, List.map_nil, Layer.shape,
    ValueHead.shape, List.cons.injEq, LayerShape.affine.injEq] at hhead
  exact hhead.2.1.2

variable [Arithmetic]

/-- A forward pass has scored every action and predicted the value. -/
theorem score_eq_ok {net : Network} {state : StateVector} {batch : ActionBatch}
    {scored : ScoredBatch} :
    net.score state batch = .ok scored ↔ ∃ scores value,
      batch.actions.mapM (net.scoreAction (net.state.forward state.values)) = .ok scores ∧
      net.head.forward (net.valueState.forward state.values) = .ok value ∧
      scored = ⟨maskScores scores batch.mask, value⟩ := by
  unfold score
  rw [if_neg (Nat.ne_of_gt batch.validCount_pos)]
  constructor
  · intro h
    obtain ⟨scores, hscores, h⟩ := bind_eq_ok.1 h
    obtain ⟨value, hvalue, h⟩ := bind_eq_ok.1 h
    exact ⟨scores, value, hscores, hvalue, (pure_eq_ok.1 h).symm⟩
  · rintro ⟨scores, value, hscores, hvalue, rfl⟩
    exact bind_eq_ok.2 ⟨scores, hscores, bind_eq_ok.2 ⟨value, hvalue, rfl⟩⟩

/-- There is a score per action. -/
theorem length_scores {net : Network} {state : StateVector} {batch : ActionBatch}
    {scored : ScoredBatch} (h : net.score state batch = .ok scored) :
    scored.scores.length = batch.actions.length := by
  obtain ⟨scores, value, hscores, -, rfl⟩ := score_eq_ok.1 h
  exact (length_maskScores scores batch.mask).trans (mapM_eq_ok.1 hscores).length_eq.symm

/-- The scorer of a well-formed network has one output. -/
theorem WellFormed.exists_scoreAction {net : Network} (h : net.WellFormed)
    (embedding : List Float32) (action : ActionVector) :
    ∃ score, net.scoreAction embedding action = .ok score := by
  have hfc2 : net.scorer.fc2.WellShaped :=
    h.layers _ net.scorer_mem _ (.tail _ (.tail _ (.head _)))
  obtain ⟨-, -, -, hscorer, -⟩ := h.shapes
  have houtputs : net.scorer.fc2.outputs = 1 := by
    simp only [ActionScorer.layers, Layers.shape, List.map_cons, List.map_nil, Layer.shape,
      ActionScorer.shape, List.cons.injEq, LayerShape.affine.injEq] at hscorer
    exact hscorer.2.2.1.2
  exact exists_singleOutput ((Linear.length_forward hfc2 _).trans houtputs)

/-- The value head of a well-formed network has one output. -/
theorem WellFormed.exists_value {net : Network} (h : net.WellFormed) (embedding : List Float32) :
    ∃ value, net.head.forward embedding = .ok value := by
  have hfc2 : net.head.fc2.WellShaped := h.layers _ net.head_mem _ (.tail _ (.head _))
  refine exists_singleOutput ?_
  rw [List.length_map, Linear.length_forward hfc2, h.outputs_head]

/-- A well-formed network has one value for a state and one score for each action in it, whatever
batch the action is in. -/
theorem WellFormed.exists_scoring {net : Network} (h : net.WellFormed) (state : StateVector) :
    ∃ (score : ActionVector → Float32) (value : Float32), ∀ batch : ActionBatch,
      net.score state batch = .ok ⟨maskScores (batch.actions.map score) batch.mask, value⟩ := by
  choose score hscore using h.exists_scoreAction (net.state.forward state.values)
  obtain ⟨value, hvalue⟩ := h.exists_value (net.valueState.forward state.values)
  refine ⟨score, value, fun batch => score_eq_ok.2 ⟨_, value, mapM_eq_ok.2 ?_, hvalue, rfl⟩⟩
  exact List.forall₂_map_right_iff.2 (List.forall₂_same.2 fun action _ => hscore action)

/-- **A well-formed network scores every state and batch.** -/
theorem WellFormed.exists_score {net : Network} (h : net.WellFormed) (state : StateVector)
    (batch : ActionBatch) : ∃ scored, net.score state batch = .ok scored := by
  obtain ⟨score, value, hscores⟩ := h.exists_scoring state
  exact ⟨_, hscores batch⟩

end Network

end PolicyValue
