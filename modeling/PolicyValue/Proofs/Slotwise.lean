import PolicyValue.Proofs.Forward
import PolicyValue.Proofs.Loading
import PolicyValue.Proofs.Soundness

/-!
# Scores are computed slot by slot

A batch is a list of slots, each an action that is real or padding.  For a given state a model has
one value and one score for every action there is; the batch only decides which of the scores are
asked for, and in which order.

* `Model`: the networks that can be reached and the executors that can be built;
* `Model.exists_scoring`: the scores of a batch are those of its slots;
* `Model.score_slotwise`: what this means for two batches.
-/

namespace PolicyValue

open Scalar (zero one negInfinity)

/-! ## Slots -/

/-- The slots of a batch: its actions, each with whether it is real. -/
def ActionBatch.slots (b : ActionBatch) : List (ActionVector × Bool) := b.actions.zip b.mask

/-- There are as many slots as actions. -/
theorem ActionBatch.length_slots (b : ActionBatch) : b.slots.length = b.size := by
  rw [slots, List.length_zip, b.length_mask, Nat.min_self, size]

/-- The mask tells which slots are real. -/
theorem ActionBatch.map_snd_slots (b : ActionBatch) : b.slots.map Prod.snd = b.mask :=
  List.map_snd_zip (Nat.le_of_eq b.length_mask)

/-- The score of a slot, if `score` is that of its action: padding scores negative infinity. -/
def slotScore {α : Type} (score : α → Float32) (slot : α × Bool) : Float32 :=
  if slot.2 then score slot.1 else negInfinity

/-- Masked scores of actions are the scores of slots. -/
theorem maskScores_map {α : Type} (score : α → Float32) {actions : List α} {mask : List Bool}
    (h : mask.length = actions.length) :
    maskScores (actions.map score) mask = (actions.zip mask).map (slotScore score) := by
  induction actions generalizing mask with
  | nil =>
    obtain rfl := List.eq_nil_of_length_eq_zero h
    rfl
  | cons action actions ih =>
    obtain ⟨valid, mask, rfl⟩ := List.exists_cons_of_length_eq_add_one h
    rw [List.map_cons, maskScores, ih (Nat.succ.inj h), List.zip_cons_cons, List.map_cons,
      slotScore]

/-! ## Models -/

/-- A model that can score: a network that was drawn, with any number of loads behind it, or an
executor that was built from an archive. -/
inductive Model
  | network (net : Network) (reachable : net.Reachable)
  | executor (e : Executor) (a : Archive) (built : Executor.ofArchive a = .ok e)

namespace Model

variable [Arithmetic]

/-- The scores a model gives. -/
def score : Model → StateVector → ActionBatch → Except Error ScoredBatch
  | network net _ => net.score
  | executor e _ _ => e.score

instance : Evaluator Model := ⟨Model.score⟩

/-- **A model scores every state and batch, slot by slot**: with the value of the state, and with
scores that its actions have in every batch. -/
theorem exists_scoring (m : Model) (state : StateVector) :
    ∃ (score : ActionVector → Float32) (value : Float32), ∀ batch : ActionBatch,
      Evaluator.score m state batch = .ok ⟨batch.slots.map (slotScore score), value⟩ := by
  cases m with
  | network net reachable =>
    obtain ⟨score, value, hscore⟩ := reachable.wellFormed.exists_scoring state
    refine ⟨score, value, fun batch => ?_⟩
    rw [ActionBatch.slots, ← maskScores_map score batch.length_mask]
    exact hscore batch
  | executor e a built =>
    obtain ⟨v, hload⟩ := Executor.exists_loadedFrom built
    obtain ⟨score, value, hscore⟩ := hload.exists_scoring state
    refine ⟨score, value, fun batch => ?_⟩
    rw [ActionBatch.slots, ← maskScores_map score batch.length_mask]
    exact (hscore batch).score_eq

/-- **Each score depends on the state and its own action only.**  Two batches have the same value.
Padding scores negative infinity, and real slots with the same action have the same score.  Where
the slots of one batch are slots of the other, in whichever order and however often, the scores are
the other's scores in that order. -/
theorem score_slotwise (m : Model) (state : StateVector) (b b' : ActionBatch) :
    ∃ scored scored' : ScoredBatch, Evaluator.score m state b = .ok scored ∧
      Evaluator.score m state b' = .ok scored' ∧ scored.value = scored'.value ∧
      scored.scores.length = b.size ∧ scored'.scores.length = b'.size ∧
      (∀ i : Nat, b.mask[i]? = some false → scored.scores[i]? = some negInfinity) ∧
      (∀ j : Nat, b'.mask[j]? = some false → scored'.scores[j]? = some negInfinity) ∧
      (∀ (i j : Nat) (action : ActionVector),
        b.slots[i]? = some (action, true) → b'.slots[j]? = some (action, true) →
          ∃ score, scored.scores[i]? = some score ∧ scored'.scores[j]? = some score) ∧
      ∀ place : Nat → Nat, (∀ j < b'.size, b'.slots[j]? = b.slots[place j]?) →
        ∀ j < b'.size, scored'.scores[j]? = scored.scores[place j]? := by
  obtain ⟨score, value, hscore⟩ := m.exists_scoring state
  have hlength : ∀ batch : ActionBatch, (batch.slots.map (slotScore score)).length = batch.size :=
    fun batch => (List.length_map _).trans batch.length_slots
  have hpadding : ∀ (batch : ActionBatch) (i : Nat), batch.mask[i]? = some false →
      (batch.slots.map (slotScore score))[i]? = some negInfinity := by
    intro batch i hi
    rw [← batch.map_snd_slots, List.getElem?_map] at hi
    obtain ⟨⟨action, valid⟩, hslot, rfl⟩ := Option.map_eq_some_iff.1 hi
    rw [List.getElem?_map, hslot]
    rfl
  refine ⟨_, _, hscore b, hscore b', rfl, hlength b, hlength b', hpadding b, hpadding b', ?_, ?_⟩
  · intro i j action hi hj
    refine ⟨score action, ?_, ?_⟩
    · rw [List.getElem?_map, hi]
      rfl
    · rw [List.getElem?_map, hj]
      rfl
  · intro place hplace j hj
    rw [List.getElem?_map, List.getElem?_map, hplace j hj]

end Model

/-! ## One executor, two batches -/

/-- A state all of whose features are the same. -/
def StateVector.constant (x : Float32) : StateVector :=
  ⟨List.replicate stateSize x, List.length_replicate⟩

/-- An action all of whose features are the same. -/
def ActionVector.constant (x : Float32) : ActionVector :=
  ⟨List.replicate actionSize x, List.length_replicate⟩

/-- A batch of one action. -/
def ActionBatch.single (action : ActionVector) : ActionBatch := ⟨[action], [true], rfl, .head _⟩

/-- An action before a padded slot has the score that it has after another action. -/
theorem Model.score_slotwise_sharedKernel : ∃ e, Executor.ofArchive sharedKernelArchive = .ok e ∧
    ∀ [Arithmetic], ∃ (scored scored' : ScoredBatch) (score : Float32),
      Evaluator.score e (.constant zero)
        ⟨[.constant one, .constant zero], [true, false], rfl, .head _⟩ = .ok scored ∧
      Evaluator.score e (.constant zero)
        ⟨[.constant zero, .constant one], [true, true], rfl, .head _⟩ = .ok scored' ∧
      scored.value = scored'.value ∧ scored.scores[1]? = some negInfinity ∧
      scored.scores[0]? = some score ∧ scored'.scores[1]? = some score := by
  obtain ⟨e, he, -⟩ := Executor.exists_ofArchive_of_wellTyped sharedKernelArchive_wellTyped
  refine ⟨e, he, ?_⟩
  intro _
  obtain ⟨scored, scored', hscore, hscore', hvalue, -, -, hpadding, -, hreal, -⟩ :=
    Model.score_slotwise (.executor e sharedKernelArchive he) (.constant zero)
      ⟨[.constant one, .constant zero], [true, false], rfl, .head _⟩
      ⟨[.constant zero, .constant one], [true, true], rfl, .head _⟩
  obtain ⟨score, hscored, hscored'⟩ := hreal 0 1 (.constant one) rfl rfl
  exact ⟨scored, scored', score, hscore, hscore', hvalue, hpadding 1 rfl, hscored, hscored'⟩

end PolicyValue
