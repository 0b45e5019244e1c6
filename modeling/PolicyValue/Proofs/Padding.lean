import PolicyValue.Proofs.SignedZero
import PolicyValue.Proofs.Slotwise
import PolicyValue.Scalar.Binary32

/-!
# Padding changes no prediction

Padding scores negative infinity.  Such a score is no finite one, so it does not move the greatest
finite score, and its weight is zero, so it does not move the sum of the weights: that sum starts
from positive zero and never reaches negative zero, the one scalar that adding zero would change.

* `sum_weights`: the running sum over the slots is the one over the real slots;
* `select_maskedSoftmax`: the probabilities of the real slots are the softmax of their scores;
* `Model.padding_irrelevant`: a prediction is determined by the real actions in their order.
-/

namespace PolicyValue

open Scalar (zero one negZero negInfinity)

/-! ## Real slots -/

section

variable {α : Type}

/-- What is real among slots, in order. -/
def reals (slots : List (α × Bool)) : List α := (slots.filter Prod.snd).map Prod.fst

/-- The entries of a list that a mask marks, in order. -/
def select (xs : List α) (mask : List Bool) : List α := reals (xs.zip mask)

/-- The entries computed from slots that the slots' own mask selects. -/
theorem select_map {β : Type} (f : α × Bool → β) (slots : List (α × Bool)) :
    select (slots.map f) (slots.map Prod.snd) = (slots.filter Prod.snd).map f := by
  rw [select, reals, List.zip_map', List.filter_map, List.map_map]
  rfl

/-- What is computed from real slots does not see that they are slots. -/
theorem map_filter_slots {β : Type} {f : α × Bool → β} {g : α → β} (slots : List (α × Bool))
    (h : ∀ x, f (x, true) = g x) : (slots.filter Prod.snd).map f = (reals slots).map g := by
  rw [reals, List.map_map]
  apply List.map_congr_left
  rintro ⟨x, valid⟩ hx
  obtain rfl : valid = true := (List.mem_filter.1 hx).2
  exact h x

/-- The scores of real slots are those of what is real. -/
theorem select_scores (score : α → Float32) (slots : List (α × Bool)) :
    select (slots.map (slotScore score)) (slots.map Prod.snd) = (reals slots).map score := by
  rw [select_map]
  exact map_filter_slots slots fun x => rfl

/-! ## The softmax of slots -/

/-- Padding has no finite score. -/
theorem filter_isFinite_scores (score : α → Float32) (slots : List (α × Bool)) :
    (slots.map (slotScore score)).filter Float32.isFinite =
      ((reals slots).map score).filter Float32.isFinite := by
  induction slots with
  | nil => rfl
  | cons slot slots ih =>
    obtain ⟨x, valid⟩ := slot
    cases valid with
    | true =>
      show (score x :: slots.map (slotScore score)).filter Float32.isFinite =
        (score x :: (reals slots).map score).filter Float32.isFinite
      rw [List.filter_cons, List.filter_cons, ih]
    | false =>
      show (negInfinity :: slots.map (slotScore score)).filter Float32.isFinite =
        ((reals slots).map score).filter Float32.isFinite
      have hpadding : ¬ negInfinity.isFinite = true := by decide
      rw [List.filter_cons_of_neg hpadding, ih]

variable [Arithmetic]

/-- Padding has no weight. -/
theorem weightOf_negInfinity (top : Float32) : weightOf top negInfinity = zero := by
  have hequal : (negInfinity == negInfinity) = true := by decide
  rw [weightOf, if_pos hequal]

/-- A running sum of weights that is not negative zero passes over padding. -/
theorem foldl_weights (hadd : ∀ x y : Float32, add x y = x + y) (top : Float32)
    (score : α → Float32) (slots : List (α × Bool)) {acc : Float32} (hacc : acc ≠ negZero) :
    ((slots.map (slotScore score)).map (weightOf top)).foldl add acc =
      (((reals slots).map score).map (weightOf top)).foldl add acc := by
  induction slots generalizing acc with
  | nil => rfl
  | cons slot slots ih =>
    obtain ⟨x, valid⟩ := slot
    cases valid with
    | true =>
      have hnext : add acc (weightOf top (score x)) ≠ negZero := by
        rw [hadd]
        exact Scalar.add_ne_negZero hacc _
      exact ih hnext
    | false =>
      show ((slots.map (slotScore score)).map (weightOf top)).foldl add
        (add acc (weightOf top negInfinity)) = _
      rw [weightOf_negInfinity, hadd, Scalar.add_zero_eq_self hacc]
      exact ih hacc

/-- The sum of the weights of slots is that of the real ones. -/
theorem sum_weights (hadd : ∀ x y : Float32, add x y = x + y) (top : Float32)
    (score : α → Float32) (slots : List (α × Bool)) :
    sum ((slots.map (slotScore score)).map (weightOf top)) =
      sum (((reals slots).map score).map (weightOf top)) :=
  foldl_weights hadd top score slots (by decide)

/-- **The probabilities of real slots are the softmax of their scores**, whatever the padding. -/
theorem select_maskedSoftmax (hadd : ∀ x y : Float32, add x y = x + y) (score : α → Float32)
    (slots : List (α × Bool)) :
    select (maskedSoftmax (slots.map (slotScore score))) (slots.map Prod.snd) =
      maskedSoftmax ((reals slots).map score) := by
  unfold maskedSoftmax
  rw [filter_isFinite_scores]
  cases greatest? (((reals slots).map score).filter Float32.isFinite) with
  | none =>
    dsimp only
    rw [List.map_map, List.map_map, select_map]
    exact map_filter_slots slots fun x => rfl
  | some top =>
    dsimp only
    rw [sum_weights hadd, List.map_map, List.map_map, List.map_map, List.map_map, select_map]
    exact map_filter_slots slots fun x => rfl

end

/-! ## Predictions -/

/-- The real actions of a batch, in order. -/
def ActionBatch.realActions (b : ActionBatch) : List ActionVector := reals b.slots

/-- **Padding never changes a prediction.**  Batches with the same real actions in the same order
have the same value, and on their real slots, in order, the same scores and probabilities.  Of the
arithmetic it is used that `add` is the sum of scalars. -/
theorem Model.padding_irrelevant [Arithmetic] (hadd : ∀ x y : Float32, add x y = x + y)
    (m : Model) (state : StateVector) {b b' : ActionBatch} (h : b.realActions = b'.realActions) :
    ∃ (scored scored' : ScoredBatch) (prediction prediction' : Prediction),
      Evaluator.score m state b = .ok scored ∧ Evaluator.score m state b' = .ok scored' ∧
      Evaluator.policy m state b = .ok prediction ∧
      Evaluator.policy m state b' = .ok prediction' ∧
      scored.scores.length = b.size ∧ scored'.scores.length = b'.size ∧
      prediction.policy.length = b.size ∧ prediction'.policy.length = b'.size ∧
      scored.value = scored'.value ∧
      select scored.scores b.mask = select scored'.scores b'.mask ∧
      prediction.value = prediction'.value ∧
      select prediction.policy b.mask = select prediction'.policy b'.mask := by
  obtain ⟨score, value, hscore⟩ := m.exists_scoring state
  have hreals : reals b.slots = reals b'.slots := h
  have hscores : ∀ batch : ActionBatch, (batch.slots.map (slotScore score)).length = batch.size :=
    fun batch => (List.length_map _).trans batch.length_slots
  have hpolicy : ∀ batch : ActionBatch,
      (maskedSoftmax (batch.slots.map (slotScore score))).length = batch.size :=
    fun batch => (length_maskedSoftmax _).trans (hscores batch)
  refine ⟨_, _, _, _, hscore b, hscore b', Evaluator.policy_eq_ok (hscore b),
    Evaluator.policy_eq_ok (hscore b'), hscores b, hscores b', hpolicy b, hpolicy b', rfl, ?_, rfl,
    ?_⟩
  · rw [← b.map_snd_slots, ← b'.map_snd_slots, select_scores, select_scores, hreals]
  · rw [← b.map_snd_slots, ← b'.map_snd_slots, select_maskedSoftmax hadd,
      select_maskedSoftmax hadd, hreals]

/-- One action between two padded slots. -/
def paddedBatch : ActionBatch :=
  ⟨[.constant zero, .constant one, .constant zero], [false, true, false], rfl, by decide⟩

/-- The action of `paddedBatch` alone. -/
def bareBatch : ActionBatch := .single (.constant one)

/-- A network of the least widths predicts the same for an action with padding and without. -/
theorem Model.padding_irrelevant_single :
    bareBatch.realActions = paddedBatch.realActions ∧ ∃ (net : Network) (value : Float32)
      (scored scored' : ScoredBatch) (prediction prediction' : Prediction),
      Network.draw Network.Config.single 7 = .ok net ∧
      Evaluator.score net (.constant zero) bareBatch = .ok scored ∧
      Evaluator.score net (.constant zero) paddedBatch = .ok scored' ∧
      Evaluator.policy net (.constant zero) bareBatch = .ok prediction ∧
      Evaluator.policy net (.constant zero) paddedBatch = .ok prediction' ∧
      select scored.scores [true] = select scored'.scores [false, true, false] ∧
      select prediction.policy [true] = select prediction'.policy [false, true, false] ∧
      scored.value = value ∧ scored'.value = value := by
  obtain ⟨net, hnet⟩ := Network.exists_draw Network.Config.positive_single 7
  have hreals : bareBatch.realActions = paddedBatch.realActions := rfl
  obtain ⟨scored, scored', prediction, prediction', hscore, hscore', hpolicy, hpolicy', -, -, -, -,
    hvalue, hscores, -, hprobabilities⟩ := Model.padding_irrelevant (fun _ _ => rfl)
      (.network net (.draw hnet)) (.constant zero) hreals
  exact ⟨hreals, net, _, scored, scored', prediction, prediction', hnet, hscore, hscore', hpolicy,
    hpolicy', hscores, hprobabilities, rfl, hvalue.symm⟩

end PolicyValue
