import PolicyValue.Proofs.Bundle
import PolicyValue.Proofs.NotANumber
import PolicyValue.Proofs.Slotwise

/-!
# The range of the value

The value of a state is the hyperbolic tangent of one sum, whose terms are the products of the last
layer and its bias.  So it lies between -1 and 1, unless that sum is a NaN.  Nothing before the sum
matters, because the positive part hides a NaN; but an infinity that passes it meets the last
weights.

* `Linear.terms`: what an affine layer adds up;
* `Network.value_mem_or_isNaN`: when the value is in its range, and when it is a NaN;
* `Network.value_isNaN_overflow`: finite parameters and features with which it is one.
-/

namespace PolicyValue

open Scalar (zero one negZero infinity negInfinity)

section

variable [Arithmetic]

/-- What an affine layer adds up for each output: the products, then the bias. -/
def Linear.terms (l : Linear) (input : List Float32) : List (List Float32) :=
  List.zipWith (fun row b => List.zipWith mul input row ++ [b]) l.weight l.bias

/-- The outputs of an affine layer are the sums of their terms. -/
theorem Linear.forward_eq_map_sum (l : Linear) (input : List Float32) :
    l.forward input = (l.terms input).map sum := by
  rw [forward, terms, List.map_zipWith]
  congr 1
  funext row b
  rw [sum_concat, dot_eq_sum]

/-- The inputs of the last layer of a value head. -/
def ValueHead.hidden (h : ValueHead) (embedding : List Float32) : List Float32 :=
  (h.fc1.forward embedding).map rectify

/-- A head with one output takes the hyperbolic tangent of the sum of its terms. -/
theorem ValueHead.forward_eq_ok {h : ValueHead} {row : List Float32} {b : Float32}
    (hweight : h.fc2.weight = [row]) (hbias : h.fc2.bias = [b]) (embedding : List Float32) :
    h.forward embedding =
      .ok (tanh (sum (List.zipWith mul (h.hidden embedding) row ++ [b]))) := by
  have hsum : h.fc2.forward (h.hidden embedding) =
      [sum (List.zipWith mul (h.hidden embedding) row ++ [b])] := by
    rw [Linear.forward_eq_map_sum, Linear.terms, hweight, hbias]
    rfl
  exact congrArg (fun xs : List Float32 => singleOutput (xs.map tanh)) hsum

omit [Arithmetic] in
/-- The last layer of a well-formed network's value head has one row and one bias. -/
theorem Network.WellFormed.exists_lastRow {net : Network} (h : net.WellFormed) :
    ∃ row b, net.head.fc2.weight = [row] ∧ net.head.fc2.bias = [b] := by
  have hfc2 : net.head.fc2.WellShaped := h.layers _ net.head_mem _ (.tail _ (.head _))
  have houtputs := h.outputs_head
  obtain ⟨row, hrow⟩ := List.length_eq_one_iff.1 (hfc2.length_weight.trans houtputs)
  obtain ⟨b, hb⟩ := List.length_eq_one_iff.1 (hfc2.length_bias.trans houtputs)
  exact ⟨row, b, hrow, hb⟩

/-- Products of positive parts with finite weights: one is a NaN exactly if an infinity meets a
zero. -/
theorem exists_isNaN_zipWith_mul_iff (hmul : ∀ x y : Float32, mul x y = x * y)
    {xs row : List Float32} (hrow : ∀ w ∈ row, w.isFinite = true) :
    (∃ t ∈ List.zipWith mul (xs.map rectify) row, t.isNaN = true) ↔
      ∃ i : Nat, (xs.map rectify)[i]? = some infinity ∧
        (row[i]? = some zero ∨ row[i]? = some negZero) := by
  constructor
  · rintro ⟨t, ht, hnan⟩
    obtain ⟨i, hi⟩ := List.mem_iff_getElem?.1 ht
    obtain ⟨x, w, hx, hw, rfl⟩ := List.getElem?_zipWith_eq_some.1 hi
    have hx' := hx
    rw [List.getElem?_map] at hx'
    obtain ⟨y, -, rfl⟩ := Option.map_eq_some_iff.1 hx'
    rw [hmul, isNaN_rectify_mul_iff (hrow w (List.mem_of_getElem? hw))] at hnan
    obtain ⟨hinfinite, hzero⟩ := hnan
    refine ⟨i, hinfinite ▸ hx, ?_⟩
    rcases hzero with rfl | rfl
    · exact .inl hw
    · exact .inr hw
  · rintro ⟨i, hx, hw⟩
    have hzero : ∃ w, row[i]? = some w ∧ (w = zero ∨ w = negZero) := by
      rcases hw with hw | hw
      · exact ⟨_, hw, .inl rfl⟩
      · exact ⟨_, hw, .inr rfl⟩
    obtain ⟨w, hw, hzero⟩ := hzero
    have hproduct : (List.zipWith mul (xs.map rectify) row)[i]? = some (mul infinity w) :=
      List.getElem?_zipWith_eq_some.2 ⟨_, _, hx, hw, rfl⟩
    refine ⟨mul infinity w, List.mem_of_getElem? hproduct, ?_⟩
    rw [hmul, Scalar.isNaN_mul_iff]
    exact .inr (.inr (.inl ⟨.inl rfl, hzero⟩))

omit [Arithmetic] in
/-- A last term that is a number adds no NaN. -/
theorem exists_isNaN_concat_iff {terms : List Float32} {b : Float32} (hb : b.isNaN = false) :
    (∃ t ∈ terms ++ [b], t.isNaN = true) ↔ ∃ t ∈ terms, t.isNaN = true := by
  simp only [List.mem_append, List.mem_singleton, or_and_right, exists_or, exists_eq_left, hb,
    Bool.false_eq_true, or_false]

/-- A hyperbolic tangent that is a number in the range of every number, and keeps a NaN, makes none. -/
theorem isNaN_tanh_iff
    (htanh : ∀ x : Float32, x.isNaN = false → -one ≤ tanh x ∧ tanh x ≤ one)
    (htanhNaN : ∀ x : Float32, x.isNaN = true → (tanh x).isNaN = true) {x : Float32} :
    (tanh x).isNaN = true ↔ x.isNaN = true := by
  refine ⟨fun hvalue => ?_, htanhNaN x⟩
  by_contra hx
  obtain ⟨hle, -⟩ := htanh x (Bool.eq_false_iff.2 hx)
  rw [(Scalar.not_isNaN_of_le hle).2] at hvalue
  cases hvalue

namespace Network

/-- **The value lies between -1 and 1 unless the last sum is a NaN.**  Whatever was loaded and
whatever the features are, the value is a NaN exactly if a term of the last layer is one, or if
infinite terms or partial sums of both signs meet.  Finite weights make a NaN of a term only where an
infinity that passed the positive part meets a zero.  If all terms are finite, the value is in its
range. -/
theorem value_mem_or_isNaN (hadd : ∀ x y : Float32, add x y = x + y)
    (hmul : ∀ x y : Float32, mul x y = x * y)
    (htanh : ∀ x : Float32, x.isNaN = false → -one ≤ tanh x ∧ tanh x ≤ one)
    (htanhNaN : ∀ x : Float32, x.isNaN = true → (tanh x).isNaN = true)
    {net : Network} (h : net.Reachable) (state : StateVector) (batch : ActionBatch) :
    ∃ scored prediction row bias,
      Evaluator.score net state batch = .ok scored ∧
      Evaluator.policy net state batch = .ok prediction ∧ prediction.value = scored.value ∧
      net.head.fc2.weight = [row] ∧ net.head.fc2.bias = [bias] ∧
      let hidden := net.head.hidden (net.valueState.forward state.values)
      let terms := List.zipWith mul hidden row ++ [bias]
      (scored.value.isNaN = true ↔ (∃ t ∈ terms, t.isNaN = true) ∨ Clashes terms) ∧
      (scored.value.isNaN = false → -one ≤ scored.value ∧ scored.value ≤ one) ∧
      ((∀ t ∈ terms, t.isFinite = true) → -one ≤ scored.value ∧ scored.value ≤ one) ∧
      ((∀ w ∈ row, w.isFinite = true) → bias.isFinite = true →
        ((∃ t ∈ terms, t.isNaN = true) ↔ ∃ i : Nat, hidden[i]? = some infinity ∧
          (row[i]? = some zero ∨ row[i]? = some negZero))) := by
  have hwell := h.wellFormed
  obtain ⟨scored, hscored⟩ := hwell.exists_score state batch
  obtain ⟨row, bias, hrow, hbias⟩ := hwell.exists_lastRow
  obtain ⟨scores, value, -, hvalue, rfl⟩ := score_eq_ok.1 hscored
  rw [ValueHead.forward_eq_ok hrow hbias] at hvalue
  obtain rfl := Except.ok.inj hvalue
  refine ⟨_, _, row, bias, hscored, Evaluator.policy_eq_ok hscored, rfl, hrow, hbias, ?_⟩
  intro hidden terms
  have hnan : (tanh (sum terms)).isNaN = true ↔ (∃ t ∈ terms, t.isNaN = true) ∨ Clashes terms :=
    (isNaN_tanh_iff htanh htanhNaN).trans (isNaN_sum_iff hadd)
  have hrange : (tanh (sum terms)).isNaN = false →
      -one ≤ tanh (sum terms) ∧ tanh (sum terms) ≤ one := by
    intro hvalue
    refine htanh _ (Bool.eq_false_iff.2 fun hsum => ?_)
    rw [htanhNaN _ hsum] at hvalue
    cases hvalue
  refine ⟨hnan, hrange, fun hfinite => hrange (Bool.eq_false_iff.2 fun hvalue => ?_), ?_⟩
  · rcases hnan.1 hvalue with ⟨t, ht, htnan⟩ | hclash
    · rw [Scalar.isNaN_of_isFinite (hfinite t ht)] at htnan
      cases htnan
    · exact not_clashes_of_finite hfinite hclash
  · intro hrow hbias
    exact (exists_isNaN_concat_iff (Scalar.isNaN_of_isFinite hbias)).trans
      (exists_isNaN_zipWith_mul_iff hmul hrow)

end Network

end

/-! ## A bounded hyperbolic tangent -/

/-- Binary32 arithmetic with a hyperbolic tangent that is one and minus one far from zero, and the
identity between them. -/
@[reducible]
def Arithmetic.clamped : Arithmetic :=
  { Arithmetic.binary32 with
    tanh := fun x => if x ≤ one then if -one ≤ x then x else -one else if x.isNaN then x else one }

/-- Numbers are taken into the range from -1 to 1. -/
theorem Arithmetic.clamped_mem {x : Float32} (h : x.isNaN = false) :
    -one ≤ clamped.tanh x ∧ clamped.tanh x ≤ one := by
  show -one ≤ (if x ≤ one then if -one ≤ x then x else -one else if x.isNaN then x else one) ∧
    (if x ≤ one then if -one ≤ x then x else -one else if x.isNaN then x else one) ≤ one
  split
  next hle =>
    split
    next hge => exact ⟨hge, hle⟩
    next => decide
  next =>
    rw [h, if_neg Bool.false_ne_true]
    decide

/-- A NaN stays one. -/
theorem Arithmetic.isNaN_clamped {x : Float32} (h : x.isNaN = true) :
    (clamped.tanh x).isNaN = true := by
  have hle : ¬ x ≤ one := by
    intro hle
    rw [(Scalar.not_isNaN_of_le hle).1] at h
    cases h
  show (if x ≤ one then if -one ≤ x then x else -one else if x.isNaN then x else one).isNaN = true
  rw [if_neg hle, if_pos h]
  exact h

/-! ## A value that overflows -/

/-- An affine layer all of whose weights are one number, without biases. -/
def Linear.constant (inputs outputs : Nat) (w : Float32) : Linear :=
  ⟨inputs, outputs, List.replicate outputs (List.replicate inputs w), List.replicate outputs zero⟩

/-- Weights of zero make nothing of features that are zero. -/
theorem Linear.forward_constant_zero [Arithmetic] (hadd : add zero zero = zero)
    (hmul : mul zero zero = zero) (inputs : Nat) :
    (constant inputs 1 zero).forward (List.replicate inputs zero) = [zero] := by
  have hsum : ∀ n, sum (List.replicate n zero) = zero := by
    intro n
    induction n with
    | zero => rfl
    | succ n ih => rw [List.replicate_succ', sum_concat, ih, hadd]
  have hdot : dot (List.replicate inputs zero) (List.replicate inputs zero) = zero := by
    rw [dot_eq_sum, List.zipWith_replicate', hmul, hsum]
  show [add (dot (List.replicate inputs zero) (List.replicate inputs zero)) zero] = [zero]
  rw [hdot, hadd]

/-- A layer with constant weights is well shaped if it has an input. -/
theorem Linear.wellShaped_constant {inputs : Nat} (h : 0 < inputs) (outputs : Nat) (w : Float32) :
    (constant inputs outputs w).WellShaped where
  length_weight := List.length_replicate
  length_row row hrow := by
    rw [List.eq_of_mem_replicate hrow]
    exact List.length_replicate
  length_bias := List.length_replicate
  inputs_pos := h

namespace Network

/-- A finite number whose square is too great. -/
def great : Float32 := Float32.ofBits 0x7149f2ca

/-- A network of widths one, all zero but for the end of the value path: every state is embedded as
one number, and the value head first multiplies it with itself. -/
def squaring (x : Float32) : Network where
  config := .single
  state := ⟨.constant stateSize 1 zero, .initial 1 Config.defaultEpsilon, .constant 1 1 zero,
    .initial 1 Config.defaultEpsilon⟩
  valueState := ⟨.constant stateSize 1 zero, .initial 1 Config.defaultEpsilon, .constant 1 1 zero,
    ⟨[zero], [x], Config.defaultEpsilon⟩⟩
  action := ⟨.constant actionSize 1 zero, .initial 1 Config.defaultEpsilon, .constant 1 1 zero⟩
  scorer := ⟨.constant 2 1 zero, .initial 1 Config.defaultEpsilon, .constant 1 1 zero⟩
  head := ⟨.constant 1 1 x, .constant 1 1 zero⟩

/-- The layers of a squaring network have the widths of its configuration. -/
theorem squaring_wellFormed (x : Float32) : (squaring x).WellFormed := by
  have hstate := Linear.wellShaped_constant (show 0 < stateSize by decide) 1 zero
  have haction := Linear.wellShaped_constant (show 0 < actionSize by decide) 1 zero
  have hjoint := Linear.wellShaped_constant (show 0 < 2 by decide) 1 zero
  have hone := Linear.wellShaped_constant Nat.one_pos 1
  have hnorm : (Layer.norm (.initial 1 Config.defaultEpsilon)).WellFormed Config.defaultEpsilon :=
    ⟨rfl, rfl⟩
  have hlast : (Layer.norm ⟨[zero], [x], Config.defaultEpsilon⟩).WellFormed Config.defaultEpsilon :=
    ⟨rfl, rfl⟩
  refine ⟨rfl, fun component hmem => ?_⟩
  simp only [components, List.mem_cons, List.not_mem_nil, or_false] at hmem
  rcases hmem with rfl | rfl | rfl | rfl | rfl
  · exact List.forall_mem_cons.2 ⟨hstate, List.forall_mem_cons.2 ⟨hnorm,
      List.forall_mem_cons.2 ⟨hone zero, List.forall_mem_singleton.2 hnorm⟩⟩⟩
  · exact List.forall_mem_cons.2 ⟨hstate, List.forall_mem_cons.2 ⟨hnorm,
      List.forall_mem_cons.2 ⟨hone zero, List.forall_mem_singleton.2 hlast⟩⟩⟩
  · exact List.forall_mem_cons.2 ⟨haction, List.forall_mem_cons.2 ⟨hnorm,
      List.forall_mem_singleton.2 (hone zero)⟩⟩
  · exact List.forall_mem_cons.2 ⟨hjoint, List.forall_mem_cons.2 ⟨hnorm,
      List.forall_mem_singleton.2 (hone zero)⟩⟩
  · exact List.forall_mem_cons.2 ⟨hone x, List.forall_mem_singleton.2 (hone zero)⟩

/-- A fresh network loads the export of a squaring network, and becomes it. -/
theorem exists_load_squaring (x : Float32) : ∃ fresh report, draw .single 7 = .ok fresh ∧
    fresh.load (squaring x).toArchive = (squaring x, .ok report) := by
  obtain ⟨fresh, hfresh, hwell, hconfig, -⟩ := exists_draw_single 7
  refine ⟨fresh, fresh.loadReport (squaring x).toArchive, hfresh, ?_⟩
  rw [load, stage_toArchive hwell (squaring_wellFormed x) hconfig Config.admissible_single]

/-- A squaring network can be reached by a load. -/
theorem squaring_reachable (x : Float32) : (squaring x).Reachable := by
  obtain ⟨fresh, report, hfresh, hload⟩ := exists_load_squaring x
  have hreachable := Reachable.load (.draw hfresh) (squaring x).toArchive
  rw [hload] at hreachable
  exact hreachable

/-- A batch of one action without features. -/
def oneAction : ActionBatch := .single (.constant zero)

/-- A squaring network embeds a state without features as its number. -/
theorem embedding_squaring {x : Float32} (h : x = one ∨ x = great) :
    @StateEncoder.forward .clamped (squaring x).valueState (StateVector.constant zero).values =
      [x] := by
  have hfc1 : @Linear.forward .clamped (squaring x).valueState.fc1
      (StateVector.constant zero).values = [zero] :=
    @Linear.forward_constant_zero .clamped (by decide) (by decide) stateSize
  unfold StateEncoder.forward
  rw [hfc1]
  rcases h with rfl | rfl
  · decide +kernel
  · decide +kernel

/-- The squaring network of one has a value in the range. -/
theorem value_mem_squaring_one : ∃ scored, (squaring one).Reachable ∧
    @Evaluator.score _ (@instEvaluator .clamped) (squaring one) (.constant zero) oneAction =
      .ok scored ∧ -one ≤ scored.value ∧ scored.value ≤ one := by
  let _ : Arithmetic := .clamped
  obtain ⟨scored, prediction, row, bias, hscored, -, -, hrow, hbias, -, -, hfinite, -⟩ :=
    value_mem_or_isNaN (fun _ _ => rfl) (fun _ _ => rfl) (fun _ => Arithmetic.clamped_mem)
      (fun _ => Arithmetic.isNaN_clamped) (squaring_reachable one) (.constant zero) oneAction
  obtain rfl : [zero] = row := (List.cons.inj hrow).1
  obtain rfl : zero = bias := (List.cons.inj hbias).1
  have hhidden : (squaring one).head.hidden ((squaring one).valueState.forward
      (StateVector.constant zero).values) = [one] := by
    rw [embedding_squaring (.inl rfl)]
    show @ValueHead.hidden .clamped (squaring one).head [one] = [one]
    decide +kernel
  rw [hhidden] at hfinite
  refine ⟨scored, squaring_reachable one, hscored, hfinite ?_⟩
  decide

/-- **Finite parameters and finite features can have a value that is a NaN.**  A fresh network loads an
archive without infinities, and the square of a finite number in it overflows; the last weight, which
is zero, makes a NaN of that, and the hyperbolic tangent keeps it. -/
theorem value_isNaN_overflow : ∃ fresh report scored,
    draw .single 7 = .ok fresh ∧
    fresh.load (squaring great).toArchive = (squaring great, .ok report) ∧
    Scalar.allFinite (squaring great).toArchive.scalars = true ∧
    Scalar.Admissible (squaring great).toArchive.header.epsilon ∧
    Scalar.allFinite (StateVector.constant zero).values = true ∧
    @Evaluator.score _ (@instEvaluator .clamped) (squaring great) (.constant zero) oneAction =
      .ok scored ∧ scored.value.isNaN = true ∧ ¬ (-one ≤ scored.value ∧ scored.value ≤ one) := by
  obtain ⟨fresh, report, hfresh, hload⟩ := exists_load_squaring great
  obtain ⟨scored, hscored⟩ :=
    @WellFormed.exists_score .clamped _ (squaring_wellFormed great) (.constant zero) oneAction
  obtain ⟨scores, value, -, hvalue, rfl⟩ := (@score_eq_ok .clamped _ _ _ _).1 hscored
  have hnan : @ValueHead.forward .clamped (squaring great).head [great] = .ok Float32.nan := by
    decide +kernel
  rw [embedding_squaring (.inr rfl), hnan] at hvalue
  obtain rfl := Except.ok.inj hvalue
  refine ⟨fresh, report, _, hfresh, hload, ?_, Config.admissible_single, ?_, hscored, ?_, ?_⟩
  · decide +kernel
  · decide +kernel
  · exact (show Float32.nan.isNaN = true by decide)
  · rintro ⟨hle, -⟩
    have hnot : ¬ -one ≤ Float32.nan := by decide
    exact hnot hle

end Network

end PolicyValue
