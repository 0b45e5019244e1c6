import PolicyValue.Proofs.Forward
import PolicyValue.Proofs.InitialBound
import PolicyValue.Proofs.Loading
import PolicyValue.Proofs.Reimport
import PolicyValue.Proofs.Replay
import PolicyValue.Proofs.Slotwise

/-!
# Networks keep their shape and can always be run

The widths of a configuration decide whether a network can be drawn at all.  Once it is drawn, its
layers hold as many numbers as the widths say, whatever is loaded; and such layers fit together, so
that a forward pass never reads past the end of a vector, never cuts rows of width zero and never
normalizes an empty vector.

* `Network.draw_eq_error_iff`: which configurations have no network;
* `Network.WellFormed.parameterCount_eq`: the number of parameters, from the widths alone;
* `Pass.Runs`: a pass each of whose layers takes what it is given; `exists_runs`: progress and
  preservation over layers that fit together;
* `Network.draw_safe`: all this for a fresh network and what becomes of it in any sequence of loads.
-/

namespace PolicyValue

/-! ## Which networks can be drawn -/

/-- An outcome is no error but that of a range without bounds. -/
def FailsUnbounded {α : Type} (x : Except Error α) : Prop := ∀ e, x = .error e → e = .unboundedRange

theorem FailsUnbounded.bind {α β : Type} {x : Except Error α} {f : α → Except Error β}
    (hx : FailsUnbounded x) (hf : ∀ a, FailsUnbounded (f a)) : FailsUnbounded (x >>= f) := by
  intro e h
  cases x with
  | error e' =>
    rw [error_bind] at h
    cases h
    exact hx e rfl
  | ok a =>
    rw [ok_bind] at h
    exact hf a e h

theorem FailsUnbounded.pure {α : Type} (a : α) : FailsUnbounded (Pure.pure a : Except Error α) :=
  fun _ h => nomatch h

/-- Drawing a layer fails for want of bounds only. -/
theorem Linear.failsUnbounded_draw (inputs outputs : Nat) (g : Sampling.Generator) :
    FailsUnbounded (Linear.draw inputs outputs g) := by
  intro e h
  unfold draw at h
  split at h
  · cases h
    rfl
  · cases h

/-- Drawing two layers fails for want of bounds only. -/
theorem failsUnbounded_draw_two {α : Type} (inputs hidden outputs : Nat)
    (build : Linear → Linear → α) (g : Sampling.Generator) :
    FailsUnbounded (do
      let (fc1, g) ← Linear.draw inputs hidden g
      let (fc2, g) ← Linear.draw hidden outputs g
      return (build fc1 fc2, g)) :=
  (Linear.failsUnbounded_draw _ _ _).bind fun _ =>
    (Linear.failsUnbounded_draw _ _ _).bind fun _ => .pure _

namespace Network

/-- Drawing a network fails for want of bounds only. -/
theorem failsUnbounded_draw (c : Config) (seed : UInt64) : FailsUnbounded (draw c seed) := by
  refine (failsUnbounded_draw_two _ _ _ (fun fc1 fc2 => StateEncoder.mk fc1 _ fc2 _) _).bind
    fun _ => ?_
  refine (failsUnbounded_draw_two _ _ _ (fun fc1 fc2 => StateEncoder.mk fc1 _ fc2 _) _).bind
    fun _ => ?_
  refine (failsUnbounded_draw_two _ _ _ (fun fc1 fc2 => ActionEncoder.mk fc1 _ fc2) _).bind
    fun _ => ?_
  refine (failsUnbounded_draw_two _ _ _ (fun fc1 fc2 => ActionScorer.mk fc1 _ fc2) _).bind
    fun _ => ?_
  exact (failsUnbounded_draw_two _ _ _ ValueHead.mk _).bind fun _ => .pure _

/-- Widths that are not all positive, where they have to be, are those of which one is zero. -/
theorem Config.not_positive_iff {c : Config} : ¬ c.Positive ↔
    c.stateHidden = 0 ∨ c.stateEmbed = 0 ∨ c.actionHidden = 0 ∨ c.scorerHidden = 0 ∨
      c.valueHidden = 0 := by
  have hzero : ∀ n : UInt64, n = 0 ↔ ¬ 0 < n.toNat := fun n => by
    rw [← UInt64.toNat_inj, Nat.pos_iff_ne_zero, not_not]
    rfl
  simp only [hzero, ← not_and_or]
  exact not_congr ⟨fun h => ⟨h.1, h.2, h.3, h.4, h.5⟩, fun ⟨h₁, h₂, h₃, h₄, h₅⟩ => ⟨h₁, h₂, h₃, h₄, h₅⟩⟩

/-- **A network cannot be drawn exactly if one of the widths that are inputs is zero.** -/
theorem draw_eq_error_iff {c : Config} {seed : UInt64} :
    draw c seed = .error .unboundedRange ↔ ¬ c.Positive := by
  constructor
  · intro h hc
    obtain ⟨net, hnet⟩ := exists_draw hc seed
    rw [hnet] at h
    cases h
  · intro hc
    cases h : draw c seed with
    | error e => rw [failsUnbounded_draw c seed e h]
    | ok net =>
      obtain ⟨hwell, rfl⟩ := draw_wellFormed h
      exact absurd hwell.widths_pos hc

end Network

/-! ## Counting parameters -/

/-- The number of parameters of a layer of a shape. -/
def LayerShape.count : LayerShape → Nat
  | .affine inputs outputs => inputs * outputs + outputs
  | .norm features => 2 * features

/-- An affine layer has a weight for each pair of an input and an output. -/
theorem Linear.WellShaped.length_flatten {l : Linear} (h : l.WellShaped) :
    l.weight.flatten.length = l.inputs * l.outputs := by
  rw [length_flatten_of_length l.inputs l.weight h.length_row, h.length_weight, Nat.mul_comm]

/-- A well-formed layer has as many parameters as its shape. -/
theorem Layer.WellFormed.parameterCount_eq {epsilon : Float32} {layer : Layer}
    (h : layer.WellFormed epsilon) : layer.parameterCount = layer.shape.count := by
  cases layer with
  | linear l =>
    have hl : l.WellShaped := h
    show l.weight.flatten.length + l.bias.length = l.inputs * l.outputs + l.outputs
    rw [hl.length_flatten, hl.length_bias]
  | norm n =>
    show n.gamma.length + n.beta.length = 2 * n.features
    rw [h.1, LayerNorm.features, Nat.two_mul]

/-- Well-formed layers have as many parameters as their shapes. -/
theorem Layers.WellFormed.parameterCount_eq {epsilon : Float32} {layers : Layers}
    (h : layers.WellFormed epsilon) :
    layers.parameterCount = (layers.shape.map LayerShape.count).sum := by
  induction layers with
  | nil => rfl
  | cons entry layers ih =>
    obtain ⟨name, layer⟩ := entry
    obtain ⟨hlayer, hlayers⟩ := Layers.wellFormed_cons.1 h
    show layer.parameterCount + Layers.parameterCount layers =
      (layer.shape.count :: (Layers.shape layers).map LayerShape.count).sum
    rw [ih hlayers, hlayer.parameterCount_eq, List.sum_cons]

namespace Network

/-- The number of parameters of a network with some widths. -/
def Config.parameterCount (c : Config) : Nat :=
  let state := (stateSize * c.stateHidden.toNat + c.stateHidden.toNat) + 2 * c.stateHidden.toNat +
    (c.stateHidden.toNat * c.stateEmbed.toNat + c.stateEmbed.toNat) + 2 * c.stateEmbed.toNat
  let action := (actionSize * c.actionHidden.toNat + c.actionHidden.toNat) +
    2 * c.actionHidden.toNat + (c.actionHidden.toNat * c.actionEmbed.toNat + c.actionEmbed.toNat)
  let scorer := ((c.stateEmbed.toNat + c.actionEmbed.toNat) * c.scorerHidden.toNat +
    c.scorerHidden.toNat) + 2 * c.scorerHidden.toNat + (c.scorerHidden.toNat + 1)
  let head := (c.stateEmbed.toNat * c.valueHidden.toNat + c.valueHidden.toNat) +
    (c.valueHidden.toNat + 1)
  2 * state + action + scorer + head

/-- The shapes of a configuration have as many parameters as its widths say. -/
theorem Config.sum_count_shape (c : Config) :
    (c.shape.flatten.map LayerShape.count).sum = c.parameterCount := by
  simp only [Config.shape, StateEncoder.shape, ActionEncoder.shape, ActionScorer.shape,
    ValueHead.shape, List.flatten_cons, List.flatten_nil, List.append_nil, List.cons_append,
    List.nil_append, List.map_cons, List.map_nil, List.sum_cons, List.sum_nil, LayerShape.count,
    Config.parameterCount]
  omega

/-- **The number of parameters of a well-formed network follows from the widths alone.** -/
theorem WellFormed.parameterCount_eq {net : Network} (h : net.WellFormed) :
    net.parameterCount = net.config.parameterCount := by
  have hlayers : Layers.WellFormed net.config.epsilon (net.components.flatMap Prod.snd) := by
    intro entry hentry
    obtain ⟨component, hcomponent, hmem⟩ := List.mem_flatMap.1 hentry
    exact h.layers component hcomponent entry hmem
  show Layers.parameterCount (net.components.flatMap Prod.snd) = _
  rw [hlayers.parameterCount_eq, ← net.config.sum_count_shape, ← h.shape_eq]
  rfl

end Network

/-! ## Layers that fit together -/

namespace LayerShape

/-- Layers of these shapes, one after the other, take vectors of one width to vectors of another, and
none of them is given a vector without entries. -/
inductive Links : List LayerShape → Nat → Nat → Prop
  | nil {width : Nat} : Links [] width width
  | affine {inputs outputs after : Nat} {shapes : List LayerShape} (inputs_pos : 0 < inputs)
      (tail : Links shapes outputs after) : Links (.affine inputs outputs :: shapes) inputs after
  | norm {features after : Nat} {shapes : List LayerShape} (features_pos : 0 < features)
      (tail : Links shapes features after) : Links (.norm features :: shapes) features after

end LayerShape

theorem StateEncoder.links {hidden embed : Nat} (hhidden : 0 < hidden) (hembed : 0 < embed) :
    LayerShape.Links (StateEncoder.shape hidden embed) stateSize embed :=
  .affine (by decide) (.norm hhidden (.affine hhidden (.norm hembed .nil)))

theorem ActionEncoder.links {hidden : Nat} (hhidden : 0 < hidden) (embed : Nat) :
    LayerShape.Links (ActionEncoder.shape hidden embed) actionSize embed :=
  .affine (by decide) (.norm hhidden (.affine hhidden .nil))

theorem ActionScorer.links {stateWidth actionWidth hidden : Nat} (hinputs : 0 < stateWidth)
    (hhidden : 0 < hidden) :
    LayerShape.Links (ActionScorer.shape stateWidth actionWidth hidden) (stateWidth + actionWidth)
      1 :=
  .affine (Nat.add_pos_left hinputs _) (.norm hhidden (.affine hhidden .nil))

theorem ValueHead.links {stateWidth hidden : Nat} (hinputs : 0 < stateWidth)
    (hhidden : 0 < hidden) : LayerShape.Links (ValueHead.shape stateWidth hidden) stateWidth 1 :=
  .affine hinputs (.affine hhidden .nil)

/-! ## Running a pass -/

/-- A layer can be run on a vector: its rows have a positive width, which is that of the vector, and
each has a bias; or the vector has entries, and each of them a factor and a shift. -/
def Layer.Accepts : Layer → List Float32 → Prop
  | .linear l, x => 0 < l.inputs ∧ x.length = l.inputs ∧ (∀ row ∈ l.weight, row.length = x.length) ∧
      l.weight.length = l.bias.length
  | .norm n, x => x ≠ [] ∧ n.gamma.length = x.length ∧ n.beta.length = x.length

section

variable [Arithmetic]

/-- A pass runs from one vector to another: every layer accepts what the layers before it gave. -/
inductive Pass.Runs : Pass → List Float32 → List Float32 → Prop
  | nil {x : List Float32} : Runs [] x x
  | cons {s : Stage} {p : Pass} {x y : List Float32} (head : s.layer.Accepts x)
      (tail : Runs p (s.forward x) y) : Runs (s :: p) x y

/-- A pass that runs gives the vector it runs to. -/
theorem Pass.Runs.forward_eq {p : Pass} {x y : List Float32} (h : p.Runs x y) :
    p.forward x = y := by
  induction h with
  | nil => rfl
  | cons _ _ ih => exact ih

/-- The positive parts of a vector are as many as its entries. -/
theorem Stage.length_forward (s : Stage) (x : List Float32) :
    (s.forward x).length = (s.layer.forward x).length := by
  rw [Stage.forward]
  split
  · exact List.length_map _
  · rfl

/-- **A pass over well-formed layers that fit together runs from every vector of the first width**, to
one of the last. -/
theorem Pass.exists_runs {epsilon : Float32} {p : Pass} {w w' : Nat}
    (hp : p.layers.WellFormed epsilon) (h : LayerShape.Links p.layers.shape w w')
    {x : List Float32} (hx : x.length = w) : ∃ y, p.Runs x y ∧ y.length = w' := by
  induction p generalizing w x with
  | nil =>
    have hnil : LayerShape.Links [] w w' := h
    cases hnil
    exact ⟨x, .nil, hx⟩
  | cons s p ih =>
    obtain ⟨hlayer, hlayers⟩ := Layers.wellFormed_cons.1 hp
    have hcons : LayerShape.Links (s.layer.shape :: (Pass.layers p).shape) w w' := h
    -- A layer accepts vectors of its input width, and gives vectors of its output width.
    cases hkind : s.layer with
    | linear l =>
      rw [hkind] at hcons hlayer
      have hl : l.WellShaped := hlayer
      cases hcons with
      | affine inputs_pos tail =>
        have hlength : (s.forward x).length = l.outputs := by
          rw [s.length_forward, hkind]
          exact Linear.length_forward hl x
        obtain ⟨y, hy, hylength⟩ := ih hlayers tail hlength
        refine ⟨y, .cons ?_ hy, hylength⟩
        rw [hkind]
        exact ⟨inputs_pos, hx, fun row hr => (hl.length_row row hr).trans hx.symm,
          hl.length_weight.trans hl.length_bias.symm⟩
    | norm n =>
      rw [hkind] at hcons hlayer
      cases hcons with
      | norm features_pos tail =>
        have hbeta : n.beta.length = x.length := hlayer.1.trans hx.symm
        have hlength : (s.forward x).length = n.features := by
          rw [s.length_forward, hkind]
          exact (length_normalize n.epsilon hx.symm hbeta).trans hx
        obtain ⟨y, hy, hylength⟩ := ih hlayers tail hlength
        refine ⟨y, .cons ?_ hy, hylength⟩
        rw [hkind]
        exact ⟨List.ne_nil_of_length_pos (hx ▸ features_pos), hx.symm, hbeta⟩

/-- Any pass over well-formed layers that fit together runs. -/
theorem Layers.WellFormed.exists_runs {epsilon : Float32} {layers : Layers} {p : Pass} {w w' : Nat}
    (h : layers.WellFormed epsilon) (hp : p.layers = layers)
    (hlinks : LayerShape.Links layers.shape w w') {x : List Float32} (hx : x.length = w) :
    ∃ y, p.Runs x y ∧ y.length = w' := by
  subst hp
  exact Pass.exists_runs h hlinks hx

namespace Network

/-! ## Forward passes -/

/-- A forward pass in which every layer accepts what it is given, and the scorer and the value head
have the one output that is read. -/
inductive Scores (net : Network) (state : StateVector) (batch : ActionBatch) : ScoredBatch → Prop
  | intro {embedding valueEmbedding scores : List Float32} {output : Float32}
      (state_runs : net.state.layers.encoderPass.Runs state.values embedding)
      (value_runs : net.valueState.layers.encoderPass.Runs state.values valueEmbedding)
      (actions_run : List.Forall₂ (fun action score => ∃ encoded,
        net.action.layers.encoderPass.Runs action.values encoded ∧
          net.scorer.layers.encoderPass.Runs (embedding ++ encoded) [score]) batch.actions scores)
      (head_runs : net.head.layers.headPass.Runs valueEmbedding [output]) :
      Scores net state batch ⟨maskScores scores batch.mask, tanh output⟩

/-- A forward pass of layers that accept what they are given is what scoring computes. -/
theorem Scores.score_eq {net : Network} {state : StateVector} {batch : ActionBatch}
    {scored : ScoredBatch} (h : net.Scores state batch scored) :
    net.score state batch = .ok scored := by
  cases h with
  | @intro embedding valueEmbedding scores output hstate hvalue hactions hhead =>
    have hembedding : net.state.forward state.values = embedding := hstate.forward_eq
    have hvalueEmbedding : net.valueState.forward state.values = valueEmbedding := hvalue.forward_eq
    have houtput : net.head.forward valueEmbedding = .ok (tanh output) :=
      congrArg (fun xs : List Float32 => singleOutput (xs.map tanh)) hhead.forward_eq
    refine score_eq_ok.2 ⟨scores, tanh output, mapM_eq_ok.2 ?_, ?_, rfl⟩
    · rw [hembedding]
      refine hactions.imp ?_
      rintro action score ⟨encoded, hencoded, hscore⟩
      have hencoded' : net.action.forward action.values = encoded := hencoded.forward_eq
      rw [scoreAction, hencoded']
      exact congrArg singleOutput hscore.forward_eq
    · rw [hvalueEmbedding, houtput]

/-- **A well-formed network passes forward over every state and batch.** -/
theorem WellFormed.exists_scores {net : Network} (h : net.WellFormed) (state : StateVector)
    (batch : ActionBatch) : ∃ scored, net.Scores state batch scored := by
  obtain ⟨hstate, hvalue, haction, hscorer, hhead⟩ := h.shapes
  have hc := h.widths_pos
  obtain ⟨embedding, hstate_runs, hembedding⟩ :=
    (h.layers _ net.state_mem).exists_runs (Layers.layers_encoderPass _)
      (hstate ▸ StateEncoder.links hc.stateHidden hc.stateEmbed) state.length_values
  obtain ⟨valueEmbedding, hvalue_runs, hvalueEmbedding⟩ :=
    (h.layers _ net.valueState_mem).exists_runs (Layers.layers_encoderPass _)
      (hvalue ▸ StateEncoder.links hc.stateHidden hc.stateEmbed) state.length_values
  have hactions : ∀ action : ActionVector, ∃ score encoded,
      net.action.layers.encoderPass.Runs action.values encoded ∧
        net.scorer.layers.encoderPass.Runs (embedding ++ encoded) [score] := by
    intro action
    obtain ⟨encoded, haction_runs, hencoded⟩ :=
      (h.layers _ net.action_mem).exists_runs (Layers.layers_encoderPass _)
        (haction ▸ ActionEncoder.links hc.actionHidden _) action.length_values
    have hjoint : (embedding ++ encoded).length =
        net.config.stateEmbed.toNat + net.config.actionEmbed.toNat := by
      rw [List.length_append, hembedding, hencoded]
    obtain ⟨y, hscorer_runs, hone⟩ :=
      (h.layers _ net.scorer_mem).exists_runs (Layers.layers_encoderPass _)
        (hscorer ▸ ActionScorer.links hc.stateEmbed hc.scorerHidden) hjoint
    obtain ⟨score, rfl⟩ := List.length_eq_one_iff.1 hone
    exact ⟨score, encoded, haction_runs, hscorer_runs⟩
  choose score hscore using hactions
  obtain ⟨y, hhead_runs, hone⟩ :=
    (h.layers _ net.head_mem).exists_runs (Layers.layers_headPass _)
      (hhead ▸ ValueHead.links hc.stateEmbed hc.valueHidden) hvalueEmbedding
  obtain ⟨output, rfl⟩ := List.length_eq_one_iff.1 hone
  have hscores : List.Forall₂ (fun action score => ∃ encoded,
      net.action.layers.encoderPass.Runs action.values encoded ∧
        net.scorer.layers.encoderPass.Runs (embedding ++ encoded) [score])
      batch.actions (batch.actions.map score) :=
    List.forall₂_map_right_iff.2 (List.forall₂_same.2 fun action _ => hscore action)
  exact ⟨_, .intro hstate_runs hvalue_runs hscores hhead_runs⟩

/-- A forward pass has one score per slot of the batch. -/
theorem Scores.length_scores {net : Network} {state : StateVector} {batch : ActionBatch}
    {scored : ScoredBatch} (h : net.Scores state batch scored) :
    scored.scores.length = batch.size := by
  cases h with
  | intro _ _ hactions _ => rw [length_maskScores, ← hactions.length_eq, ActionBatch.size]

end Network

end

/-! ## Networks in use -/

/-- Layers that fit together normalize no vector without entries. -/
theorem LayerShape.Links.features_pos {shapes : List LayerShape} {w w' : Nat}
    (h : LayerShape.Links shapes w w') {features : Nat} (hmem : .norm features ∈ shapes) :
    0 < features := by
  induction h with
  | nil => cases hmem
  | affine _ _ ih =>
    cases hmem with
    | tail _ hmem => exact ih hmem
  | norm hpos _ ih =>
    cases hmem with
    | head => exact hpos
    | tail _ hmem => exact ih hmem

namespace Network

/-- The layers of each sub-network of a well-formed network fit together. -/
theorem WellFormed.exists_links {net : Network} (h : net.WellFormed)
    {component : String × Layers} (hmem : component ∈ net.components) :
    ∃ w w', LayerShape.Links component.2.shape w w' := by
  obtain ⟨hstate, hvalue, haction, hscorer, hhead⟩ := h.shapes
  have hc := h.widths_pos
  simp only [components, List.mem_cons, List.not_mem_nil, or_false] at hmem
  rcases hmem with rfl | rfl | rfl | rfl | rfl
  · exact ⟨_, _, hstate ▸ StateEncoder.links hc.stateHidden hc.stateEmbed⟩
  · exact ⟨_, _, hvalue ▸ StateEncoder.links hc.stateHidden hc.stateEmbed⟩
  · exact ⟨_, _, haction ▸ ActionEncoder.links hc.actionHidden _⟩
  · exact ⟨_, _, hscorer ▸ ActionScorer.links hc.stateEmbed hc.scorerHidden⟩
  · exact ⟨_, _, hhead ▸ ValueHead.links hc.stateEmbed hc.valueHidden⟩

/-- A network is as a configuration says: its widths and its epsilon are the configuration's, and its
layers hold as many numbers as the widths ask for. -/
structure Fulfils (net : Network) (c : Config) : Prop where
  /-- The configuration is the network's. -/
  config_eq : net.config = c
  /-- The layers have the widths of the configuration. -/
  shape_eq : net.shape = c.shape
  /-- An affine layer has an input, and a weight per pair of input and output. -/
  linear : ∀ component ∈ net.components, ∀ name l, (name, Layer.linear l) ∈ component.2 →
    l.weight.flatten.length = l.inputs * l.outputs ∧ l.bias.length = l.outputs ∧ 1 ≤ l.inputs
  /-- A normalization has as many factors as shifts, at least one, and the configuration's epsilon. -/
  norm : ∀ component ∈ net.components, ∀ name n, (name, Layer.norm n) ∈ component.2 →
    n.gamma.length = n.beta.length ∧ 1 ≤ n.gamma.length ∧ n.epsilon = c.epsilon
  /-- The number of parameters follows from the widths. -/
  parameterCount_eq : net.parameterCount = c.parameterCount

/-- A well-formed network is as its configuration says. -/
theorem WellFormed.fulfils {net : Network} (h : net.WellFormed) : net.Fulfils net.config where
  config_eq := rfl
  shape_eq := h.shape_eq
  linear component hcomponent name l hmem :=
    have hl : l.WellShaped := h.layers component hcomponent _ hmem
    ⟨hl.length_flatten, hl.length_bias, hl.inputs_pos⟩
  norm component hcomponent name n hmem := by
    obtain ⟨hbeta, hepsilon⟩ := h.layers component hcomponent _ hmem
    obtain ⟨w, w', hlinks⟩ := h.exists_links hcomponent
    have hshape : LayerShape.norm n.features ∈ component.2.shape :=
      List.mem_map.2 ⟨(name, .norm n), hmem, rfl⟩
    exact ⟨hbeta.symm, hlinks.features_pos hshape, hepsilon⟩
  parameterCount_eq := h.parameterCount_eq

/-- What becomes of a network when archives are loaded one after the other; a load that fails leaves
it as it is. -/
def loadAll (net : Network) (archives : List Archive) : Network :=
  archives.foldl (fun net a => (net.load a).1) net

/-- A load does not change the configuration, whether it succeeds or not. -/
theorem config_load (net : Network) (a : Archive) : (net.load a).1.config = net.config := by
  unfold load
  cases hstage : net.stage a with
  | ok staged => exact config_of_stage hstage
  | error e => rfl

/-- Loads keep a network well formed, and its configuration. -/
theorem WellFormed.loadAll {net : Network} (h : net.WellFormed) (archives : List Archive) :
    (net.loadAll archives).WellFormed ∧ (net.loadAll archives).config = net.config := by
  induction archives generalizing net with
  | nil => exact ⟨h, rfl⟩
  | cons a archives ih =>
    obtain ⟨hwell, hconfig⟩ := ih (h.load a)
    exact ⟨hwell, hconfig.trans (net.config_load a)⟩

/-- **A network keeps its shape and can always be run.**  A layer cannot be drawn exactly if the bound
of its range is infinite, and a network cannot exactly if one of the five widths that are inputs of a
layer is zero; an action's embedding may be empty.  Loads of any archives, in any number, succeed or
fail; after them the network is still as its configuration says, and scores and has a policy for
every state and batch, with one entry per slot, over forward passes in which every layer accepts what
it is given. -/
theorem draw_safe (c : Config) (seed : UInt64) :
    (∀ inputs outputs g, inputs < 2 ^ 64 → (Linear.draw inputs outputs g = .error .unboundedRange ↔
      Scalar.one / (Scalar.ofCount inputs).sqrt = Scalar.infinity)) ∧
    (draw c seed = .error .unboundedRange ↔
      c.stateHidden = 0 ∨ c.stateEmbed = 0 ∨ c.actionHidden = 0 ∨ c.scorerHidden = 0 ∨
        c.valueHidden = 0) ∧
    (draw c seed ≠ .error .unboundedRange → ∃ net, draw c seed = .ok net ∧
      ∀ archives : List Archive, (net.loadAll archives).Fulfils c ∧
        ∀ [Arithmetic] (state : StateVector) (batch : ActionBatch), ∃ scored prediction,
          (net.loadAll archives).Scores state batch scored ∧
          Evaluator.score (net.loadAll archives) state batch = .ok scored ∧
          scored.scores.length = batch.size ∧
          Evaluator.policy (net.loadAll archives) state batch = .ok prediction ∧
          prediction.policy.length = batch.size) := by
  refine ⟨fun _ outputs g hinputs => Linear.draw_eq_error_iff hinputs outputs g,
    draw_eq_error_iff.trans Config.not_positive_iff, fun hdraw => ?_⟩
  rw [Ne, draw_eq_error_iff, not_not] at hdraw
  obtain ⟨net, hnet⟩ := exists_draw hdraw seed
  refine ⟨net, hnet, fun archives => ?_⟩
  obtain ⟨hfresh, rfl⟩ := draw_wellFormed hnet
  obtain ⟨hwell, hconfig⟩ := hfresh.loadAll archives
  refine ⟨hconfig ▸ hwell.fulfils, ?_⟩
  intro _ state batch
  obtain ⟨scored, hscores⟩ := hwell.exists_scores state batch
  have hscore : Evaluator.score (net.loadAll archives) state batch = .ok scored := hscores.score_eq
  exact ⟨scored, _, hscores, hscore, hscores.length_scores, Evaluator.policy_eq_ok hscore,
    (length_maskedSoftmax _).trans hscores.length_scores⟩

/-- A network without an embedding of actions is still one after its own export and an archive of
another epsilon were loaded, and scores two slots. -/
theorem draw_safe_withoutAction : draw Config.withoutAction 7 ≠ .error .unboundedRange ∧
    ∃ net, draw Config.withoutAction 7 = .ok net ∧
      (net.loadAll [net.toArchive, sharedKernelArchive]).Fulfils Config.withoutAction ∧
      ∀ [Arithmetic], ∃ scored, Evaluator.score (net.loadAll [net.toArchive, sharedKernelArchive])
        (.constant Scalar.zero)
        ⟨[.constant Scalar.one, .constant Scalar.zero], [true, false], rfl, .head _⟩ = .ok scored ∧
          scored.scores.length = 2 := by
  obtain ⟨-, hrefused, hsafe⟩ := draw_safe Config.withoutAction 7
  have hdraw : draw Config.withoutAction 7 ≠ .error .unboundedRange :=
    fun h => absurd (hrefused.1 h) (by decide)
  obtain ⟨net, hnet, hloads⟩ := hsafe hdraw
  obtain ⟨hfulfils, hscores⟩ := hloads [net.toArchive, sharedKernelArchive]
  refine ⟨hdraw, net, hnet, hfulfils, ?_⟩
  intro _
  obtain ⟨scored, -, -, hscore, hlength, -⟩ := hscores (.constant Scalar.zero)
    ⟨[.constant Scalar.one, .constant Scalar.zero], [true, false], rfl, .head _⟩
  exact ⟨scored, hscore, hlength⟩

end Network

end PolicyValue
