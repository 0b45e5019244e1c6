import PolicyValue.Network.Basic
import PolicyValue.Proofs.Basic

/-!
# The shape of a network

A layer's shape is its kind with its widths.  The configuration determines the shapes of all layers
(`Network.Config.shape`), and a network is well formed when its layers have these shapes and hold
as many numbers as they say (`Network.WellFormed`).

* `Network.draw_wellFormed`: fresh networks are well formed;
* `Network.exists_draw`: positive widths are enough to draw one; an action embedding may be empty;
* `Network.WellFormed.widths_pos`: and these widths are positive in every well-formed network.
-/

namespace PolicyValue

open Sampling

/-! ## Shapes -/

/-- The kind and the widths of a layer. -/
inductive LayerShape where
  /-- An affine layer. -/
  | affine (inputs outputs : Nat)
  /-- A normalization. -/
  | norm (features : Nat)
deriving DecidableEq, Repr

namespace Layer

/-- The shape a layer declares. -/
def shape : Layer → LayerShape
  | .linear l => .affine l.inputs l.outputs
  | .norm n => .norm n.features

/-- The epsilon of a normalization. -/
def epsilon? : Layer → Option Float32
  | .linear _ => none
  | .norm n => some n.epsilon

/-- A layer holds as many numbers as it declares, and normalizes with the given epsilon. -/
def WellFormed (epsilon : Float32) : Layer → Prop
  | .linear l => l.WellShaped
  | .norm n => n.beta.length = n.features ∧ n.epsilon = epsilon

end Layer

namespace Layers

/-- The shapes of the layers of a sub-network. -/
def shape (layers : Layers) : List LayerShape := layers.map fun (_, layer) => layer.shape

/-- All layers of a sub-network are well formed. -/
def WellFormed (epsilon : Float32) (layers : Layers) : Prop :=
  ∀ entry ∈ layers, entry.2.WellFormed epsilon

@[simp]
theorem wellFormed_cons {epsilon : Float32} {name : String} {layer : Layer} {layers : Layers} :
    WellFormed epsilon ((name, layer) :: layers) ↔
      layer.WellFormed epsilon ∧ WellFormed epsilon layers :=
  List.forall_mem_cons

@[simp]
theorem wellFormed_nil {epsilon : Float32} : WellFormed epsilon [] :=
  List.forall_mem_nil _

/-- A well-formed affine layer has an input. -/
theorem WellFormed.inputs_pos {epsilon : Float32} {layers : Layers} (h : layers.WellFormed epsilon)
    {inputs outputs : Nat} (hmem : .affine inputs outputs ∈ layers.shape) : 0 < inputs := by
  obtain ⟨⟨name, layer⟩, hentry, hshape⟩ := List.mem_map.1 hmem
  cases layer with
  | linear l =>
    have hl : l.WellShaped := h _ hentry
    cases hshape
    exact hl.inputs_pos
  | norm n => cases hshape

end Layers

/-- The shapes of a state encoder. -/
def StateEncoder.shape (hidden embed : Nat) : List LayerShape :=
  [.affine stateSize hidden, .norm hidden, .affine hidden embed, .norm embed]

/-- The shapes of an action encoder. -/
def ActionEncoder.shape (hidden embed : Nat) : List LayerShape :=
  [.affine actionSize hidden, .norm hidden, .affine hidden embed]

/-- The shapes of an action scorer. -/
def ActionScorer.shape (stateWidth actionWidth hidden : Nat) : List LayerShape :=
  [.affine (stateWidth + actionWidth) hidden, .norm hidden, .affine hidden 1]

/-- The shapes of a value head. -/
def ValueHead.shape (stateWidth hidden : Nat) : List LayerShape :=
  [.affine stateWidth hidden, .affine hidden 1]

/-! ## Fresh layers -/

/-- Each sample of a list of lists has the length that was drawn. -/
theorem length_of_mem_draws {σ α : Type} (sample : Sampler σ α) (width count : Nat) (s : σ) :
    ∀ row ∈ (draws (draws sample width) count s).1, row.length = width := by
  induction count generalizing s with
  | zero => intro row hr; cases hr
  | succ count ih =>
    intro row hr
    rw [draws, List.mem_cons] at hr
    rcases hr with rfl | hr
    · exact length_draws sample width s
    · exact ih _ row hr

/-- A fresh affine layer is well shaped, with the widths asked for. -/
theorem Linear.draw_eq_ok {inputs outputs : Nat} {g g' : Generator} {l : Linear}
    (h : Linear.draw inputs outputs g = .ok (l, g')) :
    l.WellShaped ∧ l.inputs = inputs ∧ l.outputs = outputs := by
  unfold Linear.draw initialRange? at h
  -- No range can be drawn from for a layer without inputs.
  by_cases hzero : inputs = 0
  · rw [if_pos hzero] at h
    cases h
  · rw [if_neg hzero] at h
    cases h
    refine ⟨⟨?_, ?_, ?_, Nat.pos_of_ne_zero hzero⟩, rfl, rfl⟩
    · exact length_draws _ _ _
    · exact length_of_mem_draws _ _ _ _
    · exact length_draws _ _ _

/-- A layer with an input can be drawn. -/
theorem Linear.exists_draw {inputs : Nat} (hpos : 0 < inputs) (outputs : Nat) (g : Generator) :
    ∃ r, Linear.draw inputs outputs g = .ok r := by
  unfold Linear.draw initialRange?
  rw [if_neg (Nat.ne_of_gt hpos)]
  exact ⟨_, rfl⟩

/-- The correction that changes nothing is well formed. -/
theorem LayerNorm.wellFormed_initial (features : Nat) (epsilon : Float32) :
    (Layer.norm (LayerNorm.initial features epsilon)).WellFormed epsilon := by
  refine ⟨?_, rfl⟩
  rw [LayerNorm.features, LayerNorm.initial, List.length_replicate, List.length_replicate]

/-- The correction that changes nothing has the features asked for. -/
theorem LayerNorm.features_initial (features : Nat) (epsilon : Float32) :
    (LayerNorm.initial features epsilon).features = features :=
  List.length_replicate

/-! ## Fresh sub-networks -/

section

variable {α : Type} {inputs hidden outputs : Nat}

/-- Two affine layers drawn one after the other, put together to a sub-network. -/
theorem exists_of_draw_two (build : Linear → Linear → α) {g g' : Generator} {x : α}
    (h : (do
      let (fc1, g) ← Linear.draw inputs hidden g
      let (fc2, g) ← Linear.draw hidden outputs g
      return (build fc1 fc2, g)) = (.ok (x, g') : Except Error (α × Generator))) :
    ∃ fc1 fc2, x = build fc1 fc2 ∧
      (fc1.WellShaped ∧ fc1.inputs = inputs ∧ fc1.outputs = hidden) ∧
      (fc2.WellShaped ∧ fc2.inputs = hidden ∧ fc2.outputs = outputs) := by
  obtain ⟨⟨fc1, g₁⟩, h₁, h⟩ := bind_eq_ok.1 h
  obtain ⟨⟨fc2, g₂⟩, h₂, h⟩ := bind_eq_ok.1 h
  cases pure_eq_ok.1 h
  exact ⟨fc1, fc2, rfl, Linear.draw_eq_ok h₁, Linear.draw_eq_ok h₂⟩

/-- Two affine layers with inputs can be drawn one after the other. -/
theorem exists_draw_two (hinputs : 0 < inputs) (hhidden : 0 < hidden) (outputs : Nat)
    (build : Linear → Linear → α) (g : Generator) :
    ∃ x g', (do
      let (fc1, g) ← Linear.draw inputs hidden g
      let (fc2, g) ← Linear.draw hidden outputs g
      return (build fc1 fc2, g)) = (.ok (x, g') : Except Error (α × Generator)) := by
  obtain ⟨⟨fc1, g₁⟩, h₁⟩ := Linear.exists_draw hinputs hidden g
  obtain ⟨⟨fc2, g₂⟩, h₂⟩ := Linear.exists_draw hhidden outputs g₁
  exact ⟨build fc1 fc2, g₂, bind_eq_ok.2 ⟨_, h₁, bind_eq_ok.2 ⟨_, h₂, rfl⟩⟩⟩

end

/-- A fresh state encoder has the shape asked for, and so have the other three kinds. -/
theorem StateEncoder.draw_eq_ok {hidden embed : Nat} {epsilon : Float32} {g g' : Generator}
    {e : StateEncoder} (h : StateEncoder.draw hidden embed epsilon g = .ok (e, g')) :
    e.layers.shape = StateEncoder.shape hidden embed ∧ e.layers.WellFormed epsilon := by
  obtain ⟨fc1, fc2, rfl, ⟨hfc1, hi1, ho1⟩, ⟨hfc2, hi2, ho2⟩⟩ :=
    exists_of_draw_two (fun fc1 fc2 => StateEncoder.mk fc1 _ fc2 _) h
  constructor
  · simp only [layers, Layers.shape, List.map_cons, List.map_nil, Layer.shape, shape, hi1, ho1, hi2,
      ho2, LayerNorm.features_initial]
  · simp only [layers, Layers.wellFormed_cons, Layers.wellFormed_nil, and_true]
    exact ⟨hfc1, LayerNorm.wellFormed_initial _ _, hfc2, LayerNorm.wellFormed_initial _ _⟩

theorem ActionEncoder.draw_eq_ok {hidden embed : Nat} {epsilon : Float32} {g g' : Generator}
    {e : ActionEncoder} (h : ActionEncoder.draw hidden embed epsilon g = .ok (e, g')) :
    e.layers.shape = ActionEncoder.shape hidden embed ∧ e.layers.WellFormed epsilon := by
  obtain ⟨fc1, fc2, rfl, ⟨hfc1, hi1, ho1⟩, ⟨hfc2, hi2, ho2⟩⟩ :=
    exists_of_draw_two (fun fc1 fc2 => ActionEncoder.mk fc1 _ fc2) h
  constructor
  · simp only [layers, Layers.shape, List.map_cons, List.map_nil, Layer.shape, shape, hi1, ho1, hi2,
      ho2, LayerNorm.features_initial]
  · simp only [layers, Layers.wellFormed_cons, Layers.wellFormed_nil, and_true]
    exact ⟨hfc1, LayerNorm.wellFormed_initial _ _, hfc2⟩

theorem ActionScorer.draw_eq_ok {stateWidth actionWidth hidden : Nat} {epsilon : Float32}
    {g g' : Generator} {s : ActionScorer}
    (h : ActionScorer.draw stateWidth actionWidth hidden epsilon g = .ok (s, g')) :
    s.layers.shape = ActionScorer.shape stateWidth actionWidth hidden ∧
      s.layers.WellFormed epsilon := by
  obtain ⟨fc1, fc2, rfl, ⟨hfc1, hi1, ho1⟩, ⟨hfc2, hi2, ho2⟩⟩ :=
    exists_of_draw_two (fun fc1 fc2 => ActionScorer.mk fc1 _ fc2) h
  constructor
  · simp only [layers, Layers.shape, List.map_cons, List.map_nil, Layer.shape, shape, hi1, ho1, hi2,
      ho2, LayerNorm.features_initial]
  · simp only [layers, Layers.wellFormed_cons, Layers.wellFormed_nil, and_true]
    exact ⟨hfc1, LayerNorm.wellFormed_initial _ _, hfc2⟩

theorem ValueHead.draw_eq_ok {stateWidth hidden : Nat} {g g' : Generator} {v : ValueHead}
    (h : ValueHead.draw stateWidth hidden g = .ok (v, g')) (epsilon : Float32) :
    v.layers.shape = ValueHead.shape stateWidth hidden ∧ v.layers.WellFormed epsilon := by
  obtain ⟨fc1, fc2, rfl, ⟨hfc1, hi1, ho1⟩, ⟨hfc2, hi2, ho2⟩⟩ :=
    exists_of_draw_two ValueHead.mk h
  constructor
  · simp only [layers, Layers.shape, List.map_cons, List.map_nil, Layer.shape, shape, hi1, ho1, hi2,
      ho2]
  · simp only [layers, Layers.wellFormed_cons, Layers.wellFormed_nil, and_true]
    exact ⟨hfc1, hfc2⟩

/-! ## Networks -/

namespace Network

/-- The shapes of all sub-networks, in the order of the components. -/
def Config.shape (c : Config) : List (List LayerShape) :=
  [StateEncoder.shape c.stateHidden.toNat c.stateEmbed.toNat,
    StateEncoder.shape c.stateHidden.toNat c.stateEmbed.toNat,
    ActionEncoder.shape c.actionHidden.toNat c.actionEmbed.toNat,
    ActionScorer.shape c.stateEmbed.toNat c.actionEmbed.toNat c.scorerHidden.toNat,
    ValueHead.shape c.stateEmbed.toNat c.valueHidden.toNat]

/-- The shapes of the sub-networks, as the layers declare them. -/
def shape (net : Network) : List (List LayerShape) :=
  net.components.map fun (_, layers) => layers.shape

/-- The layers of a network have the shapes and the epsilon of its configuration, and hold as many
numbers as they declare. -/
structure WellFormed (net : Network) : Prop where
  /-- The widths are those of the configuration. -/
  shape_eq : net.shape = net.config.shape
  /-- The layers are well formed. -/
  layers : ∀ component ∈ net.components, component.2.WellFormed net.config.epsilon

/-- The five widths that are inputs of an affine layer are positive. -/
structure Config.Positive (c : Config) : Prop where
  /-- The hidden width of the state encoders. -/
  stateHidden : 0 < c.stateHidden.toNat
  /-- The width of a state's embedding. -/
  stateEmbed : 0 < c.stateEmbed.toNat
  /-- The hidden width of the action encoder. -/
  actionHidden : 0 < c.actionHidden.toNat
  /-- The hidden width of the scorer. -/
  scorerHidden : 0 < c.scorerHidden.toNat
  /-- The hidden width of the value head. -/
  valueHidden : 0 < c.valueHidden.toNat

/-- A fresh network is well formed and has the configuration it was drawn for. -/
theorem draw_wellFormed {c : Config} {seed : UInt64} {net : Network} (h : draw c seed = .ok net) :
    net.WellFormed ∧ net.config = c := by
  obtain ⟨⟨state, g₁⟩, h₁, h⟩ := bind_eq_ok.1 h
  obtain ⟨⟨valueState, g₂⟩, h₂, h⟩ := bind_eq_ok.1 h
  obtain ⟨⟨action, g₃⟩, h₃, h⟩ := bind_eq_ok.1 h
  obtain ⟨⟨scorer, g₄⟩, h₄, h⟩ := bind_eq_ok.1 h
  obtain ⟨⟨head, g₅⟩, h₅, h⟩ := bind_eq_ok.1 h
  cases pure_eq_ok.1 h
  obtain ⟨hs, hws⟩ := StateEncoder.draw_eq_ok h₁
  obtain ⟨hv, hwv⟩ := StateEncoder.draw_eq_ok h₂
  obtain ⟨ha, hwa⟩ := ActionEncoder.draw_eq_ok h₃
  obtain ⟨hr, hwr⟩ := ActionScorer.draw_eq_ok h₄
  obtain ⟨hh, hwh⟩ := ValueHead.draw_eq_ok h₅ c.epsilon
  refine ⟨⟨?_, ?_⟩, rfl⟩
  · simp only [shape, components, List.map_cons, List.map_nil, hs, hv, ha, hr, hh, Config.shape]
  · intro component hmem
    simp only [components, List.mem_cons, List.not_mem_nil, or_false] at hmem
    rcases hmem with rfl | rfl | rfl | rfl | rfl
    · exact hws
    · exact hwv
    · exact hwa
    · exact hwr
    · exact hwh

/-- A network can be drawn when the five widths that are inputs are positive. -/
theorem exists_draw {c : Config} (h : c.Positive) (seed : UInt64) : ∃ net, draw c seed = .ok net := by
  have hstate : 0 < stateSize := by decide
  have haction : 0 < actionSize := by decide
  have hjoint : 0 < c.stateEmbed.toNat + c.actionEmbed.toNat := Nat.add_pos_left h.stateEmbed _
  obtain ⟨state, g₁, h₁⟩ := exists_draw_two hstate h.stateHidden c.stateEmbed.toNat
    (fun fc1 fc2 => StateEncoder.mk fc1 (.initial c.stateHidden.toNat c.epsilon) fc2
      (.initial c.stateEmbed.toNat c.epsilon)) (.seeded seed)
  obtain ⟨valueState, g₂, h₂⟩ := exists_draw_two hstate h.stateHidden c.stateEmbed.toNat
    (fun fc1 fc2 => StateEncoder.mk fc1 (.initial c.stateHidden.toNat c.epsilon) fc2
      (.initial c.stateEmbed.toNat c.epsilon)) g₁
  obtain ⟨action, g₃, h₃⟩ := exists_draw_two haction h.actionHidden c.actionEmbed.toNat
    (fun fc1 fc2 => ActionEncoder.mk fc1 (.initial c.actionHidden.toNat c.epsilon) fc2) g₂
  obtain ⟨scorer, g₄, h₄⟩ := exists_draw_two hjoint h.scorerHidden 1
    (fun fc1 fc2 => ActionScorer.mk fc1 (.initial c.scorerHidden.toNat c.epsilon) fc2) g₃
  obtain ⟨head, g₅, h₅⟩ := exists_draw_two h.stateEmbed h.valueHidden 1 ValueHead.mk g₄
  refine ⟨⟨c, state, valueState, action, scorer, head⟩, ?_⟩
  refine bind_eq_ok.2 ⟨_, h₁, bind_eq_ok.2 ⟨_, h₂, bind_eq_ok.2 ⟨_, h₃, ?_⟩⟩⟩
  exact bind_eq_ok.2 ⟨_, h₄, bind_eq_ok.2 ⟨_, h₅, rfl⟩⟩

/-- The configuration in which all widths are one. -/
def Config.single : Config := ⟨1, 1, 1, 1, 1, 1, Config.defaultEpsilon⟩

/-- Widths of one are positive. -/
theorem Config.positive_single : Config.single.Positive :=
  ⟨by decide, by decide, by decide, by decide, by decide⟩

/-- The shapes of the sub-networks of a well-formed network, one by one. -/
theorem WellFormed.shapes {net : Network} (h : net.WellFormed) :
    net.state.layers.shape =
        StateEncoder.shape net.config.stateHidden.toNat net.config.stateEmbed.toNat ∧
      net.valueState.layers.shape =
        StateEncoder.shape net.config.stateHidden.toNat net.config.stateEmbed.toNat ∧
      net.action.layers.shape =
        ActionEncoder.shape net.config.actionHidden.toNat net.config.actionEmbed.toNat ∧
      net.scorer.layers.shape = ActionScorer.shape net.config.stateEmbed.toNat
        net.config.actionEmbed.toNat net.config.scorerHidden.toNat ∧
      net.head.layers.shape =
        ValueHead.shape net.config.stateEmbed.toNat net.config.valueHidden.toNat := by
  have hshape := h.shape_eq
  simpa only [shape, components, List.map_cons, List.map_nil, Config.shape, List.cons.injEq,
    and_true] using hshape

/-- Every affine layer of a well-formed network has an input, as its configuration says. -/
theorem WellFormed.inputs_pos {net : Network} (h : net.WellFormed) {inputs outputs : Nat}
    (hmem : .affine inputs outputs ∈ net.config.shape.flatten) : 0 < inputs := by
  rw [← h.shape_eq, List.mem_flatten] at hmem
  obtain ⟨shapes, hshapes, hmem⟩ := hmem
  obtain ⟨component, hcomponent, rfl⟩ := List.mem_map.1 hshapes
  exact (h.layers component hcomponent).inputs_pos hmem

/-- All widths of a well-formed network but that of an action's embedding are positive. -/
theorem WellFormed.widths_pos {net : Network} (h : net.WellFormed) : net.config.Positive where
  stateHidden := h.inputs_pos (List.mem_flatten.2 ⟨_, .head _, .tail _ (.tail _ (.head _))⟩)
  stateEmbed := h.inputs_pos
    (List.mem_flatten.2 ⟨_, .tail _ (.tail _ (.tail _ (.tail _ (.head _)))), .head _⟩)
  actionHidden := h.inputs_pos
    (List.mem_flatten.2 ⟨_, .tail _ (.tail _ (.head _)), .tail _ (.tail _ (.head _))⟩)
  scorerHidden := h.inputs_pos
    (List.mem_flatten.2 ⟨_, .tail _ (.tail _ (.tail _ (.head _))), .tail _ (.tail _ (.head _))⟩)
  valueHidden := h.inputs_pos
    (List.mem_flatten.2 ⟨_, .tail _ (.tail _ (.tail _ (.tail _ (.head _)))), .tail _ (.head _)⟩)

end Network

end PolicyValue
