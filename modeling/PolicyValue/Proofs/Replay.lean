import PolicyValue.Proofs.Export
import PolicyValue.Proofs.Soundness

/-!
# Replaying a sub-network

A sub-network has a hard-coded forward pass, and a list of operations that an executor replays.
Both are readings of one list: the layers, each with a mark whether the positive part follows
(`Pass`).

* `Layers.pass_operations`: the operations of a sub-network are those of its pass;
* `Archive.Types.of_pass`: they type as the shapes of the layers fit together;
* `Pass.foldlM_step`: over the parameters of the layers, an executor computes the pass.
-/

namespace PolicyValue

/-! ## Passes -/

/-- The operation of a layer. -/
def Layer.operation (key : String) : Layer → Operation
  | .linear _ => .affine key
  | .norm _ => .normalize key

/-- One layer of a forward pass. -/
structure Stage where
  /-- The name of the layer. -/
  name : String
  /-- The layer. -/
  layer : Layer
  /-- Whether the positive part follows. -/
  rectified : Bool

/-- The layers of a forward pass, in order. -/
abbrev Pass := List Stage

/-- The operations of a stage. -/
def Stage.operations (component : String) (s : Stage) : List Operation :=
  s.layer.operation (parameterKey component s.name) :: if s.rectified then [.relu] else []

namespace Pass

/-- The layers of a pass by name. -/
def layers (p : Pass) : Layers := p.map fun s => (s.name, s.layer)

/-- The operations of a pass. -/
def operations (component : String) (p : Pass) : List Operation :=
  p.flatMap (Stage.operations component)

/-- The operations of a pass name the keys of its layers. -/
theorem filterMap_key?_operations (component : String) (p : Pass) :
    (p.operations component).filterMap Operation.key? = p.layers.keys component := by
  induction p with
  | nil => rfl
  | cons s p ih =>
    have hstage : (s.operations component).filterMap Operation.key? =
        [parameterKey component s.name] := by
      obtain ⟨name, layer, rectified⟩ := s
      cases layer <;> cases rectified <;> rfl
    rw [operations, List.flatMap_cons, List.filterMap_append, hstage, ← operations, ih]
    rfl

end Pass

namespace Layers

/-- The pass of an encoder or scorer: the positive part follows each normalization. -/
def encoderPass (layers : Layers) : Pass :=
  layers.map fun (name, layer) => ⟨name, layer, !layer.isLinear⟩

/-- The pass of a head: the positive part follows each affine map but the last. -/
def headPass : Layers → Pass
  | [] => []
  | (name, layer) :: rest =>
    ⟨name, layer, layer.isLinear && rest.any fun (_, layer) => layer.isLinear⟩ :: headPass rest

/-- An encoder's operations are those of its pass, and a head's are those of its own. -/
theorem encoderPass_operations (component : String) (layers : Layers) :
    layers.encoderPass.operations component = encoderOperations component layers := by
  induction layers with
  | nil => rfl
  | cons entry rest ih =>
    obtain ⟨name, layer⟩ := entry
    rw [encoderPass, List.map_cons, Pass.operations, List.flatMap_cons, ← Pass.operations,
      ← encoderPass, ih]
    cases layer <;> rfl

theorem headPass_operations (component : String) (layers : Layers) :
    (headPass layers).operations component = headSteps component layers := by
  induction layers with
  | nil => rfl
  | cons entry rest ih =>
    obtain ⟨name, layer⟩ := entry
    rw [headPass, Pass.operations, List.flatMap_cons, ← Pass.operations, ih]
    cases layer with
    | linear l =>
      rw [headSteps]
      cases rest.any fun (_, layer) => layer.isLinear <;> rfl
    | norm n => rfl

/-- The pass of a sub-network, by its name. -/
def pass (component : String) (layers : Layers) : Pass :=
  if component = valueHead then headPass layers else encoderPass layers

/-- The operations that follow the pass of a sub-network. -/
def ending (component : String) : List Operation :=
  if component = valueHead then [.tanh] else []

/-- The operations of a sub-network are those of its pass, and its ending. -/
theorem pass_operations (component : String) (layers : Layers) :
    operationsOf component layers =
      (layers.pass component).operations component ++ ending component := by
  unfold operationsOf pass ending
  split
  · rw [headPass_operations]
  · rw [encoderPass_operations, List.append_nil]

theorem layers_headPass (layers : Layers) : (headPass layers).layers = layers := by
  induction layers with
  | nil => rfl
  | cons entry rest ih =>
    rw [headPass, Pass.layers, List.map_cons, ← Pass.layers, ih]

theorem layers_encoderPass (layers : Layers) : layers.encoderPass.layers = layers := by
  rw [encoderPass, Pass.layers, List.map_map]
  exact List.map_id layers

/-- The pass of a sub-network goes over its layers. -/
theorem layers_pass (component : String) (layers : Layers) :
    (layers.pass component).layers = layers := by
  unfold pass
  split
  · exact layers_headPass layers
  · exact layers_encoderPass layers

/-- The operations of a sub-network name the keys of its layers. -/
theorem filterMap_key?_operationsOf (component : String) (layers : Layers) :
    (operationsOf component layers).filterMap Operation.key? = layers.keys component := by
  have hending : (ending component).filterMap Operation.key? = [] := by
    unfold ending
    split <;> rfl
  rw [pass_operations, List.filterMap_append, Pass.filterMap_key?_operations, layers_pass, hending,
    List.append_nil]

end Layers

/-! ## Shapes that fit together -/

namespace LayerShape

/-- A layer of a shape takes vectors of one width to vectors of another. -/
inductive Takes : LayerShape → Nat → Nat → Prop
  | affine {inputs outputs : Nat} (outputs_pos : 1 ≤ outputs) :
      Takes (.affine inputs outputs) inputs outputs
  | norm {features : Nat} : Takes (.norm features) features features

/-- Layers of these shapes, one after the other, take vectors of one width to vectors of another. -/
inductive Chain : List LayerShape → Nat → Nat → Prop
  | nil {width : Nat} : Chain [] width width
  | cons {shape : LayerShape} {shapes : List LayerShape} {before between after : Nat}
      (head : shape.Takes before between) (tail : Chain shapes between after) :
      Chain (shape :: shapes) before after

end LayerShape

theorem StateEncoder.chain {hidden embed : Nat} (hhidden : 1 ≤ hidden) (hembed : 1 ≤ embed) :
    LayerShape.Chain (StateEncoder.shape hidden embed) stateSize embed :=
  .cons (.affine hhidden) (.cons .norm (.cons (.affine hembed) (.cons .norm .nil)))

theorem ActionEncoder.chain {hidden embed : Nat} (hhidden : 1 ≤ hidden) (hembed : 1 ≤ embed) :
    LayerShape.Chain (ActionEncoder.shape hidden embed) actionSize embed :=
  .cons (.affine hhidden) (.cons .norm (.cons (.affine hembed) .nil))

theorem ActionScorer.chain {stateWidth actionWidth hidden : Nat} (hhidden : 1 ≤ hidden) :
    LayerShape.Chain (ActionScorer.shape stateWidth actionWidth hidden) (stateWidth + actionWidth)
      1 :=
  .cons (.affine hhidden) (.cons .norm (.cons (.affine (Nat.le_refl 1)) .nil))

theorem ValueHead.chain {stateWidth hidden : Nat} (hhidden : 1 ≤ hidden) :
    LayerShape.Chain (ValueHead.shape stateWidth hidden) stateWidth 1 :=
  .cons (.affine hhidden) (.cons (.affine (Nat.le_refl 1)) .nil)

/-! ## Typing -/

namespace Archive

/-- The operation of a well-formed layer types as its shape says, over its own record. -/
theorem takes_operation {a : Archive} {key : String} {layer : Layer} {epsilon : Float32}
    {w w' : Nat} (hrecord : a.record? key = some layer.record) (hlayer : layer.WellFormed epsilon)
    (h : layer.shape.Takes w w') : a.Takes (layer.operation key) w w' := by
  cases layer with
  | linear l =>
    have hl : l.WellShaped := hlayer
    have hshape : (LayerShape.affine l.inputs l.outputs).Takes w w' := h
    cases hshape with
    | affine outputs_pos =>
      exact .affine hrecord (Linear.length_kernel hl) (Linear.length_of_mem_kernel hl) outputs_pos
        hl.length_bias
  | norm n =>
    have hshape : (LayerShape.norm n.features).Takes w w' := h
    cases hshape with
    | norm => exact .normalize hrecord rfl hlayer.1

/-- Operations of a pass type as the shapes of its layers fit together. -/
theorem Types.of_pass {a : Archive} {component : String} {epsilon : Float32} {p : Pass}
    {w w' : Nat} (hrecords : ∀ entry ∈ p.layers,
      a.record? (parameterKey component entry.1) = some entry.2.record)
    (hp : p.layers.WellFormed epsilon) (h : LayerShape.Chain p.layers.shape w w') :
    a.Types (p.operations component) w w' := by
  induction p generalizing w with
  | nil =>
    have hnil : LayerShape.Chain [] w w' := h
    cases hnil with
    | nil => exact .nil
  | cons s p ih =>
    have hcons : LayerShape.Chain (s.layer.shape :: (Pass.layers p).shape) w w' := h
    cases hcons with
    | cons head tail =>
      have hop := takes_operation (hrecords _ (.head _)) (hp _ (.head _)) head
      have hrest := ih (fun entry hentry => hrecords entry (.tail _ hentry))
        (fun entry hentry => hp entry (.tail _ hentry)) tail
      rw [Pass.operations, List.flatMap_cons, Stage.operations]
      refine .cons hop ?_
      cases s.rectified with
      | true => exact .cons .relu hrest
      | false => exact hrest

/-- Operations of a sub-network type as the shapes of its layers fit together. -/
theorem types_operationsOf {a : Archive} {component : String} {epsilon : Float32} {layers : Layers}
    {w w' : Nat} (hrecords : ∀ entry ∈ layers,
      a.record? (parameterKey component entry.1) = some entry.2.record)
    (hlayers : layers.WellFormed epsilon) (h : LayerShape.Chain layers.shape w w') :
    a.Types (operationsOf component layers) w w' := by
  have hpass : a.Types ((layers.pass component).operations component) w w' := by
    rw [← layers.layers_pass component] at hrecords hlayers h
    exact Types.of_pass hrecords hlayers h
  have hending : a.Types (Layers.ending component) w' w' := by
    unfold Layers.ending
    split
    · exact .cons .tanh .nil
    · exact .nil
  rw [Layers.pass_operations]
  exact hpass.append hending

end Archive

/-! ## Running -/

section

variable [Arithmetic]

/-- The forward pass of a layer. -/
def Layer.forward : Layer → List Float32 → List Float32
  | .linear l, x => l.forward x
  | .norm n, x => n.forward x

/-- The forward pass of a stage. -/
def Stage.forward (s : Stage) (x : List Float32) : List Float32 :=
  if s.rectified then (s.layer.forward x).map rectify else s.layer.forward x

/-- The forward pass. -/
def Pass.forward (p : Pass) (x : List Float32) : List Float32 :=
  p.foldl (fun x s => s.forward x) x

namespace Executor

/-- Over the parameters of a well-formed layer, an executor computes its forward pass. -/
theorem step_operation {e : Executor} {key : String} {layer : Layer} {w w' : Nat}
    (hget : e.parameters.get? key = some layer.record.tensors)
    (hlayer : layer.WellFormed e.epsilon) (h : layer.shape.Takes w w') {x : List Float32}
    (hx : x.length = w) :
    e.step x (layer.operation key) = .ok (layer.forward x) ∧ (layer.forward x).length = w' := by
  cases layer with
  | linear l =>
    have hl : l.WellShaped := hlayer
    have hshape : (LayerShape.affine l.inputs l.outputs).Takes w w' := h
    have hget' : e.parameters.get? key = some (.affine l.kernel.length
        ((l.kernel.head?.map List.length).getD 0) l.kernel.flatten l.bias) := hget
    cases hshape with
    | affine outputs_pos =>
      have hrows : x.length = l.kernel.length := hx.trans (Linear.length_kernel hl).symm
      constructor
      · simp only [Layer.operation, step, hget', if_neg (not_not.2 hrows)]
        rw [affine_flatten_kernel hl hx]
        rfl
      · exact Linear.length_forward hl x
  | norm n =>
    have hshape : (LayerShape.norm n.features).Takes w w' := h
    have hget' : e.parameters.get? key = some (.norm n.gamma n.beta) := hget
    cases hshape with
    | norm =>
      have hgamma : x.length = n.gamma.length := hx
      constructor
      · simp only [Layer.operation, step, hget', if_neg (not_not.2 hgamma)]
        rw [← hlayer.2]
        rfl
      · exact (length_normalize n.epsilon hx.symm (hlayer.1.trans hx.symm)).trans hx

/-- Over the parameters of a well-formed layer, an executor computes its stage. -/
theorem foldlM_step_stage {e : Executor} {component : String} {s : Stage} {w w' : Nat}
    (hget : e.parameters.get? (parameterKey component s.name) = some s.layer.record.tensors)
    (hlayer : s.layer.WellFormed e.epsilon) (h : s.layer.shape.Takes w w') {x : List Float32}
    (hx : x.length = w) :
    (s.operations component).foldlM e.step x = .ok (s.forward x) ∧ (s.forward x).length = w' := by
  obtain ⟨hstep, hlength⟩ := step_operation hget hlayer h hx
  rw [Stage.operations, List.foldlM_cons, hstep, ok_bind, Stage.forward]
  cases s.rectified with
  | true => exact ⟨rfl, by rw [if_pos rfl, List.length_map, hlength]⟩
  | false => exact ⟨rfl, hlength⟩

/-- Over the parameters of well-formed layers that fit together, an executor computes their pass. -/
theorem foldlM_step_pass {e : Executor} {component : String} {p : Pass} {w w' : Nat}
    (hget : ∀ entry ∈ p.layers,
      e.parameters.get? (parameterKey component entry.1) = some entry.2.record.tensors)
    (hp : p.layers.WellFormed e.epsilon) (h : LayerShape.Chain p.layers.shape w w')
    {x : List Float32} (hx : x.length = w) :
    (p.operations component).foldlM e.step x = .ok (p.forward x) ∧ (p.forward x).length = w' := by
  -- A stage ends with a vector of the width at which the next one starts.
  induction p generalizing w x with
  | nil =>
    have hnil : LayerShape.Chain [] w w' := h
    cases hnil with
    | nil => exact ⟨rfl, hx⟩
  | cons s p ih =>
    have hcons : LayerShape.Chain (s.layer.shape :: (Pass.layers p).shape) w w' := h
    cases hcons with
    | cons head tail =>
      obtain ⟨hstage, hlength⟩ := foldlM_step_stage (hget _ (.head _)) (hp _ (.head _)) head hx
      rw [Pass.operations, List.flatMap_cons, List.foldlM_append, hstage, ok_bind]
      exact ih (fun entry hentry => hget entry (.tail _ hentry))
        (fun entry hentry => hp entry (.tail _ hentry)) tail hlength

end Executor

/-- The forward pass of a sub-network, by its name. -/
def Layers.forward (component : String) (layers : Layers) (x : List Float32) : List Float32 :=
  if component = valueHead then ((headPass layers).forward x).map tanh
  else layers.encoderPass.forward x

/-- Over the parameters of a sub-network's layers, an executor computes its forward pass. -/
theorem Executor.foldlM_step_operationsOf {e : Executor} {component : String} {layers : Layers}
    {w w' : Nat} (hget : ∀ entry ∈ layers,
      e.parameters.get? (parameterKey component entry.1) = some entry.2.record.tensors)
    (hlayers : layers.WellFormed e.epsilon) (h : LayerShape.Chain layers.shape w w')
    {x : List Float32} (hx : x.length = w) :
    (operationsOf component layers).foldlM e.step x = .ok (layers.forward component x) ∧
      (layers.forward component x).length = w' := by
  have hpass : ((layers.pass component).operations component).foldlM e.step x =
      .ok ((layers.pass component).forward x) ∧ ((layers.pass component).forward x).length = w' := by
    rw [← layers.layers_pass component] at hget hlayers h
    exact foldlM_step_pass hget hlayers h hx
  obtain ⟨hrun, hlength⟩ := hpass
  rw [Layers.pass_operations, List.foldlM_append, hrun, ok_bind]
  -- Only the head has an ending, which keeps the length.
  by_cases hhead : component = valueHead
  · rw [Layers.pass, if_pos hhead] at hlength ⊢
    rw [Layers.ending, if_pos hhead, Layers.forward, if_pos hhead, List.length_map]
    exact ⟨rfl, hlength⟩
  · rw [Layers.pass, if_neg hhead] at hlength ⊢
    rw [Layers.ending, if_neg hhead, Layers.forward, if_neg hhead]
    exact ⟨rfl, hlength⟩

/-! ## Hard-coded passes

The forward pass of each kind of sub-network goes over its layers. -/

theorem StateEncoder.forward_layers (e : StateEncoder) {component : String}
    (h : component ≠ valueHead) (x : List Float32) :
    e.layers.forward component x = e.forward x := by
  rw [Layers.forward, if_neg h]
  rfl

theorem ActionEncoder.forward_layers (e : ActionEncoder) {component : String}
    (h : component ≠ valueHead) (x : List Float32) :
    e.layers.forward component x = e.forward x := by
  rw [Layers.forward, if_neg h]
  rfl

theorem ActionScorer.forward_layers (s : ActionScorer) {component : String}
    (h : component ≠ valueHead) (state action : List Float32) :
    singleOutput (s.layers.forward component (state ++ action)) = s.forward state action := by
  rw [Layers.forward, if_neg h]
  rfl

theorem ValueHead.forward_layers (v : ValueHead) (x : List Float32) :
    singleOutput (v.layers.forward valueHead x) = v.forward x := rfl

end

end PolicyValue
