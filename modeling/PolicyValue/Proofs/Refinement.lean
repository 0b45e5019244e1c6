import PolicyValue.Proofs.Loading
import PolicyValue.Proofs.Replay

/-!
# Executing an export is running the network

The archive of a network is well typed, and the executor that is built from it mirrors the network:
the same operations, the same parameters, the same epsilon (`Executor.Mirrors`).  From this alone
the two agree on every state and batch, for any arithmetic.

* `Network.wellTyped_toArchive`: every export passes all checks of the executor;
* `Executor.parameterCount_eq`: nothing is lost or counted twice on the way;
* `Executor.Mirrors.score_eq`: the same scores and the same value;
* `Network.export_executes`: all of this, from any seed and after any loads.
-/

namespace PolicyValue

namespace Network

variable {net : Network}

/-! ## The sub-networks of a network -/

/-- The widths between which the sub-networks of a network lead, and that they fit together. -/
structure Chains (net : Network) : Prop where
  /-- From state vectors to their embeddings. -/
  state : LayerShape.Chain net.state.layers.shape stateSize net.config.stateEmbed.toNat
  /-- The same for the value. -/
  valueState : LayerShape.Chain net.valueState.layers.shape stateSize net.config.stateEmbed.toNat
  /-- From action vectors to their embeddings. -/
  action : LayerShape.Chain net.action.layers.shape actionSize net.config.actionEmbed.toNat
  /-- From two embeddings to one score. -/
  scorer : LayerShape.Chain net.scorer.layers.shape
    (net.config.stateEmbed.toNat + net.config.actionEmbed.toNat) 1
  /-- From an embedding to one value. -/
  head : LayerShape.Chain net.head.layers.shape net.config.stateEmbed.toNat 1

/-- The layers of a well-formed network fit together if actions have an embedding. -/
theorem WellFormed.chains (h : net.WellFormed) (hembed : 1 ≤ net.config.actionEmbed.toNat) :
    net.Chains := by
  have hpos : net.config.Positive := h.widths_pos
  obtain ⟨hstate, hvalue, haction, hscorer, hhead⟩ := h.shapes
  refine ⟨?_, ?_, ?_, ?_, ?_⟩
  · rw [hstate]
    exact StateEncoder.chain hpos.stateHidden hpos.stateEmbed
  · rw [hvalue]
    exact StateEncoder.chain hpos.stateHidden hpos.stateEmbed
  · rw [haction]
    exact ActionEncoder.chain hpos.actionHidden hembed
  · rw [hscorer]
    exact ActionScorer.chain hpos.scorerHidden
  · rw [hhead]
    exact ValueHead.chain hpos.valueHidden

/-! ## Exports are well typed -/

/-- The operations of a sub-network in an export. -/
theorem operations_toArchive {component : String × Layers} (h : component ∈ net.components) :
    net.toArchive.operations component.1 = operationsOf component.1 component.2 := by
  rw [Archive.operations, get?_graph_toArchive h, Option.getD_some]

/-- The operations of a sub-network in an export type as its layers fit together. -/
theorem WellFormed.types (h : net.WellFormed) {component : String × Layers}
    (hmem : component ∈ net.components) {w w' : Nat}
    (hchain : LayerShape.Chain component.2.shape w w') :
    net.toArchive.Types (net.toArchive.operations component.1) w w' := by
  rw [operations_toArchive hmem]
  exact Archive.types_operationsOf (fun entry hentry => record?_toArchive hmem hentry)
    (h.layers component hmem) hchain

/-- An export brings a value state encoder. -/
theorem bringsValueEncoder_toArchive (net : Network) : net.toArchive.BringsValueEncoder := by
  have hfc1 : ("fc1", Layer.linear net.valueState.fc1) ∈ net.valueState.layers := .head _
  have hrecord := record?_toArchive net.valueState_mem hfc1
  have hmem : parameterKey valueStateEncoder "fc1" ∈
      (operationsOf valueStateEncoder net.valueState.layers).filterMap Operation.key? := by
    rw [Layers.filterMap_key?_operationsOf]
    exact List.mem_map.2 ⟨_, hfc1, rfl⟩
  obtain ⟨op, hop, hkey⟩ := List.mem_filterMap.1 hmem
  exact ⟨_, get?_graph_toArchive net.valueState_mem, op, hop, _, hkey, _, hrecord⟩

/-- The graph of an export has all required sub-networks. -/
theorem complete_toArchive (net : Network) :
    ∀ name ∈ requiredComponents, ∃ ops, net.toArchive.header.graph.get? name = some ops := by
  intro name hname
  simp only [requiredComponents, List.mem_cons, List.not_mem_nil, or_false] at hname
  rcases hname with rfl | rfl | rfl | rfl
  · exact ⟨_, get?_graph_toArchive net.state_mem⟩
  · exact ⟨_, get?_graph_toArchive net.action_mem⟩
  · exact ⟨_, get?_graph_toArchive net.scorer_mem⟩
  · exact ⟨_, get?_graph_toArchive net.head_mem⟩

/-- Every export passes all checks of the executor. -/
theorem wellTyped_toArchive (h : net.WellFormed) (hepsilon : Scalar.Admissible net.config.epsilon)
    (hchains : net.Chains) :
    net.toArchive.WellTyped net.config.stateEmbed.toNat net.config.actionEmbed.toNat
      net.config.stateEmbed.toNat where
  valid := validate_toArchive hepsilon
  complete := net.complete_toArchive
  state := h.types net.state_mem hchains.state
  action := h.types net.action_mem hchains.action
  separate := fun _ => h.types net.valueState_mem hchains.valueState
  shared := fun hnot => absurd net.bringsValueEncoder_toArchive hnot
  scorer := h.types net.scorer_mem hchains.scorer
  head := h.types net.head_mem hchains.head

/-- **An export is loaded exactly if its epsilon is admissible and actions have an embedding.** -/
theorem WellFormed.exists_ofArchive_iff (h : net.WellFormed) :
    (∃ e, Executor.ofArchive net.toArchive = .ok e) ↔
      Scalar.Admissible net.config.epsilon ∧ 1 ≤ net.config.actionEmbed.toNat := by
  constructor
  · rintro ⟨e, he⟩
    obtain ⟨v, hload⟩ := Executor.exists_loadedFrom he
    refine ⟨validate_toArchive_iff.1 hload.valid, ?_⟩
    have hfc2 : ("fc2", Layer.linear net.action.fc2) ∈ net.action.layers :=
      .tail _ (.tail _ (.head _))
    have hop : .affine (parameterKey actionEncoder "fc2") ∈
        operationsOf actionEncoder net.action.layers := .tail _ (.tail _ (.tail _ (.head _)))
    have htypes := hload.wellTyped.action
    rw [operations_toArchive net.action_mem] at htypes
    have found := record?_toArchive net.action_mem hfc2
    simp only [Layer.record] at found
    have hbias : 1 ≤ net.action.fc2.bias.length := htypes.bias_pos hop found
    have hshaped : net.action.fc2.WellShaped := h.layers _ net.action_mem _ hfc2
    obtain ⟨-, -, haction, -, -⟩ := h.shapes
    have houtputs : net.action.fc2.outputs = net.config.actionEmbed.toNat := by
      simp only [ActionEncoder.layers, Layers.shape, List.map_cons, List.map_nil, Layer.shape,
        ActionEncoder.shape, List.cons.injEq, LayerShape.affine.injEq] at haction
      exact haction.2.2.1.2
    rwa [hshaped.length_bias, houtputs] at hbias
  · rintro ⟨hepsilon, hembed⟩
    obtain ⟨e, he, -⟩ :=
      Executor.exists_ofArchive_of_wellTyped (wellTyped_toArchive h hepsilon (h.chains hembed))
    exact ⟨e, he⟩

/-! ## The parameters of an export -/

/-- The tensors of all records of a network, with their keys. -/
def tensors (net : Network) : List (String × Tensors) :=
  (net.components.flatMap fun (name, layers) => layers.records name).map
    fun (key, record) => (key, record.tensors)

/-- The operations that the executor of an export can run are those of all sub-networks. -/
theorem usedOperations_toArchive (net : Network) :
    net.toArchive.usedOperations =
      net.components.flatMap fun component => operationsOf component.1 component.2 := by
  have hpath : net.toArchive.valuePath = .separate :=
    Archive.valuePath_eq_separate_iff.2 net.bringsValueEncoder_toArchive
  rw [Archive.usedOperations, hpath]
  show (net.components.map Prod.fst).flatMap net.toArchive.operations = _
  rw [List.flatMap_map]
  exact List.flatMap_congr fun component hmem => operations_toArchive hmem

/-- These operations name the keys of all layers. -/
theorem keys_usedOperations_toArchive (net : Network) :
    net.toArchive.usedOperations.filterMap Operation.key? = net.tensors.map Prod.fst := by
  rw [usedOperations_toArchive, List.filterMap_flatMap, tensors, List.map_map, List.map_flatMap]
  refine List.flatMap_congr fun component _ => ?_
  simp only [Layers.filterMap_key?_operationsOf, Layers.records, List.map_map]
  rfl

/-- The keys of the tensors are distinct. -/
theorem nodup_tensors (net : Network) : (net.tensors.map Prod.fst).Nodup := by
  rw [tensors, List.map_map]
  exact net.nodup_keys

end Network

/-- The executor of an export holds the tensors of all records. -/
theorem Executor.LoadedFrom.parameters_eq {net : Network} {e : Executor} {v : Nat}
    (h : LoadedFrom net.toArchive e v) : e.parameters = .ofList net.tensors := by
  -- Dictionaries with the same look-ups are equal, in whatever order they were filled.
  apply Dict.ext_get?
  intro key
  rw [h.get?_parameters, net.keys_usedOperations_toArchive]
  by_cases hkey : key ∈ net.tensors.map Prod.fst
  · obtain ⟨pair, hpair, hfst⟩ := List.mem_map.1 hkey
    obtain ⟨⟨key', record⟩, hrecord, rfl⟩ := List.mem_map.1 hpair
    obtain rfl : key' = key := hfst
    have hfound : net.toArchive.record? key' = some record :=
      Dict.get?_ofList_of_mem net.nodup_keys hrecord
    rw [if_pos hkey, hfound, Dict.get?_ofList_of_mem net.nodup_tensors hpair]
    rfl
  · rw [if_neg hkey, Dict.get?_ofList_of_notMem hkey]

/-- The tensors of a record have as many numbers as its layer. -/
theorem Layer.WellFormed.count_tensors {epsilon : Float32} {layer : Layer}
    (h : layer.WellFormed epsilon) : layer.record.tensors.count = layer.parameterCount := by
  cases layer with
  | linear l =>
    have hl : l.WellShaped := h
    have hkernel : l.kernel.flatten.length = l.inputs * l.outputs := by
      rw [length_flatten_of_length _ _ (Linear.length_of_mem_kernel hl), Linear.length_kernel hl]
    have hweight : l.weight.flatten.length = l.outputs * l.inputs := by
      rw [length_flatten_of_length _ _ hl.length_row, hl.length_weight]
    show l.kernel.flatten.length + l.bias.length = l.weight.flatten.length + l.bias.length
    rw [hkernel, hweight, Nat.mul_comm]
  | norm n => rfl

/-- An executor has as many parameters as the network it mirrors. -/
theorem Executor.LoadedFrom.parameterCount_eq {net : Network} (hnet : net.WellFormed)
    {e : Executor} {v : Nat} (h : LoadedFrom net.toArchive e v) :
    e.parameterCount = net.parameterCount := by
  have hperm : e.parameters.entries.Perm net.tensors := by
    rw [h.parameters_eq]
    exact Dict.perm_ofList net.tensors net.nodup_tensors
  -- Entries are sorted by key and layers by sub-network; sums do not see the difference.
  have hcount : e.parameterCount = (net.tensors.map fun pair => pair.2.count).sum := by
    rw [← (hperm.map fun pair => pair.2.count).sum_nat, List.sum, List.foldr_map]
    rfl
  have hlayers : net.parameterCount =
      (net.components.flatMap fun component => component.2.map fun entry =>
        entry.2.parameterCount).sum := by
    rw [← List.map_flatMap, List.sum, List.foldr_map]
    rfl
  rw [hcount, hlayers, Network.tensors, List.map_map, List.map_flatMap]
  refine congrArg List.sum (List.flatMap_congr fun component hmem => ?_)
  simp only [Layers.records, List.map_map]
  exact List.map_congr_left fun entry hentry => (hnet.layers _ hmem entry hentry).count_tensors

/-! ## Carrying a sub-network -/

namespace Executor

/-- An executor carries a sub-network: it has its operations, and the tensors of its layers. -/
structure Carries (e : Executor) (component : String × Layers) : Prop where
  /-- The graph has the operations under the name of the sub-network. -/
  get?_graph : e.graph.get? component.1 = some (operationsOf component.1 component.2)
  /-- The tensors are those of every layer's record. -/
  get?_parameters : ∀ entry ∈ component.2,
    e.parameters.get? (parameterKey component.1 entry.1) = some entry.2.record.tensors

/-- An executor follows a network in everything but the value: it carries all sub-networks but the
state encoder of the value, and has the same epsilon. -/
structure Follows (e : Executor) (net : Network) : Prop where
  /-- The state encoder of the policy. -/
  state : e.Carries (stateEncoder, net.state.layers)
  /-- The action encoder. -/
  action : e.Carries (actionEncoder, net.action.layers)
  /-- The action scorer. -/
  scorer : e.Carries (actionScorer, net.scorer.layers)
  /-- The value head. -/
  head : e.Carries (valueHead, net.head.layers)
  /-- The epsilon is the network's. -/
  epsilon_eq : e.epsilon = net.config.epsilon

/-- The layers of a network are well formed for an executor that follows it. -/
theorem Follows.layers {e : Executor} {net : Network} (h : e.Follows net) (hnet : net.WellFormed)
    {component : String × Layers} (hmem : component ∈ net.components) :
    component.2.WellFormed e.epsilon := by
  rw [h.epsilon_eq]
  exact hnet.layers component hmem

section

variable [Arithmetic]

/-- Running a carried sub-network gives what its layers give. -/
theorem Carries.run_eq {e : Executor} {component : String × Layers} (h : e.Carries component)
    (hlayers : component.2.WellFormed e.epsilon) {w w' : Nat}
    (hchain : LayerShape.Chain component.2.shape w w') {x : List Float32} (hx : x.length = w) :
    e.run component.1 x = .ok (component.2.forward component.1 x) ∧
      (component.2.forward component.1 x).length = w' := by
  rw [run_eq_foldlM h.get?_graph]
  exact foldlM_step_operationsOf h.get?_parameters hlayers hchain hx

namespace Follows

variable {e : Executor} {net : Network}

/-- A follower embeds states as the network does. -/
theorem run_state (h : e.Follows net) (hnet : net.WellFormed) (hchains : net.Chains)
    (state : StateVector) :
    e.run stateEncoder state.values = .ok (net.state.forward state.values) ∧
      (net.state.forward state.values).length = net.config.stateEmbed.toNat := by
  have hencoder : stateEncoder ≠ valueHead := by decide
  have hrun := h.state.run_eq (h.layers hnet net.state_mem) hchains.state state.length_values
  rwa [net.state.forward_layers hencoder] at hrun

/-- A follower scores an action as the network does. -/
theorem scoreAction_eq (h : e.Follows net) (hnet : net.WellFormed) (hchains : net.Chains)
    {embedding : List Float32} (hembedding : embedding.length = net.config.stateEmbed.toNat)
    (action : ActionVector) : e.scoreAction embedding action = net.scoreAction embedding action := by
  have hencoder : actionEncoder ≠ valueHead := by decide
  have hscorer : actionScorer ≠ valueHead := by decide
  obtain ⟨hrun, hlength⟩ := h.action.run_eq (h.layers hnet net.action_mem)
    hchains.action action.length_values
  rw [net.action.forward_layers hencoder] at hrun hlength
  have hjoint : (embedding ++ net.action.forward action.values).length =
      net.config.stateEmbed.toNat + net.config.actionEmbed.toNat := by
    rw [List.length_append, hembedding, hlength]
  obtain ⟨hscore, -⟩ := h.scorer.run_eq (h.layers hnet net.scorer_mem) hchains.scorer hjoint
  rw [scoreAction, hrun, ok_bind, hscore, ok_bind, net.scorer.forward_layers hscorer]
  rfl

/-- A follower reads values out of embeddings as the network does. -/
theorem run_head (h : e.Follows net) (hnet : net.WellFormed) (hchains : net.Chains)
    {embedding : List Float32} (hembedding : embedding.length = net.config.stateEmbed.toNat) :
    (e.run valueHead embedding >>= singleOutput) = net.head.forward embedding := by
  obtain ⟨hrun, -⟩ := h.head.run_eq (h.layers hnet net.head_mem) hchains.head hembedding
  rw [hrun, ok_bind, net.head.forward_layers]

end Follows

end

end Executor

/-! ## Mirroring -/

namespace Executor

/-- An executor runs the operations of a network's sub-networks over their parameters. -/
structure Mirrors (e : Executor) (net : Network) : Prop where
  /-- The graph has the operations of every sub-network. -/
  get?_graph : ∀ component ∈ net.components,
    e.graph.get? component.1 = some (operationsOf component.1 component.2)
  /-- The tensors are those of every layer's record. -/
  get?_parameters : ∀ component ∈ net.components, ∀ entry ∈ component.2,
    e.parameters.get? (parameterKey component.1 entry.1) = some entry.2.record.tensors
  /-- The epsilon is the network's. -/
  epsilon_eq : e.epsilon = net.config.epsilon
  /-- The value reads its own state encoder. -/
  valuePath_eq : e.valuePath = .separate

/-- The executor of an export mirrors the network. -/
theorem LoadedFrom.mirrors {net : Network} {e : Executor} {v : Nat}
    (h : LoadedFrom net.toArchive e v) : e.Mirrors net where
  get?_graph := by
    intro component hmem
    rw [h.graph_eq, Network.get?_graph_toArchive hmem]
  get?_parameters := by
    intro component hmem entry hentry
    rw [h.parameters_eq]
    apply Dict.get?_ofList_of_mem net.nodup_tensors
    refine List.mem_map.2 ⟨(parameterKey component.1 entry.1, entry.2.record), ?_, rfl⟩
    exact List.mem_flatMap.2 ⟨component, hmem, List.mem_map.2 ⟨entry, hentry, rfl⟩⟩
  epsilon_eq := h.epsilon_eq
  valuePath_eq := h.valuePath_eq.trans
    (Archive.valuePath_eq_separate_iff.2 net.bringsValueEncoder_toArchive)

/-- A mirror carries every sub-network. -/
theorem Mirrors.carries {e : Executor} {net : Network} (h : e.Mirrors net)
    {component : String × Layers} (hmem : component ∈ net.components) : e.Carries component :=
  ⟨h.get?_graph component hmem, h.get?_parameters component hmem⟩

/-- A mirror follows its network. -/
theorem Mirrors.follows {e : Executor} {net : Network} (h : e.Mirrors net) : e.Follows net :=
  ⟨h.carries net.state_mem, h.carries net.action_mem, h.carries net.scorer_mem,
    h.carries net.head_mem, h.epsilon_eq⟩

variable [Arithmetic]

/-- **A mirror scores every state and batch as the network does**, whatever the arithmetic. -/
theorem Mirrors.score_eq {e : Executor} {net : Network} (h : e.Mirrors net)
    (hnet : net.WellFormed) (hchains : net.Chains) (state : StateVector) (batch : ActionBatch) :
    e.score state batch = net.score state batch := by
  have hvalueEncoder : valueStateEncoder ≠ valueHead := by decide
  obtain ⟨hstate, hembedding⟩ := h.follows.run_state hnet hchains state
  obtain ⟨hvalue, hvalueEmbedding⟩ := (h.carries net.valueState_mem).run_eq
    (h.follows.layers hnet net.valueState_mem) hchains.valueState state.length_values
  rw [net.valueState.forward_layers hvalueEncoder] at hvalue hvalueEmbedding
  have hhead := h.follows.run_head hnet hchains hvalueEmbedding
  have hactions : batch.actions.mapM (e.scoreAction (net.state.forward state.values)) =
      batch.actions.mapM (net.scoreAction (net.state.forward state.values)) :=
    mapM_congr fun action _ => h.follows.scoreAction_eq hnet hchains hembedding action
  unfold score Network.score
  rw [hstate, h.valuePath_eq]
  simp only [ok_bind, hvalue, hactions, ← hhead, bind_assoc]

end Executor

/-! ## Exporting and executing -/

/-- The executor of an export scores as the network does. -/
theorem Network.WellFormed.score_ofArchive [Arithmetic] {net : Network} (h : net.WellFormed)
    {e : Executor} (he : Executor.ofArchive net.toArchive = .ok e) (state : StateVector)
    (batch : ActionBatch) : Evaluator.score e state batch = Evaluator.score net state batch := by
  obtain ⟨v, hload⟩ := Executor.exists_loadedFrom he
  exact hload.mirrors.score_eq h (h.chains (h.exists_ofArchive_iff.1 ⟨e, he⟩).2) state batch

/-- **Exporting and executing is the network itself.**  A network that was drawn and then loaded any
number of times, with an admissible epsilon and a width for the embeddings of actions, exports an
archive whose executor has a value encoder, as many parameters, and for any arithmetic the scores,
the value and the policy of the network. -/
theorem Network.export_executes {net : Network} (h : net.Reachable)
    (hepsilon : Scalar.Admissible net.config.epsilon)
    (hembed : 1 ≤ net.config.actionEmbed.toNat) :
    ∃ e, Executor.ofArchive net.toArchive = .ok e ∧ e.hasValueEncoder = true ∧
      e.parameterCount = net.parameterCount ∧
      ∀ [Arithmetic] (state : StateVector) (batch : ActionBatch), ∃ scored prediction,
        Evaluator.score net state batch = .ok scored ∧
        Evaluator.score e state batch = .ok scored ∧
        Evaluator.policy net state batch = .ok prediction ∧
        Evaluator.policy e state batch = .ok prediction := by
  have hnet : net.WellFormed := h.wellFormed
  have hchains : net.Chains := hnet.chains hembed
  obtain ⟨e, he, -⟩ :=
    Executor.exists_ofArchive_of_wellTyped (wellTyped_toArchive hnet hepsilon hchains)
  obtain ⟨v, hload⟩ := Executor.exists_loadedFrom he
  refine ⟨e, he, (Executor.hasValueEncoder_iff he).2 net.bringsValueEncoder_toArchive,
    hload.parameterCount_eq hnet, ?_⟩
  intro _ state batch
  obtain ⟨scored, hscored⟩ := hload.exists_scores state batch
  have hagree : Evaluator.score e state batch = Evaluator.score net state batch :=
    hload.mirrors.score_eq hnet hchains state batch
  have hexecutor : Evaluator.score e state batch = .ok scored := hscored.score_eq
  have hnetwork : Evaluator.score net state batch = .ok scored := by rw [← hagree, hexecutor]
  exact ⟨scored, _, hnetwork, hexecutor, Evaluator.policy_eq_ok hnetwork,
    Evaluator.policy_eq_ok hexecutor⟩

/-- A fresh network of widths one and the executor of its export agree. -/
theorem Network.export_executes_single : ∃ net e, Network.draw Config.single 7 = .ok net ∧
    Executor.ofArchive net.toArchive = .ok e ∧ e.hasValueEncoder = true ∧
    e.parameterCount = net.parameterCount ∧
    ∀ [Arithmetic] (state : StateVector) (batch : ActionBatch),
      Evaluator.score e state batch = Evaluator.score net state batch ∧
      Evaluator.policy e state batch = Evaluator.policy net state batch := by
  obtain ⟨net, hnet, -, hconfig, hepsilon⟩ := exists_draw_single 7
  have hembed : 1 ≤ net.config.actionEmbed.toNat := by
    rw [hconfig]
    decide
  obtain ⟨e, he, hvalue, hcount, hagree⟩ := export_executes (.draw hnet) hepsilon hembed
  refine ⟨net, e, hnet, he, hvalue, hcount, ?_⟩
  intro _ state batch
  obtain ⟨scored, prediction, hnetScore, hscore, hnetPolicy, hpolicy⟩ := hagree state batch
  exact ⟨hscore.trans hnetScore.symm, hpolicy.trans hnetPolicy.symm⟩

end PolicyValue
