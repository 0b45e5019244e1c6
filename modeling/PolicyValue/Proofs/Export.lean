import PolicyValue.Archive.Import
import PolicyValue.Proofs.Shape

/-!
# What an exported archive holds

`Network.toArchive` puts every layer's record under its key and every sub-network's operations under
its name.  The keys are distinct, so nothing is overwritten:

* `Network.record?_toArchive`: the record of each layer;
* `Network.get?_graph_toArchive`: the operations of each sub-network;
* `Archive.validate_eq_ok_iff`: what makes an archive valid;
* `Network.validate_toArchive`: the header is valid if the epsilon is admissible;
* `Network.fits_toArchive`: each record of a well-formed network has its layer's shape.
-/

namespace PolicyValue

/-- An epsilon that is finite and not negative. -/
def Scalar.Admissible (epsilon : Float32) : Prop :=
  epsilon.isFinite = true ∧ ¬ epsilon < Scalar.zero

/-- The default epsilon is admissible. -/
theorem Network.Config.admissible_single : Scalar.Admissible Network.Config.single.epsilon :=
  ⟨by decide, by decide⟩

/-- A network of widths one can be drawn from every seed; it is well formed, and its epsilon is
admissible. -/
theorem Network.exists_draw_single (seed : UInt64) : ∃ net, draw Config.single seed = .ok net ∧
    net.WellFormed ∧ net.config = Config.single ∧ Scalar.Admissible net.config.epsilon := by
  obtain ⟨net, hnet⟩ := exists_draw Config.positive_single seed
  obtain ⟨hwell, hconfig⟩ := draw_wellFormed hnet
  refine ⟨net, hnet, hwell, hconfig, ?_⟩
  rw [hconfig]
  exact Config.admissible_single

/-! ## Records and shapes -/

/-- A record is of a layer's kind and has exactly its widths. -/
def Record.Fits : Record → LayerShape → Prop
  | .affine kernel bias, .affine inputs outputs =>
    kernel.length = inputs ∧ (∀ row ∈ kernel, row.length = outputs) ∧ bias.length = outputs
  | .norm gamma beta, .norm features => gamma.length = features ∧ beta.length = features
  | .affine _ _, .norm _ => False
  | .norm _ _, .affine _ _ => False

/-- A kernel has a row per input. -/
theorem Linear.length_kernel {l : Linear} (h : l.WellShaped) : l.kernel.length = l.inputs :=
  length_transpose l.inputs l.weight h.length_row

/-- The rows of a kernel have an entry per output. -/
theorem Linear.length_of_mem_kernel {l : Linear} (h : l.WellShaped) :
    ∀ row ∈ l.kernel, row.length = l.outputs := by
  intro row hr
  rw [length_of_mem_transpose l.inputs l.weight row hr, h.length_weight]

/-- The record of a well-formed layer has its shape. -/
theorem Layer.WellFormed.fits {epsilon : Float32} {layer : Layer} (h : layer.WellFormed epsilon) :
    layer.record.Fits layer.shape := by
  cases layer with
  | linear l =>
    have hl : l.WellShaped := h
    exact ⟨Linear.length_kernel hl, Linear.length_of_mem_kernel hl, hl.length_bias⟩
  | norm n => exact ⟨rfl, h.1⟩

/-- An archive is valid exactly if it has the version and the vector lengths of this model, and an
admissible epsilon. -/
theorem Archive.validate_eq_ok_iff {a : Archive} : a.validate = .ok () ↔
    a.header.version = archiveVersion ∧ a.header.stateSize.toNat = stateSize ∧
      a.header.actionSize.toNat = actionSize ∧ Scalar.Admissible a.header.epsilon := by
  have hepsilon : (!a.header.epsilon.isFinite || a.header.epsilon < Scalar.zero) = true ↔
      ¬ Scalar.Admissible a.header.epsilon := by
    rw [Scalar.Admissible, Bool.or_eq_true, Bool.not_eq_true', decide_eq_true_iff, not_and_or,
      not_not, Bool.not_eq_true]
  unfold validate
  constructor
  · intro h
    split_ifs at h with hversion hstate haction hbad
    exact ⟨not_not.1 hversion, not_not.1 hstate, not_not.1 haction, not_not.1 (mt hepsilon.2 hbad)⟩
  · rintro ⟨hversion, hstate, haction, h⟩
    rw [if_neg (not_not.2 hversion), if_neg (not_not.2 hstate), if_neg (not_not.2 haction),
      if_neg fun hbad => hepsilon.1 hbad h]

/-- Whether an archive is valid depends on its header only. -/
theorem Archive.validate_congr {a b : Archive} (h : a.header = b.header) :
    a.validate = b.validate := by
  rw [validate, validate, h]

namespace Network

/-! ## Sub-networks and keys -/

theorem state_mem (net : Network) : (stateEncoder, net.state.layers) ∈ net.components := .head _

theorem valueState_mem (net : Network) :
    (valueStateEncoder, net.valueState.layers) ∈ net.components := .tail _ (.head _)

theorem action_mem (net : Network) : (actionEncoder, net.action.layers) ∈ net.components :=
  .tail _ (.tail _ (.head _))

theorem scorer_mem (net : Network) : (actionScorer, net.scorer.layers) ∈ net.components :=
  .tail _ (.tail _ (.tail _ (.head _)))

theorem head_mem (net : Network) : (valueHead, net.head.layers) ∈ net.components :=
  .tail _ (.tail _ (.tail _ (.tail _ (.head _))))

/-- The parameter keys of every network, in the order of its layers. -/
def parameterKeys : List String :=
  [stateEncoder, valueStateEncoder].flatMap
      (fun name => ["fc1", "ln1", "fc2", "ln2"].map (parameterKey name)) ++
    [actionEncoder, actionScorer].flatMap
      (fun name => ["fc1", "ln1", "fc2"].map (parameterKey name)) ++
    ["fc1", "fc2"].map (parameterKey valueHead)

/-- The records of a network stand under its parameter keys. -/
theorem keys_records (net : Network) :
    (net.components.flatMap fun (name, layers) => layers.records name).map Prod.fst =
      parameterKeys := rfl

/-- The parameter keys of a network are distinct. -/
theorem nodup_keys (net : Network) :
    ((net.components.flatMap fun (name, layers) => layers.records name).map Prod.fst).Nodup := by
  rw [keys_records]
  decide

theorem nodup_names (net : Network) : (net.components.map Prod.fst).Nodup := by
  show [stateEncoder, valueStateEncoder, actionEncoder, actionScorer, valueHead].Nodup
  decide

/-! ## Records and operations of an export -/

/-- An exported archive holds the record of every layer under its key. -/
theorem record?_toArchive {net : Network} {component : String × Layers}
    (hcomponent : component ∈ net.components) {entry : String × Layer} (hentry : entry ∈ component.2) :
    net.toArchive.record? (parameterKey component.1 entry.1) = some entry.2.record := by
  apply Dict.get?_ofList_of_mem net.nodup_keys
  exact List.mem_flatMap.2 ⟨component, hcomponent, List.mem_map.2 ⟨entry, hentry, rfl⟩⟩

/-- An exported archive holds the operations of every sub-network under its name. -/
theorem get?_graph_toArchive {net : Network} {component : String × Layers}
    (hcomponent : component ∈ net.components) :
    net.toArchive.header.graph.get? component.1 =
      some (operationsOf component.1 component.2) := by
  apply Dict.get?_ofList_of_mem
  · rw [List.map_map]
    exact net.nodup_names
  · exact List.mem_map.2 ⟨component, hcomponent, rfl⟩

/-- The header of an exported archive is valid exactly if the epsilon is admissible. -/
theorem validate_toArchive_iff {net : Network} :
    net.toArchive.validate = .ok () ↔ Scalar.Admissible net.config.epsilon := by
  rw [Archive.validate_eq_ok_iff]
  exact ⟨fun h => h.2.2.2, fun h => ⟨rfl, rfl, rfl, h⟩⟩

/-- The header of an exported archive is valid if the epsilon is admissible. -/
theorem validate_toArchive {net : Network} (h : Scalar.Admissible net.config.epsilon) :
    net.toArchive.validate = .ok () :=
  validate_toArchive_iff.2 h

/-- Every record of a well-formed network's archive has its layer's shape. -/
theorem fits_toArchive {net : Network} (h : net.WellFormed) {component : String × Layers}
    (hcomponent : component ∈ net.components) {entry : String × Layer}
    (hentry : entry ∈ component.2) :
    ∃ record, net.toArchive.record? (parameterKey component.1 entry.1) = some record ∧
      record.Fits entry.2.shape :=
  ⟨_, record?_toArchive hcomponent hentry, (h.layers component hcomponent entry hentry).fits⟩

end Network

end PolicyValue
