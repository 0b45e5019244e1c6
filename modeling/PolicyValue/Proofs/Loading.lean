import PolicyValue.Proofs.Export
import PolicyValue.Proofs.Loader

/-!
# Loading is exact and all or nothing

`Network.load` takes over every record of an archive or none.  The five sub-networks are loaded by
four functions, one per kind; each of them is a pass over its layers (`Archive.loadLayers`), so that
one lemma about a layer carries the whole load.

* `Archive.loadLayer_eq_ok`: what one layer asks of the record under its key, and what it becomes;
* `Network.stage_components`: a load as one pass over the sub-networks;
* `Network.Reachable.wellFormed`: drawing and loading keep networks well formed;
* `Network.load_exact`: when a load succeeds, what it has then done, and that it does nothing else.
-/

namespace PolicyValue

/-! ## One layer -/

/-- A layer with the parameters of a record of its kind. -/
def Layer.withRecord : Layer → Record → Layer
  | .linear l, .affine kernel bias =>
    .linear { l with weight := transpose l.outputs kernel, bias := bias }
  | .norm n, .norm gamma beta => .norm { n with gamma := gamma, beta := beta }
  | .linear l, .norm _ _ => .linear l
  | .norm n, .affine _ _ => .norm n

namespace Layer

/-- A layer with a record that fits holds this record. -/
theorem record_withRecord {layer : Layer} {record : Record} (h : record.Fits layer.shape) :
    (layer.withRecord record).record = record := by
  cases layer with
  | linear l =>
    cases record with
    | affine kernel bias =>
      obtain ⟨hrows, hrow, -⟩ := h
      -- The kernel is transposed twice: when it is taken over and when it is read.
      show Record.affine (transpose l.inputs (transpose l.outputs kernel)) bias = _
      rw [← hrows, transpose_transpose l.outputs kernel hrow]
    | norm gamma beta => exact h.elim
  | norm n =>
    cases record with
    | affine kernel bias => exact h.elim
    | norm gamma beta => rfl

/-- A record that fits keeps a layer's shape. -/
theorem shape_withRecord {layer : Layer} {record : Record} (h : record.Fits layer.shape) :
    (layer.withRecord record).shape = layer.shape := by
  cases layer with
  | linear l => cases record <;> rfl
  | norm n =>
    cases record with
    | affine kernel bias => rfl
    | norm gamma beta => exact congrArg LayerShape.norm h.1

/-- A record does not touch a layer's epsilon. -/
theorem epsilon?_withRecord (layer : Layer) (record : Record) :
    (layer.withRecord record).epsilon? = layer.epsilon? := by
  cases layer <;> cases record <;> rfl

/-- A record that fits keeps a layer well formed. -/
theorem WellFormed.withRecord {epsilon : Float32} {layer : Layer} (hl : layer.WellFormed epsilon)
    {record : Record} (h : record.Fits layer.shape) :
    (layer.withRecord record).WellFormed epsilon := by
  cases layer with
  | linear l =>
    have hshaped : l.WellShaped := hl
    cases record with
    | affine kernel bias =>
      obtain ⟨hrows, hrow, hbias⟩ := h
      refine ⟨length_transpose _ _ hrow, ?_, hbias, hshaped.inputs_pos⟩
      intro row hr
      rw [length_of_mem_transpose _ _ row hr, hrows]
    | norm gamma beta => exact h.elim
  | norm n =>
    cases record with
    | affine kernel bias => exact h.elim
    | norm gamma beta => exact ⟨h.2.trans h.1.symm, hl.2⟩

end Layer

/-- An affine layer is overwritten exactly when kernel and bias have its widths. -/
theorem Linear.assign_eq_ok {l l' : Linear} (key : String) {kernel : List (List Float32)}
    {bias : List Float32} :
    l.assign key kernel bias = (l', .ok ()) ↔
      (Record.affine kernel bias).Fits (.affine l.inputs l.outputs) ∧
        l' = { l with weight := transpose l.outputs kernel, bias := bias } := by
  unfold assign
  by_cases hrows : kernel.length = l.inputs
  · by_cases hbias : bias.length = l.outputs
    · rw [if_neg (not_not.2 hrows), if_neg (not_not.2 hbias)]
      cases hragged : firstRagged? l.outputs kernel with
      | none =>
        have hrow := firstRagged?_eq_none_iff.1 hragged
        simp only [Record.Fits, Prod.mk.injEq, and_true]
        exact ⟨fun h => ⟨⟨hrows, hrow, hbias⟩, h.symm⟩, fun h => h.2.symm⟩
      | some r =>
        have hrow : ¬ ∀ row ∈ kernel, row.length = l.outputs := by
          intro hrow
          rw [firstRagged?_eq_none_iff.2 hrow] at hragged
          cases hragged
        simp [Record.Fits, hrow]
    · rw [if_neg (not_not.2 hrows), if_pos hbias]
      simp [Record.Fits, hbias]
  · rw [if_pos hrows]
    simp [Record.Fits, hrows]

/-- A correction is overwritten exactly when both new lists are as long as the old ones. -/
theorem LayerNorm.assign_eq_ok {n n' : LayerNorm} (hbeta : n.beta.length = n.features)
    (key : String) {gamma beta : List Float32} :
    n.assign key gamma beta = (n', .ok ()) ↔
      (Record.norm gamma beta).Fits (.norm n.features) ∧
        n' = { n with gamma := gamma, beta := beta } := by
  unfold assign
  -- The new beta is compared with the old one, which is as long as gamma.
  rw [hbeta, show n.gamma.length = n.features from rfl]
  by_cases hgamma : gamma.length = n.features
  · by_cases hbeta' : beta.length = n.features
    · rw [if_neg (not_not.2 hgamma), if_neg (not_not.2 hbeta')]
      simp only [Record.Fits, Prod.mk.injEq, and_true]
      exact ⟨fun h => ⟨⟨hgamma, hbeta'⟩, h.symm⟩, fun h => h.2.symm⟩
    · rw [if_neg (not_not.2 hgamma), if_pos hbeta']
      simp [Record.Fits, hbeta']
  · rw [if_pos hgamma]
    simp [Record.Fits, hgamma]

namespace Archive

theorem require_eq_ok {a : Archive} {key : String} {record : Record} :
    a.require key = .ok record ↔ a.record? key = some record := by
  unfold require
  cases a.record? key <;> simp

/-- What was overwritten is handed on exactly when overwriting it succeeded. -/
theorem outcome_eq_ok {α : Type} {p : α × Except Error Unit} {x : α} :
    (p.2 >>= fun _ => pure p.1) = .ok x ↔ p = (x, .ok ()) := by
  obtain ⟨y, outcome⟩ := p
  rw [bind_eq_ok]
  simp only [pure_eq_ok, Prod.mk.injEq]
  constructor
  · rintro ⟨⟨⟩, houtcome, hy⟩
    exact ⟨hy, houtcome⟩
  · rintro ⟨hy, houtcome⟩
    exact ⟨(), houtcome, hy⟩

/-- An affine layer is loaded exactly when the record under its key fits, and then holds it; so is a
normalization. -/
theorem loadLinear_eq_ok {a : Archive} {component name : String} {l l' : Linear} :
    a.loadLinear component name l = .ok l' ↔
      ∃ record, a.record? (parameterKey component name) = some record ∧
        record.Fits (Layer.linear l).shape ∧
        Layer.linear l' = (Layer.linear l).withRecord record := by
  rw [loadLinear, bind_eq_ok]
  simp only [require_eq_ok]
  refine exists_congr fun record => and_congr_right fun _ => ?_
  cases record with
  | affine kernel bias =>
    rw [Layer.withRecord, Layer.linear.injEq]
    exact outcome_eq_ok.trans (Linear.assign_eq_ok _)
  | norm gamma beta => simp [Record.Fits, Layer.shape]

theorem loadNorm_eq_ok {a : Archive} {component name : String} {n n' : LayerNorm}
    (hbeta : n.beta.length = n.features) :
    a.loadNorm component name n = .ok n' ↔
      ∃ record, a.record? (parameterKey component name) = some record ∧
        record.Fits (Layer.norm n).shape ∧
        Layer.norm n' = (Layer.norm n).withRecord record := by
  rw [loadNorm, bind_eq_ok]
  simp only [require_eq_ok]
  refine exists_congr fun record => and_congr_right fun _ => ?_
  cases record with
  | affine kernel bias => simp [Record.Fits, Layer.shape]
  | norm gamma beta =>
    rw [Layer.withRecord, Layer.norm.injEq]
    exact outcome_eq_ok.trans (LayerNorm.assign_eq_ok hbeta _)

/-- A layer with the parameters under its key. -/
def loadLayer (a : Archive) (component : String) : String × Layer → Except Error (String × Layer)
  | (name, .linear l) => (a.loadLinear component name l).map fun l => (name, .linear l)
  | (name, .norm n) => (a.loadNorm component name n).map fun n => (name, .norm n)

/-- A layer is loaded exactly when the record under its key fits, and then holds it. -/
theorem loadLayer_eq_ok {a : Archive} {component : String} {epsilon : Float32}
    {entry entry' : String × Layer} (hentry : entry.2.WellFormed epsilon) :
    a.loadLayer component entry = .ok entry' ↔
      ∃ record, a.record? (parameterKey component entry.1) = some record ∧
        record.Fits entry.2.shape ∧ entry' = (entry.1, entry.2.withRecord record) := by
  obtain ⟨name, layer⟩ := entry
  cases layer with
  | linear l =>
    simp only [loadLayer, map_eq_ok, loadLinear_eq_ok]
    constructor
    · rintro ⟨l', ⟨record, hrecord, hfits, hl'⟩, rfl⟩
      exact ⟨record, hrecord, hfits, by rw [hl']⟩
    · rintro ⟨record, hrecord, hfits, rfl⟩
      cases record with
      | affine kernel bias => exact ⟨_, ⟨_, hrecord, hfits, rfl⟩, rfl⟩
      | norm gamma beta => exact hfits.elim
  | norm n =>
    have hbeta : n.beta.length = n.features := hentry.1
    simp only [loadLayer, map_eq_ok, loadNorm_eq_ok hbeta]
    constructor
    · rintro ⟨n', ⟨record, hrecord, hfits, hn'⟩, rfl⟩
      exact ⟨record, hrecord, hfits, by rw [hn']⟩
    · rintro ⟨record, hrecord, hfits, rfl⟩
      cases record with
      | affine kernel bias => exact hfits.elim
      | norm gamma beta => exact ⟨_, ⟨_, hrecord, hfits, rfl⟩, rfl⟩

/-! ## One sub-network -/

/-- The layers of a sub-network with the parameters under their keys. -/
def loadLayers (a : Archive) (component : String) (layers : Layers) : Except Error Layers :=
  layers.mapM (a.loadLayer component)

/-- A state encoder is loaded layer by layer, and so are the other three kinds. -/
theorem loadStateEncoder_layers (a : Archive) (component : String) (e : StateEncoder) :
    (a.loadStateEncoder component e).map StateEncoder.layers =
      a.loadLayers component e.layers := by
  simp only [loadStateEncoder, loadLayers, StateEncoder.layers, List.mapM_cons, List.mapM_nil,
    loadLayer]
  cases a.loadLinear component "fc1" e.fc1 with
  | error error => rfl
  | ok fc1 =>
    cases a.loadNorm component "ln1" e.ln1 with
    | error error => rfl
    | ok ln1 =>
      cases a.loadLinear component "fc2" e.fc2 with
      | error error => rfl
      | ok fc2 => cases a.loadNorm component "ln2" e.ln2 <;> rfl

theorem loadActionEncoder_layers (a : Archive) (component : String) (e : ActionEncoder) :
    (a.loadActionEncoder component e).map ActionEncoder.layers =
      a.loadLayers component e.layers := by
  simp only [loadActionEncoder, loadLayers, ActionEncoder.layers, List.mapM_cons, List.mapM_nil,
    loadLayer]
  cases a.loadLinear component "fc1" e.fc1 with
  | error error => rfl
  | ok fc1 =>
    cases a.loadNorm component "ln1" e.ln1 with
    | error error => rfl
    | ok ln1 => cases a.loadLinear component "fc2" e.fc2 <;> rfl

theorem loadActionScorer_layers (a : Archive) (component : String) (s : ActionScorer) :
    (a.loadActionScorer component s).map ActionScorer.layers =
      a.loadLayers component s.layers := by
  simp only [loadActionScorer, loadLayers, ActionScorer.layers, List.mapM_cons, List.mapM_nil,
    loadLayer]
  cases a.loadLinear component "fc1" s.fc1 with
  | error error => rfl
  | ok fc1 =>
    cases a.loadNorm component "ln1" s.ln1 with
    | error error => rfl
    | ok ln1 => cases a.loadLinear component "fc2" s.fc2 <;> rfl

theorem loadValueHead_layers (a : Archive) (component : String) (h : ValueHead) :
    (a.loadValueHead component h).map ValueHead.layers = a.loadLayers component h.layers := by
  simp only [loadValueHead, loadLayers, ValueHead.layers, List.mapM_cons, List.mapM_nil, loadLayer]
  cases a.loadLinear component "fc1" h.fc1 with
  | error error => rfl
  | ok fc1 => cases a.loadLinear component "fc2" h.fc2 <;> rfl

/-- A sub-network is skipped: it is the state encoder of the value, and none of its keys is there. -/
def Skips (a : Archive) (component : String × Layers) : Prop :=
  component.1 = valueStateEncoder ∧
    ∀ entry ∈ component.2, a.record? (parameterKey component.1 entry.1) = none

/-- A sub-network is covered: every layer's record is there, and has exactly its shape. -/
def Covers (a : Archive) (component : String × Layers) : Prop :=
  ∀ entry ∈ component.2, ∃ record,
    a.record? (parameterKey component.1 entry.1) = some record ∧ record.Fits entry.2.shape

/-- The loader omits exactly the skipped sub-networks. -/
theorem omits_eq_true_iff {a : Archive} {component : String × Layers} :
    a.omits component.1 component.2 = true ↔ a.Skips component := by
  have habsent : ∀ key, (!a.parameters.contains key) = true ↔ a.record? key = none := by
    intro key
    rw [Dict.contains, record?]
    cases a.parameters.get? key <;> simp
  simp only [omits, Skips, optionalComponents, Layers.keys, Bool.and_eq_true, List.all_eq_true,
    List.mem_map, habsent, List.contains_iff_mem, List.mem_singleton, forall_exists_index, and_imp,
    forall_apply_eq_imp_iff₂]

instance (a : Archive) (component : String × Layers) : Decidable (a.Skips component) :=
  decidable_of_iff _ omits_eq_true_iff

/-- A layer took over the record under its key; its name, its shape and its epsilon are as before. -/
structure Fills (a : Archive) (component : String) (old new : String × Layer) : Prop where
  /-- The name of the layer. -/
  name_eq : new.1 = old.1
  /-- The new parameters are those of the record. -/
  found : a.record? (parameterKey component old.1) = some new.2.record
  /-- The kind and the widths of the layer. -/
  shape_eq : new.2.shape = old.2.shape
  /-- The epsilon of a normalization. -/
  epsilon?_eq : new.2.epsilon? = old.2.epsilon?

/-- What a load makes of a sub-network. -/
structure Updates (a : Archive) (old new : String × Layers) : Prop where
  /-- The name of the sub-network. -/
  name_eq : new.1 = old.1
  /-- A skipped sub-network keeps its layers. -/
  kept : a.Skips old → new.2 = old.2
  /-- The layers of any other take over their records. -/
  filled : ¬ a.Skips old → List.Forall₂ (a.Fills old.1) old.2 new.2

/-- Layers are loaded exactly when all their records are there and fit. -/
theorem exists_loadLayers_iff {a : Archive} {component : String × Layers} {epsilon : Float32}
    (h : component.2.WellFormed epsilon) :
    (∃ layers, a.loadLayers component.1 component.2 = .ok layers) ↔ a.Covers component := by
  rw [loadLayers, exists_mapM_eq_ok_iff]
  refine forall₂_congr fun entry hentry => ?_
  simp only [loadLayer_eq_ok (h entry hentry)]
  constructor
  · rintro ⟨_, record, hrecord, hfits, -⟩
    exact ⟨record, hrecord, hfits⟩
  · rintro ⟨record, hrecord, hfits⟩
    exact ⟨_, record, hrecord, hfits, rfl⟩

/-- A loaded layer takes over its record, and stays well formed. -/
theorem fills_of_loadLayer {a : Archive} {component : String} {epsilon : Float32}
    {old new : String × Layer} (hold : old.2.WellFormed epsilon)
    (h : a.loadLayer component old = .ok new) :
    a.Fills component old new ∧ new.2.WellFormed epsilon := by
  obtain ⟨record, hrecord, hfits, rfl⟩ := (loadLayer_eq_ok hold).1 h
  refine ⟨⟨rfl, ?_, Layer.shape_withRecord hfits, Layer.epsilon?_withRecord _ _⟩,
    hold.withRecord hfits⟩
  rw [hrecord, Layer.record_withRecord hfits]

/-- Loaded layers take over their records, and stay well formed and of the same shape. -/
theorem fills_of_loadLayers {a : Archive} {component : String} {epsilon : Float32}
    {layers layers' : Layers} (hlayers : layers.WellFormed epsilon)
    (h : a.loadLayers component layers = .ok layers') :
    List.Forall₂ (a.Fills component) layers layers' ∧ layers'.shape = layers.shape ∧
      layers'.WellFormed epsilon := by
  have hloaded : List.Forall₂ (fun old new => a.Fills component old new ∧
      new.2.WellFormed epsilon) layers layers' :=
    forall₂_of_mapM_eq_ok (fun _ _ => fills_of_loadLayer) hlayers h
  refine ⟨hloaded.imp fun _ _ hpair => hpair.1, ?_, ?_⟩
  · exact (map_eq_map_of_forall₂ (hloaded.imp fun _ _ hpair => hpair.1.shape_eq.symm)).symm
  · exact forall_mem_of_forall₂ (hloaded.imp fun _ _ hpair => hpair.2)

/-- A sub-network with the parameters under its keys, unless it may be left out and is. -/
def loadComponent (a : Archive) (component : String × Layers) :
    Except Error (String × Layers) :=
  if a.omits component.1 component.2 then .ok component
  else (a.loadLayers component.1 component.2).map fun layers => (component.1, layers)

/-- A sub-network is loaded exactly when it is skipped or covered. -/
theorem exists_loadComponent_iff {a : Archive} {component : String × Layers} {epsilon : Float32}
    (h : component.2.WellFormed epsilon) :
    (∃ component', a.loadComponent component = .ok component') ↔
      a.Skips component ∨ a.Covers component := by
  unfold loadComponent
  by_cases hskips : a.Skips component
  · rw [if_pos (omits_eq_true_iff.2 hskips)]
    exact ⟨fun _ => .inl hskips, fun _ => ⟨_, rfl⟩⟩
  · rw [if_neg (mt omits_eq_true_iff.1 hskips), or_iff_right hskips, ← exists_loadLayers_iff h]
    simp only [map_eq_ok]
    constructor
    · rintro ⟨_, layers, hlayers, -⟩
      exact ⟨layers, hlayers⟩
    · rintro ⟨layers, hlayers⟩
      exact ⟨_, layers, hlayers, rfl⟩

/-- A loaded sub-network is updated, and stays well formed and of the same shape. -/
theorem updates_of_loadComponent {a : Archive} {old new : String × Layers} {epsilon : Float32}
    (hold : old.2.WellFormed epsilon) (h : a.loadComponent old = .ok new) :
    a.Updates old new ∧ new.2.shape = old.2.shape ∧ new.2.WellFormed epsilon := by
  unfold loadComponent at h
  by_cases hskips : a.Skips old
  · rw [if_pos (omits_eq_true_iff.2 hskips)] at h
    cases h
    exact ⟨⟨rfl, fun _ => rfl, fun hnot => absurd hskips hnot⟩, rfl, hold⟩
  · rw [if_neg (mt omits_eq_true_iff.1 hskips)] at h
    obtain ⟨layers, hlayers, rfl⟩ := map_eq_ok.1 h
    obtain ⟨hfills, hshape, hwell⟩ := fills_of_loadLayers hold hlayers
    exact ⟨⟨rfl, fun hskip => absurd hskip hskips, fun _ => hfills⟩, hshape, hwell⟩

end Archive

/-! ## The whole load -/

/-- The state encoder of the value, with its parameters or left out. -/
def Archive.loadValueState (a : Archive) (e : StateEncoder) : Except Error StateEncoder :=
  if a.omits valueStateEncoder e.layers then .ok e else a.loadStateEncoder valueStateEncoder e

/-- The state encoder of the value is loaded layer by layer, or left as it is. -/
theorem Archive.loadComponent_valueState (a : Archive) (e : StateEncoder) :
    a.loadComponent (valueStateEncoder, e.layers) =
      (a.loadValueState e).map fun new => (valueStateEncoder, new.layers) := by
  rw [loadComponent, loadValueState]
  split
  · rfl
  · rw [← a.loadStateEncoder_layers]
    cases a.loadStateEncoder valueStateEncoder e <;> rfl

/-- A sub-network that has to be there is loaded layer by layer. -/
theorem Archive.loadComponent_of_mandatory {α : Type} {a : Archive} {name : String}
    {layers : α → Layers} {old : α} {loaded : Except Error α}
    (hname : optionalComponents.contains name = false)
    (h : loaded.map layers = a.loadLayers name (layers old)) :
    a.loadComponent (name, layers old) = loaded.map fun new => (name, layers new) := by
  have homits : a.omits name (layers old) = false := by rw [omits, hname, Bool.false_and]
  rw [loadComponent, homits, if_neg Bool.false_ne_true, ← h]
  cases loaded <;> rfl

namespace Network

/-- A load is a check of the header and five sub-networks, one after the other. -/
theorem stage_eq (net : Network) (a : Archive) :
    net.stage a = (do
      a.checkEpsilon net.config.epsilon
      let state ← a.loadStateEncoder stateEncoder net.state
      let valueState ← a.loadValueState net.valueState
      let action ← a.loadActionEncoder actionEncoder net.action
      let scorer ← a.loadActionScorer actionScorer net.scorer
      let head ← a.loadValueHead valueHead net.head
      return ⟨net.config, state, valueState, action, scorer, head⟩) := by
  unfold stage Archive.loadValueState
  by_cases homits : a.omits valueStateEncoder net.valueState.layers = true
  · simp only [if_pos homits]
    rfl
  · simp only [if_neg homits]

/-- A load is one pass over the sub-networks. -/
theorem stage_components (net : Network) (a : Archive) :
    (net.stage a).map components =
      (a.checkEpsilon net.config.epsilon >>= fun _ => net.components.mapM a.loadComponent) := by
  rw [components, stage_eq]
  simp only [List.mapM_cons, List.mapM_nil, a.loadComponent_valueState,
    Archive.loadComponent_of_mandatory (by decide) (a.loadStateEncoder_layers stateEncoder _),
    Archive.loadComponent_of_mandatory (by decide) (a.loadActionEncoder_layers actionEncoder _),
    Archive.loadComponent_of_mandatory (by decide) (a.loadActionScorer_layers actionScorer _),
    Archive.loadComponent_of_mandatory (by decide) (a.loadValueHead_layers valueHead _)]
  -- The first failure ends both sides, so the cases follow the order in which parts are loaded.
  cases a.checkEpsilon net.config.epsilon with
  | error error => rfl
  | ok =>
    cases a.loadStateEncoder stateEncoder net.state with
    | error error => rfl
    | ok state =>
      cases a.loadValueState net.valueState with
      | error error => rfl
      | ok valueState =>
        cases a.loadActionEncoder actionEncoder net.action with
        | error error => rfl
        | ok action =>
          cases a.loadActionScorer actionScorer net.scorer with
          | error error => rfl
          | ok scorer => cases a.loadValueHead valueHead net.head <;> rfl

/-- A load does not change the configuration. -/
theorem config_of_stage {net net' : Network} {a : Archive} (h : net.stage a = .ok net') :
    net'.config = net.config := by
  rw [stage_eq] at h
  obtain ⟨_, -, h⟩ := bind_eq_ok.1 h
  obtain ⟨_, -, h⟩ := bind_eq_ok.1 h
  obtain ⟨_, -, h⟩ := bind_eq_ok.1 h
  obtain ⟨_, -, h⟩ := bind_eq_ok.1 h
  obtain ⟨_, -, h⟩ := bind_eq_ok.1 h
  obtain ⟨_, -, h⟩ := bind_eq_ok.1 h
  rw [← pure_eq_ok.1 h]

/-- A network is staged exactly when the header and every sub-network are accepted. -/
theorem exists_stage_iff (net : Network) (a : Archive) :
    (∃ net', net.stage a = .ok net') ↔ a.checkEpsilon net.config.epsilon = .ok () ∧
      ∀ component ∈ net.components, ∃ component', a.loadComponent component = .ok component' := by
  have hmap : (∃ net', net.stage a = .ok net') ↔
      ∃ components', (net.stage a).map components = .ok components' := by
    cases net.stage a <;> simp [Except.map]
  rw [hmap, stage_components, ← exists_mapM_eq_ok_iff]
  cases a.checkEpsilon net.config.epsilon with
  | error error => simp [error_bind]
  | ok => simp [ok_bind]

/-- The sub-networks of a staged network are the loaded ones. -/
theorem mapM_loadComponent_of_stage {net net' : Network} {a : Archive}
    (h : net.stage a = .ok net') : net.components.mapM a.loadComponent = .ok net'.components := by
  have hpass := stage_components net a
  rw [h, eq_comm] at hpass
  obtain ⟨_, -, hloaded⟩ := bind_eq_ok.1 hpass
  exact hloaded

/-- A staged network's sub-networks are updated, and it is well formed again. -/
theorem WellFormed.stage {net net' : Network} {a : Archive} (hnet : net.WellFormed)
    (h : net.stage a = .ok net') :
    List.Forall₂ a.Updates net.components net'.components ∧ net'.WellFormed := by
  have hloaded : List.Forall₂ (fun old new => a.Updates old new ∧ new.2.shape = old.2.shape ∧
      new.2.WellFormed net.config.epsilon) net.components net'.components :=
    forall₂_of_mapM_eq_ok (fun _ _ => Archive.updates_of_loadComponent) hnet.layers
      (mapM_loadComponent_of_stage h)
  refine ⟨hloaded.imp fun _ _ hpair => hpair.1, ?_, ?_⟩
  · rw [config_of_stage h, ← hnet.shape_eq]
    exact (map_eq_map_of_forall₂ (hloaded.imp fun _ _ hpair => hpair.2.1.symm)).symm
  · rw [config_of_stage h]
    exact forall_mem_of_forall₂ (hloaded.imp fun _ _ hpair => hpair.2.2)

/-- A load leaves a well-formed network well formed, whether it succeeds or not. -/
theorem WellFormed.load {net : Network} (h : net.WellFormed) (a : Archive) :
    (net.load a).1.WellFormed := by
  unfold Network.load
  cases hstage : net.stage a with
  | ok staged => exact (h.stage hstage).2
  | error error => exact h

/-! ## Reachable networks -/

/-- A network that was drawn and has then been through any number of loads. -/
inductive Reachable : Network → Prop
  | draw {c : Config} {seed : UInt64} {net : Network} (drawn : Network.draw c seed = .ok net) :
      Reachable net
  | load {net : Network} (before : Reachable net) (a : Archive) : Reachable (net.load a).1

/-- Drawing and loading keep networks well formed. -/
theorem Reachable.wellFormed {net : Network} (h : net.Reachable) : net.WellFormed := by
  induction h with
  | draw drawn => exact (draw_wellFormed drawn).1
  | load _ a ih => exact ih.load a

end Network

/-! ## What a load does -/

/-- Numbers with the same bits are the same. -/
theorem Scalar.eq_of_toBits_eq {x y : Float32} (h : x.toBits = y.toBits) : x = y := by
  obtain ⟨⟨bits, hbits⟩⟩ := x
  obtain ⟨⟨bits', hbits'⟩⟩ := y
  cases (h : bits = bits')
  rfl

/-- The header is accepted exactly when it is valid and its epsilon has the bits of the network's. -/
theorem Archive.checkEpsilon_eq_ok {a : Archive} {epsilon : Float32} :
    a.checkEpsilon epsilon = .ok () ↔
      a.validate = .ok () ∧ a.header.epsilon.toBits = epsilon.toBits := by
  unfold checkEpsilon
  rw [bind_eq_ok]
  by_cases heq : a.header.epsilon = epsilon
  · rw [if_neg (not_not.2 heq)]
    constructor
    · rintro ⟨⟨⟩, hvalid, -⟩
      exact ⟨hvalid, congrArg Float32.toBits heq⟩
    · rintro ⟨hvalid, -⟩
      exact ⟨(), hvalid, rfl⟩
  · rw [if_pos heq]
    constructor
    · rintro ⟨_, -, h⟩
      cases h
    · rintro ⟨-, hbits⟩
      exact absurd (Scalar.eq_of_toBits_eq hbits) heq

namespace Network

/-- A load succeeds exactly when its staging does. -/
theorem load_eq_ok {net : Network} {a : Archive} {report : LoadReport} :
    (net.load a).2 = .ok report ↔
      report = net.loadReport a ∧ net.stage a = .ok (net.load a).1 := by
  unfold Network.load
  cases net.stage a with
  | ok staged => simp [eq_comm]
  | error error => simp

/-- The keys that a report lists are those of the sub-networks that are not skipped. -/
theorem loaded_loadReport (net : Network) (a : Archive) :
    (net.loadReport a).loaded =
      (net.components.filter fun component => ¬ a.Skips component).flatMap
        fun component => component.2.keys component.1 := by
  show (net.components.flatMap fun component =>
    if a.omits component.1 component.2 then [] else component.2.keys component.1) = _
  induction net.components with
  | nil => rfl
  | cons component components ih =>
    rw [List.flatMap_cons, ih, List.filter_cons]
    by_cases hskips : a.Skips component
    · rw [if_pos (Archive.omits_eq_true_iff.2 hskips), if_neg (by simpa using hskips)]
      rfl
    · rw [if_neg (mt Archive.omits_eq_true_iff.1 hskips), if_pos (by simpa using hskips),
        List.flatMap_cons]

/-- The only sub-network a report can list as left out is the state encoder of the value. -/
theorem fallbacks_loadReport (net : Network) (a : Archive) :
    (net.loadReport a).fallbacks =
      if a.Skips (valueStateEncoder, net.valueState.layers) then [valueStateEncoder] else [] := by
  have hstate : a.omits stateEncoder net.state.layers = false := rfl
  have haction : a.omits actionEncoder net.action.layers = false := rfl
  have hscorer : a.omits actionScorer net.scorer.layers = false := rfl
  have hhead : a.omits valueHead net.head.layers = false := rfl
  -- Only one of the five names is optional.
  simp only [loadReport, components, List.filter_cons, List.filter_nil, hstate, haction, hscorer,
    hhead, ← Archive.omits_eq_true_iff]
  cases a.omits valueStateEncoder net.valueState.layers <;> rfl

/-- **Loading is exact and all or nothing.**  A load succeeds exactly when the header is valid, its
epsilon has the bits of the network's, and every sub-network is covered, or skipped where that is
allowed.  Then the report says which were, their layers hold the records, and nothing else has
changed; otherwise nothing at all has. -/
theorem load_exact {net : Network} (h : net.Reachable) (a : Archive) :
    ((∃ report, (net.load a).2 = .ok report) ↔
      a.validate = .ok () ∧ a.header.epsilon.toBits = net.config.epsilon.toBits ∧
        ∀ component ∈ net.components, a.Skips component ∨ a.Covers component) ∧
    (∀ report, (net.load a).2 = .ok report →
      report.loaded = (net.components.filter fun component => ¬ a.Skips component).flatMap
        (fun component => component.2.keys component.1) ∧
      report.fallbacks =
        (if a.Skips (valueStateEncoder, net.valueState.layers) then [valueStateEncoder] else []) ∧
      (net.load a).1.config = net.config ∧
      List.Forall₂ a.Updates net.components (net.load a).1.components) ∧
    ∀ error, (net.load a).2 = .error error → (net.load a).1 = net := by
  have hnet : net.WellFormed := h.wellFormed
  refine ⟨?_, ?_, ?_⟩
  · have hcomponents : (∀ component ∈ net.components,
        ∃ component', a.loadComponent component = .ok component') ↔
        ∀ component ∈ net.components, a.Skips component ∨ a.Covers component :=
      forall₂_congr fun component hmem =>
        Archive.exists_loadComponent_iff (hnet.layers component hmem)
    rw [← and_assoc, ← Archive.checkEpsilon_eq_ok, ← hcomponents, ← exists_stage_iff]
    unfold load
    cases net.stage a <;> simp
  · intro report hreport
    obtain ⟨rfl, hstage⟩ := load_eq_ok.1 hreport
    exact ⟨net.loaded_loadReport a, net.fallbacks_loadReport a, config_of_stage hstage,
      (hnet.stage hstage).1⟩
  · intro error herror
    unfold load at herror ⊢
    cases hstage : net.stage a with
    | ok staged =>
      rw [hstage] at herror
      cases herror
    | error error => rfl

/-- A fresh network of widths one loads its own export, without leaving anything out. -/
theorem load_exact_single : ∃ net, Network.draw Config.single 7 = .ok net ∧
    ∃ report, (net.load net.toArchive).2 = .ok report ∧ report.fallbacks = [] := by
  obtain ⟨net, hnet, hwell, -, hadmissible⟩ := exists_draw_single 7
  have hskips : ¬ net.toArchive.Skips (valueStateEncoder, net.valueState.layers) := by
    rintro ⟨-, habsent⟩
    have hfc1 := habsent _ (.head _)
    rw [record?_toArchive net.valueState_mem (.head _)] at hfc1
    cases hfc1
  obtain ⟨hiff, hok, -⟩ := load_exact (.draw hnet) net.toArchive
  obtain ⟨report, hreport⟩ := hiff.2 ⟨validate_toArchive hadmissible, rfl,
    fun component hcomponent => .inr fun entry => fits_toArchive hwell hcomponent⟩
  obtain ⟨-, hfallbacks, -⟩ := hok report hreport
  exact ⟨net, hnet, report, hreport, by rw [hfallbacks, if_neg hskips]⟩

end Network

end PolicyValue
