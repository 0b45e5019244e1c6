import PolicyValue.Proofs.Loading

/-!
# Importing an export

`Network.ofArchive` draws a network of given widths and then loads an archive into it.  With the
widths of the network that was exported, every layer finds the record of the layer in its own place,
and so the import is that network again, whatever was drawn.

* `Layer.withRecord_record`: a layer with the record of another one of its shape is this other one;
* `Archive.Holds.loadComponent_eq_ok`: what a sub-network becomes that is not skipped;
* `Network.stage_toArchive`: a network loads the export of another one of its configuration;
* `Network.ofArchive_toArchive`: an import undoes the export.
-/

namespace PolicyValue

/-! ## Layers -/

/-- A layer that takes over the record of another one of its shape and epsilon becomes this one. -/
theorem Layer.withRecord_record {epsilon : Float32} {old new : Layer}
    (hold : old.WellFormed epsilon) (hnew : new.WellFormed epsilon)
    (hshape : old.shape = new.shape) : old.withRecord new.record = new := by
  cases old with
  | linear l =>
    cases new with
    | linear m =>
      have hm : m.WellShaped := hnew
      obtain ⟨hinputs, houtputs⟩ := LayerShape.affine.inj hshape
      -- The kernel is the transposed weight, and is transposed back when it is taken over.
      have hweight : transpose l.outputs m.kernel = m.weight := by
        rw [houtputs, ← hm.length_weight]
        exact transpose_transpose m.inputs m.weight hm.length_row
      show Layer.linear ⟨l.inputs, l.outputs, transpose l.outputs m.kernel, m.bias⟩ = .linear m
      rw [hweight, hinputs, houtputs]
    | norm n => cases hshape
  | norm n =>
    cases new with
    | linear m => cases hshape
    | norm m =>
      have hepsilon : n.epsilon = m.epsilon := hold.2.trans hnew.2.symm
      show Layer.norm ⟨m.gamma, m.beta, n.epsilon⟩ = .norm m
      rw [hepsilon]

/-- The names and the shapes of the layers of a sub-network. -/
def Layers.outline (layers : Layers) : List (String × LayerShape) :=
  layers.map fun (name, layer) => (name, layer.shape)

/-- The keys of the parameters of a sub-network depend on its outline only. -/
theorem Layers.keys_eq (component : String) (layers : Layers) :
    layers.keys component = layers.outline.map fun (name, _) => parameterKey component name := by
  rw [keys, outline, List.map_map]
  rfl

/-! ## Sub-networks -/

namespace Archive

/-- An archive holds a sub-network: the record of every layer is there under its key. -/
def Holds (a : Archive) (component : String × Layers) : Prop :=
  ∀ entry ∈ component.2, a.record? (parameterKey component.1 entry.1) = some entry.2.record

/-- A sub-network with a layer is not skipped by an archive that holds it. -/
theorem Holds.not_skips {a : Archive} {component : String × Layers} (h : a.Holds component)
    {entry : String × Layer} (hentry : entry ∈ component.2) : ¬ a.Skips component := by
  rintro ⟨-, habsent⟩
  have hnone := habsent entry hentry
  rw [h entry hentry] at hnone
  cases hnone

/-- A layer loads the record of one with its name and shape, and becomes this layer. -/
theorem Holds.loadLayer_eq_ok {a : Archive} {component : String × Layers} {epsilon : Float32}
    (h : a.Holds component) {old new : String × Layer} (hold : old.2.WellFormed epsilon)
    (hnew : new.2.WellFormed epsilon) (hmem : new ∈ component.2) (hname : old.1 = new.1)
    (hshape : old.2.shape = new.2.shape) : a.loadLayer component.1 old = .ok new := by
  refine (Archive.loadLayer_eq_ok hold).2 ⟨new.2.record, ?_, ?_, ?_⟩
  · rw [hname, h new hmem]
  · rw [hshape]
    exact hnew.fits
  · rw [Layer.withRecord_record hold hnew hshape, hname]

/-- Whether a sub-network is skipped depends on its name and its outline only. -/
theorem skips_iff_of_outline {a : Archive} {old new : String × Layers} (hname : old.1 = new.1)
    (houtline : old.2.outline = new.2.outline) : a.Skips old ↔ a.Skips new := by
  rw [← omits_eq_true_iff, ← omits_eq_true_iff, omits, omits, Layers.keys_eq, Layers.keys_eq, hname,
    houtline]

/-- A sub-network loads the one of its outline that the archive holds, and becomes this
sub-network. -/
theorem Holds.loadComponent_eq_ok {a : Archive} {old new : String × Layers} {epsilon : Float32}
    (h : a.Holds new) (hold : old.2.WellFormed epsilon) (hnew : new.2.WellFormed epsilon)
    (hskips : ¬ a.Skips new) (hname : old.1 = new.1) (houtline : old.2.outline = new.2.outline) :
    a.loadComponent old = .ok new := by
  have hpairs : List.Forall₂ (fun entry entry' : String × Layer =>
      (entry.1, entry.2.shape) = (entry'.1, entry'.2.shape)) old.2 new.2 :=
    forall₂_of_map_eq_map houtline
  have hlayers : a.loadLayers new.1 old.2 = .ok new.2 := by
    refine mapM_eq_ok.2 (forall₂_imp_of_mem hpairs fun entry hentry entry' hentry' hpair => ?_)
    obtain ⟨hentryName, hshape⟩ := Prod.mk.inj hpair
    exact h.loadLayer_eq_ok (hold entry hentry) (hnew entry' hentry') hentry' hentryName hshape
  have homits : a.omits old.1 old.2 = false := by
    rw [Bool.eq_false_iff, Ne, omits_eq_true_iff, skips_iff_of_outline hname houtline]
    exact hskips
  rw [loadComponent, homits, if_neg Bool.false_ne_true, hname, hlayers]
  rfl

end Archive

namespace Network

/-! ## Networks of one configuration -/

/-- The names of the sub-networks and of their layers, in the order of the components. -/
def layerNames : List (String × List String) :=
  [(stateEncoder, ["fc1", "ln1", "fc2", "ln2"]), (valueStateEncoder, ["fc1", "ln1", "fc2", "ln2"]),
    (actionEncoder, ["fc1", "ln1", "fc2"]), (actionScorer, ["fc1", "ln1", "fc2"]),
    (valueHead, ["fc1", "fc2"])]

/-- All networks name their sub-networks and layers alike, so that only the shapes tell the outlines
of two networks apart. -/
theorem outline_components (net : Network) :
    net.components.map (fun (name, layers) => (name, layers.outline)) =
      List.zipWith (fun (name, names) shapes => (name, names.zip shapes)) layerNames net.shape :=
  rfl

/-- Well-formed networks with the same configuration have the same outline. -/
theorem WellFormed.outline_eq {net net' : Network} (h : net.WellFormed) (h' : net'.WellFormed)
    (hconfig : net.config = net'.config) :
    List.Forall₂ (fun component component' =>
      component.1 = component'.1 ∧ component.2.outline = component'.2.outline)
      net.components net'.components := by
  have hshape : net.shape = net'.shape := by rw [h.shape_eq, h'.shape_eq, hconfig]
  have houtlines : net.components.map (fun (name, layers) => (name, layers.outline)) =
      net'.components.map fun (name, layers) => (name, layers.outline) := by
    rw [outline_components, outline_components, hshape]
  exact (forall₂_of_map_eq_map houtlines).imp fun _ _ hpair => Prod.mk.inj hpair

/-- A network is determined by its configuration and its sub-networks. -/
theorem eq_of_components {net net' : Network} (hconfig : net.config = net'.config)
    (hcomponents : net.components = net'.components) : net = net' := by
  obtain ⟨c, ⟨sfc1, sln1, sfc2, sln2⟩, ⟨vfc1, vln1, vfc2, vln2⟩, ⟨afc1, aln1, afc2⟩,
    ⟨rfc1, rln1, rfc2⟩, ⟨hfc1, hfc2⟩⟩ := net
  cases net'
  cases hconfig
  cases hcomponents
  rfl

/-! ## Loading an export -/

/-- A network loads every archive that holds the sub-networks of a network of its configuration, or
skips them. -/
theorem WellFormed.exists_stage {net₀ net : Network} (h₀ : net₀.WellFormed) (h : net.WellFormed)
    (hconfig : net₀.config = net.config) {a : Archive}
    (hcheck : a.checkEpsilon net.config.epsilon = .ok ())
    (hparts : ∀ component ∈ net.components, a.Skips component ∨ a.Holds component) :
    ∃ net', net₀.stage a = .ok net' := by
  rw [exists_stage_iff, hconfig]
  refine ⟨hcheck, forall_mem_of_forall₂ (forall₂_imp_of_mem (h₀.outline_eq h hconfig).flip ?_)⟩
  rintro new hnew old hold ⟨hname, houtline⟩
  have hwell : old.2.WellFormed net.config.epsilon := by
    rw [← hconfig]
    exact h₀.layers old hold
  by_cases hskips : a.Skips new
  · have hold' : a.Skips old := (Archive.skips_iff_of_outline hname houtline).2 hskips
    exact (Archive.exists_loadComponent_iff hwell).2 (.inl hold')
  · have hholds : a.Holds new := (hparts new hnew).resolve_left hskips
    exact ⟨new, hholds.loadComponent_eq_ok hwell (h.layers new hnew) hskips hname houtline⟩

/-- An exported archive holds every sub-network. -/
theorem holds_toArchive {net : Network} {component : String × Layers}
    (h : component ∈ net.components) : net.toArchive.Holds component :=
  fun _ hentry => record?_toArchive h hentry

/-- Every sub-network has a layer. -/
theorem exists_mem_layers {net : Network} {component : String × Layers}
    (h : component ∈ net.components) : ∃ entry, entry ∈ component.2 := by
  simp only [components, List.mem_cons, List.not_mem_nil, or_false] at h
  rcases h with rfl | rfl | rfl | rfl | rfl <;> exact ⟨_, .head _⟩

/-- No sub-network is skipped by its own network's export. -/
theorem not_skips_toArchive {net : Network} {component : String × Layers}
    (h : component ∈ net.components) : ¬ net.toArchive.Skips component := by
  obtain ⟨entry, hentry⟩ := exists_mem_layers h
  exact (holds_toArchive h).not_skips hentry

/-- A network loads the export of another one of its configuration, and becomes this network. -/
theorem stage_toArchive {net₀ net : Network} (h₀ : net₀.WellFormed) (h : net.WellFormed)
    (hconfig : net₀.config = net.config) (hepsilon : Scalar.Admissible net.config.epsilon) :
    net₀.stage net.toArchive = .ok net := by
  have hcheck : net.toArchive.checkEpsilon net₀.config.epsilon = .ok () := by
    rw [Archive.checkEpsilon_eq_ok, hconfig]
    exact ⟨validate_toArchive hepsilon, rfl⟩
  have hloaded : net₀.components.mapM net.toArchive.loadComponent = .ok net.components := by
    refine mapM_eq_ok.2 (forall₂_imp_of_mem (h₀.outline_eq h hconfig) ?_)
    rintro old hold new hnew ⟨hname, houtline⟩
    have hwell : old.2.WellFormed net.config.epsilon := by
      rw [← hconfig]
      exact h₀.layers old hold
    exact (holds_toArchive hnew).loadComponent_eq_ok hwell (h.layers new hnew)
      (not_skips_toArchive hnew) hname houtline
  -- Staging is this one pass over the sub-networks, put together to a network again.
  have hpass := stage_components net₀ net.toArchive
  rw [hcheck, ok_bind, hloaded] at hpass
  obtain ⟨net', hstage, hcomponents⟩ := map_eq_ok.1 hpass
  rw [hstage, eq_of_components ((config_of_stage hstage).trans hconfig) hcomponents]

/-! ## The report of an import -/

/-- What a load reports depends on the keys of the archive, not on the network. -/
theorem loadReport_congr (net₀ net : Network) (a : Archive) :
    net₀.loadReport a = net.loadReport a := by
  have hloaded : (net₀.loadReport a).loaded = (net.loadReport a).loaded := rfl
  have homits : a.omits valueStateEncoder net₀.valueState.layers =
      a.omits valueStateEncoder net.valueState.layers := rfl
  have hfallbacks : (net₀.loadReport a).fallbacks = (net.loadReport a).fallbacks := by
    rw [fallbacks_loadReport, fallbacks_loadReport]
    simp only [← Archive.omits_eq_true_iff, homits]
  exact (LoadReport.mk.injEq ..).mpr ⟨hloaded, hfallbacks⟩

/-- Loading an export leaves no sub-network as it was. -/
theorem fallbacks_loadReport_toArchive (net : Network) :
    (net.loadReport net.toArchive).fallbacks = [] := by
  rw [fallbacks_loadReport, if_neg (not_skips_toArchive net.valueState_mem)]

/-- Loading an export copies the records of all layers. -/
theorem loaded_loadReport_toArchive (net : Network) :
    (net.loadReport net.toArchive).loaded.Perm net.toArchive.parameters.keys := by
  have hall : (net.components.filter fun component => ¬ net.toArchive.Skips component) =
      net.components := by
    refine List.filter_eq_self.2 fun component hcomponent => ?_
    exact decide_eq_true (not_skips_toArchive hcomponent)
  have hkeys : (net.components.flatMap fun component => component.2.keys component.1) =
      (net.components.flatMap fun (name, layers) => layers.records name).map Prod.fst := rfl
  rw [loaded_loadReport, hall, hkeys]
  exact ((Dict.perm_ofList _ net.nodup_keys).map Prod.fst).symm

/-! ## Importing -/

/-- Two configurations have the same six widths; their epsilons may differ. -/
structure Config.SameWidths (c d : Config) : Prop where
  /-- The hidden width of the state encoders. -/
  stateHidden : c.stateHidden = d.stateHidden
  /-- The width of a state's embedding. -/
  stateEmbed : c.stateEmbed = d.stateEmbed
  /-- The hidden width of the action encoder. -/
  actionHidden : c.actionHidden = d.actionHidden
  /-- The width of an action's embedding. -/
  actionEmbed : c.actionEmbed = d.actionEmbed
  /-- The hidden width of the scorer. -/
  scorerHidden : c.scorerHidden = d.scorerHidden
  /-- The hidden width of the value head. -/
  valueHidden : c.valueHidden = d.valueHidden

/-- Configurations of the same widths are the same with one epsilon. -/
theorem Config.SameWidths.withEpsilon_congr {c c' : Config} (h : c.SameWidths c')
    (epsilon : Float32) : { c with epsilon := epsilon } = { c' with epsilon := epsilon } := by
  obtain ⟨hsh, hse, hah, hae, hrh, hvh⟩ := h
  rw [hsh, hse, hah, hae, hrh, hvh]

/-- The epsilon is all that two configurations of the same widths can differ in. -/
theorem Config.SameWidths.withEpsilon_eq {c d : Config} (h : c.SameWidths d) :
    { c with epsilon := d.epsilon } = d := h.withEpsilon_congr d.epsilon

/-- Importing draws a network with the archive's epsilon and loads the archive into it. -/
theorem ofArchive_eq_ok {a : Archive} {c : Config} {seed : UInt64} {net : Network}
    {report : LoadReport} :
    ofArchive a c seed = .ok (net, report) ↔
      ∃ net₀, draw { c with epsilon := a.header.epsilon } seed = .ok net₀ ∧
        net₀.stage a = .ok net ∧ net₀.loadReport a = report := by
  unfold ofArchive
  rw [bind_eq_ok]
  refine exists_congr fun net₀ => and_congr_right fun _ => ?_
  unfold load
  cases net₀.stage a <;> simp

/-- **An import undoes the export.**  A network that was drawn and then loaded any number of times,
with an admissible epsilon, is imported from its own export into any configuration of the same
widths and from any seed: the import is this network, nothing is left as it was drawn, and the
report lists the keys of all parameters. -/
theorem ofArchive_toArchive {net : Network} (h : net.Reachable)
    (hepsilon : Scalar.Admissible net.config.epsilon) {c : Config}
    (hc : c.SameWidths net.config) (seed : UInt64) :
    ∃ report, ofArchive net.toArchive c seed = .ok (net, report) ∧ report.fallbacks = [] ∧
      report.loaded.Perm net.toArchive.parameters.keys := by
  have hnet : net.WellFormed := h.wellFormed
  obtain ⟨net₀, hdraw⟩ := exists_draw hnet.widths_pos seed
  obtain ⟨hnet₀, hconfig⟩ := draw_wellFormed hdraw
  refine ⟨net.loadReport net.toArchive, ?_, net.fallbacks_loadReport_toArchive,
    net.loaded_loadReport_toArchive⟩
  refine ofArchive_eq_ok.2 ⟨net₀, ?_, stage_toArchive hnet₀ hnet hconfig hepsilon,
    loadReport_congr net₀ net net.toArchive⟩
  rw [show net.toArchive.header.epsilon = net.config.epsilon from rfl, hc.withEpsilon_eq]
  exact hdraw

/-- The configuration in which all widths are one but that of an action's embedding, which is
zero. -/
def Config.withoutAction : Config := { Config.single with actionEmbed := 0 }

/-- An empty embedding of actions leaves the widths positive that have to be. -/
theorem Config.positive_withoutAction : Config.withoutAction.Positive :=
  ⟨by decide, by decide, by decide, by decide, by decide⟩

/-- A network without an embedding of actions is imported from its export, from another seed and
with another epsilon. -/
theorem ofArchive_toArchive_withoutAction : ∃ net report,
    draw Config.withoutAction 7 = .ok net ∧
    ofArchive net.toArchive { Config.withoutAction with epsilon := Scalar.one } 8 =
      .ok (net, report) ∧ report.fallbacks = [] ∧
    report.loaded.Perm net.toArchive.parameters.keys := by
  obtain ⟨net, hnet⟩ := exists_draw Config.positive_withoutAction 7
  have hconfig : net.config = Config.withoutAction := (draw_wellFormed hnet).2
  have hepsilon : Scalar.Admissible net.config.epsilon := by
    rw [hconfig]
    exact Config.admissible_single
  have hc : { Config.withoutAction with epsilon := Scalar.one }.SameWidths net.config := by
    rw [hconfig]
    exact ⟨rfl, rfl, rfl, rfl, rfl, rfl⟩
  obtain ⟨report, himport, hfallbacks, hloaded⟩ := ofArchive_toArchive (.draw hnet) hepsilon hc 8
  exact ⟨net, report, hnet, himport, hfallbacks, hloaded⟩

end Network

end PolicyValue
