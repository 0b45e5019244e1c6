import PolicyValue.Proofs.Forward
import PolicyValue.Proofs.Refinement
import PolicyValue.Proofs.Reimport

/-!
# The importer and the executor agree

An archive can be read in two ways: imported into a network, or loaded into an executor.  The
importer goes over the fixed layers of a network and asks for exact widths, the executor replays the
graph and finds the widths in the tensors.  On an archive with the graph of a network, whatever else
it holds, the second accepts what the first does, and both compute the same.

* `Network.ImportedFrom`: what an import has established, sub-network by sub-network;
* `Executor.Follows.scores_eq`: an executor that carries all but the value's state encoder scores as
  the network does;
* `Network.ofArchive_agrees`: the executor of an imported archive.
-/

namespace PolicyValue

/-! ## What an import establishes -/

namespace Archive

/-- What a load makes of a sub-network is still skipped, or held by the archive. -/
theorem Updates.skips_or_holds {a : Archive} {old new : String × Layers} (h : a.Updates old new) :
    a.Skips new ∨ a.Holds new := by
  by_cases hskips : a.Skips old
  · have hsame : new = old := Prod.ext h.name_eq (h.kept hskips)
    exact .inl (hsame ▸ hskips)
  · refine .inr (forall_mem_of_forall₂ ((h.filled hskips).imp fun entry entry' hfills => ?_))
    rw [h.name_eq, hfills.name_eq]
    exact hfills.found

end Archive

namespace Network

/-- What importing an archive has established of the network and of the report. -/
structure ImportedFrom (a : Archive) (c : Config) (net : Network) (report : LoadReport) : Prop where
  /-- The header is valid. -/
  valid : a.validate = .ok ()
  /-- The configuration is the one asked for, with the epsilon of the archive. -/
  config_eq : net.config = { c with epsilon := a.header.epsilon }
  /-- The network is well formed. -/
  wellFormed : net.WellFormed
  /-- Every sub-network is skipped or held by the archive. -/
  skips_or_holds : ∀ component ∈ net.components, a.Skips component ∨ a.Holds component
  /-- The report is that of a load into the network. -/
  report_eq : report = net.loadReport a

/-- An import has passed all checks of the loader. -/
theorem importedFrom {a : Archive} {c : Config} {seed : UInt64} {net : Network}
    {report : LoadReport} (h : ofArchive a c seed = .ok (net, report)) :
    ImportedFrom a c net report := by
  obtain ⟨net₀, hdraw, hstage, rfl⟩ := ofArchive_eq_ok.1 h
  obtain ⟨hnet₀, hconfig⟩ := draw_wellFormed hdraw
  obtain ⟨hupdates, hnet⟩ := hnet₀.stage hstage
  have hcheck : a.checkEpsilon net₀.config.epsilon = .ok () :=
    ((exists_stage_iff net₀ a).1 ⟨net, hstage⟩).1
  exact ⟨(Archive.checkEpsilon_eq_ok.1 hcheck).1, (config_of_stage hstage).trans hconfig, hnet,
    forall_mem_of_forall₂ (hupdates.imp fun _ _ hpair => hpair.skips_or_holds),
    loadReport_congr net₀ net a⟩

namespace ImportedFrom

variable {a : Archive} {c : Config} {net : Network} {report : LoadReport}

/-- The archive holds every sub-network that is not skipped. -/
theorem holds (h : ImportedFrom a c net report) {component : String × Layers}
    (hmem : component ∈ net.components) (hskips : ¬ a.Skips component) : a.Holds component :=
  (h.skips_or_holds component hmem).resolve_left hskips

/-- The archive holds the four sub-networks that cannot be left out. -/
theorem holds_of_ne (h : ImportedFrom a c net report) {name : String} {layers : Layers}
    (hmem : (name, layers) ∈ net.components) (hname : name ≠ valueStateEncoder) :
    a.Holds (name, layers) :=
  h.holds hmem fun hskips => hname hskips.1

/-- The report tells whether the state encoder of the value was left as it was drawn. -/
theorem usedFallback_eq_true_iff (h : ImportedFrom a c net report) :
    report.usedFallback = true ↔ a.Skips (valueStateEncoder, net.valueState.layers) := by
  rw [h.report_eq, LoadReport.usedFallback, fallbacks_loadReport]
  by_cases hskips : a.Skips (valueStateEncoder, net.valueState.layers)
  · simp [hskips]
  · simp [hskips]

end ImportedFrom

/-! ## Archives with the graph of a network -/

/-- All networks have the same graph. -/
theorem graph_congr (net net' : Network) : net.graph = net'.graph := rfl

/-- An archive with the graph of a network has its operations. -/
theorem get?_graph_of_eq {a : Archive} {net : Network} (hgraph : a.header.graph = net.graph)
    {component : String × Layers} (hmem : component ∈ net.components) :
    a.header.graph.get? component.1 = some (operationsOf component.1 component.2) := by
  rw [hgraph]
  exact get?_graph_toArchive hmem

/-- An archive with the graph of a network brings a value state encoder exactly when a load does not
skip it. -/
theorem bringsValueEncoder_iff {a : Archive} {net : Network} (hgraph : a.header.graph = net.graph) :
    a.BringsValueEncoder ↔ ¬ a.Skips (valueStateEncoder, net.valueState.layers) := by
  have hops := get?_graph_of_eq hgraph net.valueState_mem
  have hkeys : ∀ key, (∃ op ∈ operationsOf valueStateEncoder net.valueState.layers,
      op.key? = some key) ↔ ∃ entry ∈ net.valueState.layers,
        parameterKey valueStateEncoder entry.1 = key := by
    intro key
    rw [← List.mem_filterMap, Layers.filterMap_key?_operationsOf, Layers.keys, List.mem_map]
  -- Both sides ask for the same keys, once by the operations and once by the layers.
  constructor
  · rintro ⟨ops, hfound, op, hop, key, hkey, record, hrecord⟩ ⟨-, habsent⟩
    obtain rfl : operationsOf valueStateEncoder net.valueState.layers = ops :=
      Option.some.inj (hops.symm.trans hfound)
    obtain ⟨entry, hentry, rfl⟩ := (hkeys key).1 ⟨op, hop, hkey⟩
    rw [habsent entry hentry] at hrecord
    cases hrecord
  · intro hskips
    by_contra hbrings
    refine hskips ⟨rfl, fun entry hentry => Option.eq_none_iff_forall_ne_some.2 ?_⟩
    intro record hrecord
    obtain ⟨op, hop, hkey⟩ := (hkeys _).2 ⟨entry, hentry, rfl⟩
    exact hbrings ⟨_, hops, op, hop, _, hkey, record, hrecord⟩

/-- An archive with the graph of a network has all required sub-networks. -/
theorem complete_of_graph {a : Archive} {net : Network} (hgraph : a.header.graph = net.graph) :
    ∀ name ∈ requiredComponents, ∃ ops, a.header.graph.get? name = some ops := by
  rw [hgraph]
  exact net.complete_toArchive

/-- A sub-network that an archive holds types as its layers fit together. -/
theorem WellFormed.types_of_holds {a : Archive} {net : Network} (h : net.WellFormed)
    (hgraph : a.header.graph = net.graph) {component : String × Layers}
    (hmem : component ∈ net.components) (hholds : a.Holds component) {w w' : Nat}
    (hchain : LayerShape.Chain component.2.shape w w') :
    a.Types (a.operations component.1) w w' := by
  rw [Archive.operations, get?_graph_of_eq hgraph hmem, Option.getD_some]
  exact Archive.types_operationsOf hholds (h.layers component hmem) hchain

/-- An imported archive with the graph of a network passes all checks of the executor. -/
theorem ImportedFrom.wellTyped {a : Archive} {c : Config} {net : Network} {report : LoadReport}
    (h : ImportedFrom a c net report) (hgraph : a.header.graph = net.graph)
    (hchains : net.Chains) :
    a.WellTyped net.config.stateEmbed.toNat net.config.actionEmbed.toNat
      net.config.stateEmbed.toNat := by
  have hrequired : ∀ {name layers w w'}, (name, layers) ∈ net.components →
      name ≠ valueStateEncoder → LayerShape.Chain (Layers.shape layers) w w' →
      a.Types (a.operations name) w w' := fun hmem hname hchain =>
    h.wellFormed.types_of_holds hgraph hmem (h.holds_of_ne hmem hname) hchain
  have hstate := hrequired net.state_mem (by decide) hchains.state
  refine ⟨h.valid, complete_of_graph hgraph, hstate, ?_, ?_, fun _ => hstate, ?_, ?_⟩
  · exact hrequired net.action_mem (by decide) hchains.action
  · intro hbrings
    have hholds := h.holds net.valueState_mem ((bringsValueEncoder_iff hgraph).1 hbrings)
    exact h.wellFormed.types_of_holds hgraph net.valueState_mem hholds hchains.valueState
  · exact hrequired net.scorer_mem (by decide) hchains.scorer
  · exact hrequired net.head_mem (by decide) hchains.head

end Network

/-! ## The executor of an imported archive -/

namespace Executor

/-- An executor carries the sub-networks it runs that its archive holds. -/
theorem LoadedFrom.carries {a : Archive} {e : Executor} {v : Nat} (h : LoadedFrom a e v)
    {component : String × Layers}
    (hused : component.1 ∈
      [stateEncoder, a.valuePath.component, actionEncoder, actionScorer, valueHead])
    (hgraph : a.header.graph.get? component.1 = some (operationsOf component.1 component.2))
    (hholds : a.Holds component) : e.Carries component := by
  refine ⟨by rw [h.graph_eq, hgraph], ?_⟩
  intro entry hentry
  have hkey : parameterKey component.1 entry.1 ∈
      (operationsOf component.1 component.2).filterMap Operation.key? := by
    rw [Layers.filterMap_key?_operationsOf]
    exact List.mem_map.2 ⟨entry, hentry, rfl⟩
  obtain ⟨op, hop, hopKey⟩ := List.mem_filterMap.1 hkey
  have hmem : op ∈ a.operations component.1 := by
    rwa [Archive.operations, hgraph]
  have hloaded : parameterKey component.1 entry.1 ∈
      a.usedOperations.filterMap Operation.key? :=
    List.mem_filterMap.2 ⟨op, Archive.mem_usedOperations hused hmem, hopKey⟩
  rw [h.get?_parameters, if_pos hloaded, hholds entry hentry, Option.map_some]

section

variable {a : Archive} {e : Executor} {v : Nat} {c : Network.Config} {net : Network}
  {report : LoadReport}

/-- The executor of an imported archive with the graph of a network carries every sub-network that
cannot be left out. -/
theorem LoadedFrom.carries_of_ne (h : LoadedFrom a e v)
    (himport : Network.ImportedFrom a c net report) (hgraph : a.header.graph = net.graph)
    {name : String} {layers : Layers} (hmem : (name, layers) ∈ net.components)
    (hname : name ≠ valueStateEncoder) : e.Carries (name, layers) := by
  refine h.carries ?_ (Network.get?_graph_of_eq hgraph hmem) (himport.holds_of_ne hmem hname)
  simp only [Network.components, List.mem_cons, Prod.mk.injEq, List.not_mem_nil, or_false] at hmem
  rcases hmem with ⟨rfl, -⟩ | ⟨rfl, -⟩ | ⟨rfl, -⟩ | ⟨rfl, -⟩ | ⟨rfl, -⟩
  · exact .head _
  · exact absurd rfl hname
  · exact .tail _ (.tail _ (.head _))
  · exact .tail _ (.tail _ (.tail _ (.head _)))
  · exact .tail _ (.tail _ (.tail _ (.tail _ (.head _))))

/-- So it follows the import. -/
theorem LoadedFrom.follows (h : LoadedFrom a e v) (himport : Network.ImportedFrom a c net report)
    (hgraph : a.header.graph = net.graph) : e.Follows net where
  state := h.carries_of_ne himport hgraph net.state_mem (by decide)
  action := h.carries_of_ne himport hgraph net.action_mem (by decide)
  scorer := h.carries_of_ne himport hgraph net.scorer_mem (by decide)
  head := h.carries_of_ne himport hgraph net.head_mem (by decide)
  epsilon_eq := by rw [h.epsilon_eq, himport.config_eq]

/-- If nothing was left as it was drawn, the executor mirrors the import. -/
theorem LoadedFrom.mirrors_of_imported (h : LoadedFrom a e v)
    (himport : Network.ImportedFrom a c net report) (hgraph : a.header.graph = net.graph)
    (hskips : ¬ a.Skips (valueStateEncoder, net.valueState.layers)) : e.Mirrors net := by
  have hpath : a.valuePath = .separate :=
    Archive.valuePath_eq_separate_iff.2 ((Network.bringsValueEncoder_iff hgraph).2 hskips)
  have hfollows : e.Follows net := h.follows himport hgraph
  have hvalue : e.Carries (valueStateEncoder, net.valueState.layers) := by
    refine h.carries ?_ (Network.get?_graph_of_eq hgraph net.valueState_mem)
      (himport.holds net.valueState_mem hskips)
    rw [hpath]
    exact .tail _ (.head _)
  have hcarries : ∀ component ∈ net.components, e.Carries component := by
    intro component hmem
    simp only [Network.components, List.mem_cons, List.not_mem_nil, or_false] at hmem
    rcases hmem with rfl | rfl | rfl | rfl | rfl
    · exact hfollows.state
    · exact hvalue
    · exact hfollows.action
    · exact hfollows.scorer
    · exact hfollows.head
  exact ⟨fun _ hmem => (hcarries _ hmem).get?_graph,
    fun _ hmem => (hcarries _ hmem).get?_parameters, hfollows.epsilon_eq,
    h.valuePath_eq.trans hpath⟩

variable [Arithmetic]

/-- An executor that follows a network has its scores, whatever embedding its value reads. -/
theorem Follows.scores_eq (h : e.Follows net) (hnet : net.WellFormed) (hchains : net.Chains)
    {state : StateVector} {batch : ActionBatch} {replayed imported : ScoredBatch}
    (hreplayed : e.Scores state batch replayed) (himported : net.score state batch = .ok imported) :
    replayed.scores = imported.scores := by
  obtain ⟨scores, value, hscores, -, rfl⟩ := Network.score_eq_ok.1 himported
  obtain ⟨hrun, hembedding⟩ := h.run_state hnet hchains state
  cases hreplayed with
  | @intro embedding valueEmbedding scores' value' hstate hvalue hactions hhead =>
    obtain rfl : net.state.forward state.values = embedding :=
      Except.ok.inj (hrun.symm.trans hstate.run_eq)
    have hsame : batch.actions.mapM (e.scoreAction (net.state.forward state.values)) =
        batch.actions.mapM (net.scoreAction (net.state.forward state.values)) :=
      mapM_congr fun action _ => h.scoreAction_eq hnet hchains hembedding action
    rw [mapM_scoreAction_eq_ok hactions, hscores] at hsame
    rw [Except.ok.inj hsame]

end

end Executor

/-! ## Agreement -/

namespace Network

/-- **The importer and the executor agree.**  If an archive with the graph of a network is imported
into a configuration with a width for the embeddings of actions, its executor can be built.  It has
a value encoder exactly when no fallback was used; it has the scores and the policy of the import;
and, without a fallback, its value too. -/
theorem ofArchive_agrees {a : Archive} {source : Network} (hgraph : a.header.graph = source.graph)
    {c : Config} (hembed : 1 ≤ c.actionEmbed.toNat) {seed : UInt64} {net : Network}
    {report : LoadReport} (h : ofArchive a c seed = .ok (net, report)) :
    ∃ e, Executor.ofArchive a = .ok e ∧
      (e.hasValueEncoder = true ↔ report.usedFallback = false) ∧
      ∀ [Arithmetic] (state : StateVector) (batch : ActionBatch),
        ∃ imported replayed prediction replayedPrediction,
          Evaluator.score net state batch = .ok imported ∧
          Evaluator.score e state batch = .ok replayed ∧
          Evaluator.policy net state batch = .ok prediction ∧
          Evaluator.policy e state batch = .ok replayedPrediction ∧
          replayed.scores = imported.scores ∧
          replayedPrediction.policy = prediction.policy ∧
          (report.usedFallback = false → replayed.value = imported.value ∧
            replayedPrediction.value = prediction.value) := by
  have himport : ImportedFrom a c net report := importedFrom h
  have hnet : net.WellFormed := himport.wellFormed
  have hchains : net.Chains := by
    refine hnet.chains ?_
    rw [himport.config_eq]
    exact hembed
  have hsame : a.header.graph = net.graph := hgraph.trans (graph_congr source net)
  have hfallback : report.usedFallback = false ↔
      ¬ a.Skips (valueStateEncoder, net.valueState.layers) := by
    rw [← himport.usedFallback_eq_true_iff, Bool.not_eq_true]
  obtain ⟨e, he, -⟩ := Executor.exists_ofArchive_of_wellTyped (himport.wellTyped hsame hchains)
  obtain ⟨v, hload⟩ := Executor.exists_loadedFrom he
  refine ⟨e, he, ?_, ?_⟩
  · rw [Executor.hasValueEncoder_iff he, bringsValueEncoder_iff hsame, hfallback]
  · intro _ state batch
    obtain ⟨imported, himported⟩ := hnet.exists_score state batch
    obtain ⟨replayed, hreplayed⟩ := hload.exists_scores state batch
    have hscores : replayed.scores = imported.scores :=
      (hload.follows himport hsame).scores_eq hnet hchains hreplayed himported
    have hvalue : report.usedFallback = false → replayed.value = imported.value := by
      intro hused
      have hmirrors := hload.mirrors_of_imported himport hsame (hfallback.1 hused)
      have hall : e.score state batch = net.score state batch :=
        hmirrors.score_eq hnet hchains state batch
      rw [hreplayed.score_eq, himported] at hall
      rw [Except.ok.inj hall]
    refine ⟨imported, replayed, _, _, himported, hreplayed.score_eq,
      Evaluator.policy_eq_ok himported, Evaluator.policy_eq_ok hreplayed.score_eq, hscores, ?_,
      fun hused => ⟨hvalue hused, hvalue hused⟩⟩
    show maskedSoftmax replayed.scores = maskedSoftmax imported.scores
    rw [hscores]

/-! ## An archive without a value state encoder -/

/-- The records of an archive without those of the value's state encoder, and with one that no layer
reads. -/
def legacyRecords (net : Network) : List (String × Record) :=
  ("notes", .norm [] []) ::
    (net.components.eraseIdx 1).flatMap fun (name, layers) => layers.records name

/-- The export of a network with these records. -/
def toLegacyArchive (net : Network) : Archive where
  header := net.toArchive.header
  parameters := .ofList net.legacyRecords

/-- The keys of these records. -/
def legacyKeys : List String :=
  "notes" :: (["fc1", "ln1", "fc2", "ln2"].map (parameterKey stateEncoder) ++
    [actionEncoder, actionScorer].flatMap
      (fun name => ["fc1", "ln1", "fc2"].map (parameterKey name)) ++
    ["fc1", "fc2"].map (parameterKey valueHead))

theorem keys_legacyRecords (net : Network) : net.legacyRecords.map Prod.fst = legacyKeys := rfl

/-- An archive with these records skips the state encoder of the value. -/
theorem skips_toLegacyArchive (net net' : Network) :
    net.toLegacyArchive.Skips (valueStateEncoder, net'.valueState.layers) := by
  refine ⟨rfl, fun entry hentry => ?_⟩
  have hname : entry.1 ∈ ["fc1", "ln1", "fc2", "ln2"] :=
    List.mem_map_of_mem (f := Prod.fst) hentry
  have habsent : ∀ name ∈ ["fc1", "ln1", "fc2", "ln2"],
      parameterKey valueStateEncoder name ∉ legacyKeys := by decide
  apply Dict.get?_ofList_of_notMem
  rw [keys_legacyRecords]
  exact habsent entry.1 hname

/-- It holds all other sub-networks. -/
theorem holds_toLegacyArchive {net : Network} {component : String × Layers}
    (h : component ∈ net.components.eraseIdx 1) : net.toLegacyArchive.Holds component := by
  intro entry hentry
  have hnodup : (net.legacyRecords.map Prod.fst).Nodup := by
    rw [keys_legacyRecords]
    decide
  apply Dict.get?_ofList_of_mem hnodup
  exact .tail _ (List.mem_flatMap.2 ⟨component, h, List.mem_map.2 ⟨entry, hentry, rfl⟩⟩)

/-- A network loads the legacy archive of another one of its configuration. -/
theorem WellFormed.exists_stage_toLegacyArchive {net₀ net : Network} (h₀ : net₀.WellFormed)
    (h : net.WellFormed) (hconfig : net₀.config = net.config)
    (hepsilon : Scalar.Admissible net.config.epsilon) :
    ∃ net', net₀.stage net.toLegacyArchive = .ok net' := by
  have hvalid : net.toLegacyArchive.validate = .ok () := by
    have hsame : net.toLegacyArchive.header = net.toArchive.header := rfl
    rw [Archive.validate_congr hsame, validate_toArchive hepsilon]
  have hcheck := Archive.checkEpsilon_eq_ok.2 ⟨hvalid, rfl⟩
  refine h₀.exists_stage h hconfig hcheck fun component hmem => ?_
  simp only [components, List.mem_cons, List.not_mem_nil, or_false] at hmem
  rcases hmem with rfl | rfl | rfl | rfl | rfl
  · exact .inr (holds_toLegacyArchive (.head _))
  · exact .inl (skips_toLegacyArchive net net)
  · exact .inr (holds_toLegacyArchive (.tail _ (.head _)))
  · exact .inr (holds_toLegacyArchive (.tail _ (.tail _ (.head _))))
  · exact .inr (holds_toLegacyArchive (.tail _ (.tail _ (.tail _ (.head _)))))

/-- It is imported into every configuration of the same widths, and falls back to what was drawn for
the value. -/
theorem WellFormed.exists_import_toLegacyArchive {net : Network} (h : net.WellFormed)
    (hepsilon : Scalar.Admissible net.config.epsilon) {c : Config} (hc : c.SameWidths net.config)
    (seed : UInt64) : ∃ net' report, ofArchive net.toLegacyArchive c seed = .ok (net', report) ∧
      report.fallbacks = [valueStateEncoder] := by
  obtain ⟨net₀, hdraw⟩ := exists_draw h.widths_pos seed
  obtain ⟨hnet₀, hconfig⟩ := draw_wellFormed hdraw
  obtain ⟨net', hstage⟩ := hnet₀.exists_stage_toLegacyArchive h hconfig hepsilon
  refine ⟨net', _, ofArchive_eq_ok.2 ⟨net₀, ?_, hstage, rfl⟩, ?_⟩
  · rw [show net.toLegacyArchive.header.epsilon = net.config.epsilon from rfl, hc.withEpsilon_eq]
    exact hdraw
  · rw [fallbacks_loadReport, if_pos (skips_toLegacyArchive net net₀)]

/-- The legacy archive of a fresh network of widths one is imported from another seed. -/
theorem exists_import_legacy_single : ∃ source net report, draw Config.single 7 = .ok source ∧
    ofArchive source.toLegacyArchive Config.single 8 = .ok (net, report) ∧
    report.fallbacks = [valueStateEncoder] := by
  obtain ⟨source, hsource, hwell, hconfig, hepsilon⟩ := exists_draw_single 7
  have hwidths : Config.single.SameWidths source.config := by
    rw [hconfig]
    exact ⟨rfl, rfl, rfl, rfl, rfl, rfl⟩
  obtain ⟨net, report, himport, hfallbacks⟩ :=
    hwell.exists_import_toLegacyArchive hepsilon hwidths 8
  exact ⟨source, net, report, hsource, himport, hfallbacks⟩

/-- A fresh network's legacy archive, imported with another seed, falls back to the state encoder
that was drawn; its executor has the policy of the import. -/
theorem ofArchive_agrees_legacy : ∃ source net report e,
    draw Config.single 7 = .ok source ∧
    ofArchive source.toLegacyArchive Config.single 8 = .ok (net, report) ∧
    report.usedFallback = true ∧ Executor.ofArchive source.toLegacyArchive = .ok e ∧
    e.hasValueEncoder = false ∧
    ∀ [Arithmetic] (state : StateVector) (batch : ActionBatch), ∃ prediction replayed,
      Evaluator.policy net state batch = .ok prediction ∧
      Evaluator.policy e state batch = .ok replayed ∧ replayed.policy = prediction.policy := by
  obtain ⟨source, net, report, hsource, himport, hfallbacks⟩ := exists_import_legacy_single
  have hused : report.usedFallback = true := by
    rw [LoadReport.usedFallback, hfallbacks]
    rfl
  have hgraph : source.toLegacyArchive.header.graph = source.graph := rfl
  have hembed : 1 ≤ Config.single.actionEmbed.toNat := by decide
  obtain ⟨e, he, hvalue, hagree⟩ := ofArchive_agrees hgraph hembed himport
  refine ⟨source, net, _, e, hsource, himport, hused, he, ?_, ?_⟩
  · rw [Bool.eq_false_iff, Ne, hvalue, hused]
    exact Bool.noConfusion
  · intro _ state batch
    obtain ⟨_, _, prediction, replayed, -, -, hprediction, hreplayed, -, hpolicy, -⟩ :=
      hagree state batch
    exact ⟨prediction, replayed, hprediction, hreplayed, hpolicy⟩

end Network

end PolicyValue
