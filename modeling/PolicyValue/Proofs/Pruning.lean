import PolicyValue.Proofs.ValuePath

/-!
# Leaving out the value state encoder

An archive may come without a value state encoder.  Taking it out of one that loads, with any
records that only it used, leaves everything the policy reads as it was.

* `Archive.AgreesOn`: two archives with the same sub-networks under some names, and the same records
  under the keys of these; what types or runs over the one does so over the other;
* `Archive.agreesOn_withoutValueEncoder`: taking out the value state encoder agrees on all others;
* `Executor.ofArchive_withoutValueEncoder`: what is left loads exactly when the value head takes the
  embedding of the policy, and then scores as before.
-/

namespace PolicyValue

open Scalar (zero one)

namespace Archive

/-! ## Records that two archives share -/

/-- An operation has the widths it has over another archive with the same record for its key. -/
theorem Takes.congr {a b : Archive} {op : Operation} {w w' : Nat} (h : a.Takes op w w')
    (hrecord : ∀ key, op.key? = some key → b.record? key = a.record? key) : b.Takes op w w' := by
  cases h with
  | affine found hkernel hrow hpos hbias =>
    exact .affine ((hrecord _ rfl).trans found) hkernel hrow hpos hbias
  | normalize found hgamma hbeta => exact .normalize ((hrecord _ rfl).trans found) hgamma hbeta
  | relu => exact .relu
  | tanh => exact .tanh

/-- Operations have the widths they have over another archive with the same records for their
keys. -/
theorem Types.congr {a b : Archive} {ops : List Operation} {w w' : Nat} (h : a.Types ops w w')
    (hrecord : ∀ op ∈ ops, ∀ key, op.key? = some key → b.record? key = a.record? key) :
    b.Types ops w w' := by
  induction h with
  | nil => exact .nil
  | cons head _ ih =>
    exact .cons (head.congr (hrecord _ (.head _))) (ih fun op hop => hrecord op (.tail _ hop))

/-- An operation takes vectors of one width to vectors of one other width only. -/
theorem Takes.unique {a : Archive} {op : Operation} {w w₁ w₂ : Nat} (h₁ : a.Takes op w w₁)
    (h₂ : a.Takes op w w₂) : w₁ = w₂ := by
  cases h₁ with
  | affine found _ _ _ hbias =>
    obtain ⟨-, -, -, hbias'⟩ := (takes_affine_iff found).1 h₂
    exact hbias.symm.trans hbias'
  | normalize found _ _ =>
    obtain ⟨rfl, -⟩ := (takes_normalize_iff found).1 h₂
    rfl
  | relu =>
    cases h₂
    rfl
  | tanh =>
    cases h₂
    rfl

/-- Operations take vectors of one width to vectors of one other width only. -/
theorem Types.unique {a : Archive} {ops : List Operation} {w w₁ w₂ : Nat} (h₁ : a.Types ops w w₁)
    (h₂ : a.Types ops w w₂) : w₁ = w₂ := by
  induction h₁ with
  | nil =>
    cases h₂
    rfl
  | cons head _ ih =>
    obtain _ | ⟨head', tail'⟩ := h₂
    obtain rfl := head.unique head'
    exact ih tail'

/-! ## Archives that agree on sub-networks -/

/-- Two archives have the same operations under some names, and the same records under all keys that
these operations name. -/
structure AgreesOn (a b : Archive) (names : List String) : Prop where
  /-- The graphs have the same sub-networks. -/
  get?_graph : ∀ name ∈ names, b.header.graph.get? name = a.header.graph.get? name
  /-- Their keys have the same records. -/
  record?_eq : ∀ name ∈ names, ∀ key ∈ a.keys name, b.record? key = a.record? key

section

variable {a b : Archive} {names : List String} {name : String}

/-- The operations under a name that two archives agree on. -/
theorem AgreesOn.operations_eq (h : a.AgreesOn b names) (hname : name ∈ names) :
    b.operations name = a.operations name := by
  rw [operations, operations, h.get?_graph name hname]

/-- A sub-network that two archives agree on has the same widths in both. -/
theorem AgreesOn.types_iff (h : a.AgreesOn b names) (hname : name ∈ names) {w w' : Nat} :
    b.Types (b.operations name) w w' ↔ a.Types (a.operations name) w w' := by
  have hrecord : ∀ op ∈ a.operations name, ∀ key, op.key? = some key →
      b.record? key = a.record? key := fun op hop key hkey =>
    h.record?_eq name hname key (mem_keys.2 ⟨op, hop, hkey⟩)
  rw [h.operations_eq hname]
  exact ⟨fun ht => ht.congr fun op hop key hkey => (hrecord op hop key hkey).symm,
    fun ht => ht.congr hrecord⟩

end

/-! ## Taking out the value state encoder -/

/-- An archive without its value state encoder, and without the records whose keys do not pass. -/
def withoutValueEncoder (a : Archive) (kept : String → Bool) : Archive where
  header := { a.header with graph := a.header.graph.erase valueStateEncoder }
  parameters := a.parameters.filter fun key _ => kept key

/-- The records whose keys pass are still there. -/
theorem record?_withoutValueEncoder (a : Archive) {kept : String → Bool} {key : String}
    (h : kept key = true) : (a.withoutValueEncoder kept).record? key = a.record? key := by
  rw [record?, withoutValueEncoder, Dict.filter, Dict.get?, Dict.lookup_filter_fst, if_pos h]
  rfl

/-- All other sub-networks are still there. -/
theorem get?_graph_withoutValueEncoder (a : Archive) (kept : String → Bool) {name : String}
    (h : name ≠ valueStateEncoder) :
    (a.withoutValueEncoder kept).header.graph.get? name = a.header.graph.get? name := by
  rw [withoutValueEncoder, Dict.get?_erase, if_neg h]

/-- Taking out the value state encoder changes none of the required sub-networks, nor what they
read. -/
theorem agreesOn_withoutValueEncoder {a : Archive} {kept : String → Bool}
    (hkept : ∀ name ∈ requiredComponents, ∀ key ∈ a.keys name, kept key = true) :
    a.AgreesOn (a.withoutValueEncoder kept) requiredComponents := by
  have hne : ∀ name ∈ requiredComponents, name ≠ valueStateEncoder := by decide
  exact ⟨fun name hname => a.get?_graph_withoutValueEncoder kept (hne name hname),
    fun name hname key hkey => a.record?_withoutValueEncoder (hkept name hname key hkey)⟩

/-- No value state encoder is brought any more. -/
theorem not_bringsValueEncoder_withoutValueEncoder (a : Archive) (kept : String → Bool) :
    ¬ (a.withoutValueEncoder kept).BringsValueEncoder := by
  rintro ⟨ops, hops, -⟩
  rw [withoutValueEncoder, Dict.get?_erase, if_pos rfl] at hops
  cases hops

end Archive

namespace Executor

/-! ## Executors that agree on sub-networks -/

/-- The tensors under a key of a required sub-network are those of its record. -/
theorem LoadedFrom.get?_parameters_of_mem_keys {a : Archive} {e : Executor} {v : Nat}
    (h : LoadedFrom a e v) {name key : String} (hname : name ∈ requiredComponents)
    (hkey : key ∈ a.keys name) :
    e.parameters.get? key = (a.record? key).map Record.tensors := by
  have hused : name ∈ [stateEncoder, a.valuePath.component, actionEncoder, actionScorer,
      valueHead] := by
    simp only [requiredComponents, List.mem_cons, List.not_mem_nil, or_false] at hname ⊢
    tauto
  obtain ⟨op, hop, hop_key⟩ := Archive.mem_keys.1 hkey
  rw [h.get?_parameters, if_pos (List.mem_filterMap.2
    ⟨op, Archive.mem_usedOperations hused hop, hop_key⟩)]

section

variable [Arithmetic]

/-- A step depends on the epsilon and on the tensors under the operation's key. -/
theorem step_congr {e e' : Executor} (hepsilon : e'.epsilon = e.epsilon) {op : Operation}
    (hget : ∀ key, op.key? = some key → e'.parameters.get? key = e.parameters.get? key)
    (x : List Float32) : e'.step x op = e.step x op := by
  cases op with
  | affine key => rw [step, step, hget key rfl]
  | normalize key => rw [step, step, hget key rfl, hepsilon]
  | relu => rfl
  | tanh => rfl

/-- A pass over operations depends on the epsilon and on the tensors under their keys. -/
theorem foldlM_step_congr {e e' : Executor} (hepsilon : e'.epsilon = e.epsilon)
    {ops : List Operation} (hget : ∀ op ∈ ops, ∀ key, op.key? = some key →
      e'.parameters.get? key = e.parameters.get? key) (x : List Float32) :
    ops.foldlM e'.step x = ops.foldlM e.step x := by
  induction ops generalizing x with
  | nil => rfl
  | cons op ops ih =>
    rw [List.foldlM_cons, List.foldlM_cons, step_congr hepsilon (hget op (.head _))]
    exact congrArg (e.step x op >>= ·)
      (funext fun y => ih (fun o ho => hget o (.tail _ ho)) y)

/-- Executors of archives that agree on the required sub-networks, and have one epsilon, run these
alike. -/
theorem run_congr {a b : Archive} {e e' : Executor} {v v' : Nat} (h : LoadedFrom a e v)
    (h' : LoadedFrom b e' v') (hagree : a.AgreesOn b requiredComponents)
    (hepsilon : b.header.epsilon = a.header.epsilon) {name : String}
    (hname : name ∈ requiredComponents) (x : List Float32) : e'.run name x = e.run name x := by
  have hops : e.graph.get? name = some (a.operations name) := by
    rw [h.graph_eq]
    exact Archive.get?_graph (h.complete name hname)
  have hops' : e'.graph.get? name = some (a.operations name) := by
    rw [h'.graph_eq, hagree.get?_graph name hname, ← h.graph_eq, hops]
  rw [run_eq_foldlM hops, run_eq_foldlM hops']
  refine foldlM_step_congr (by rw [h.epsilon_eq, h'.epsilon_eq, hepsilon]) ?_ x
  intro op hop key hkey
  have hmem : key ∈ a.keys name := Archive.mem_keys.2 ⟨op, hop, hkey⟩
  have hmem' : key ∈ b.keys name := by
    rw [Archive.keys, hagree.operations_eq hname]
    exact hmem
  rw [h.get?_parameters_of_mem_keys hname hmem, h'.get?_parameters_of_mem_keys hname hmem',
    hagree.record?_eq name hname key hmem]

/-- Executors that run the sub-networks of the policy alike give the same scores. -/
theorem Scores.scores_congr {e e' : Executor} {state : StateVector} {batch : ActionBatch}
    {scored scored' : ScoredBatch}
    (hrun : ∀ name ∈ [stateEncoder, actionEncoder, actionScorer], ∀ x,
      e'.run name x = e.run name x)
    (h : e.Scores state batch scored) (h' : e'.Scores state batch scored') :
    scored'.scores = scored.scores := by
  cases h with
  | @intro embedding _ scores _ hstate _ hactions _ =>
    cases h' with
    | @intro embedding' _ scores' _ hstate' _ hactions' _ =>
      have hembedding := hrun stateEncoder (by simp) state.values
      rw [hstate.run_eq, hstate'.run_eq] at hembedding
      obtain rfl : embedding' = embedding := Except.ok.inj hembedding
      have haction : ∀ action,
          e'.scoreAction embedding' action = e.scoreAction embedding' action := by
        intro action
        rw [scoreAction, scoreAction, hrun actionEncoder (by simp)]
        exact congrArg (e.run actionEncoder action.values >>= ·)
          (funext fun encoded => by rw [hrun actionScorer (by simp)])
      have hscores : batch.actions.mapM (e'.scoreAction embedding') =
          batch.actions.mapM (e.scoreAction embedding') := mapM_congr fun action _ => haction action
      rw [mapM_scoreAction_eq_ok hactions, mapM_scoreAction_eq_ok hactions'] at hscores
      rw [Except.ok.inj hscores]

end

/-! ## Loading without the value state encoder -/

section

variable {a b : Archive} {e : Executor} {v : Nat}

/-- The width check of the value head against the embedding of the policy, in terms of typing. -/
theorem LoadedFrom.head_iff (h : LoadedFrom a e v) {w : Nat} :
    outputWidth e.parameters e.stateWidth (a.operations valueHead) = .ok w ↔
      a.Types (a.operations valueHead) e.stateWidth w :=
  outputWidth_eq_ok_iff (holds_operations h.provides h.get?_parameters (by simp))
    (h.wellTyped.state.pos (by decide))

/-- An archive that agrees with a loaded one on the required sub-networks, but brings no value state
encoder, is well typed with the same widths when the value head takes the policy's embedding. -/
theorem LoadedFrom.wellTyped_of_agreesOn (h : LoadedFrom a e v)
    (hagree : a.AgreesOn b requiredComponents) (hvalid : b.validate = .ok ())
    (hbrings : ¬ b.BringsValueEncoder)
    (hhead : a.Types (a.operations valueHead) e.stateWidth 1) :
    b.WellTyped e.stateWidth e.actionWidth e.stateWidth where
  valid := hvalid
  complete name hname := by
    rw [hagree.get?_graph name hname]
    exact h.complete name hname
  state := (hagree.types_iff (by decide)).2 h.wellTyped.state
  action := (hagree.types_iff (by decide)).2 h.wellTyped.action
  separate hb := absurd hb hbrings
  shared _ := (hagree.types_iff (by decide)).2 h.wellTyped.state
  scorer := (hagree.types_iff (by decide)).2 h.wellTyped.scorer
  head := (hagree.types_iff (by decide)).2 hhead

/-- Conversely, such an archive has the widths of the loaded one, and its value head takes the
policy's embedding. -/
theorem LoadedFrom.widths_of_agreesOn (h : LoadedFrom a e v)
    (hagree : a.AgreesOn b requiredComponents) (hbrings : ¬ b.BringsValueEncoder) {s t v' : Nat}
    (hb : b.WellTyped s t v') :
    s = e.stateWidth ∧ t = e.actionWidth ∧ a.Types (a.operations valueHead) e.stateWidth 1 := by
  have hstate : s = e.stateWidth :=
    ((hagree.types_iff (by decide)).1 hb.state).unique h.wellTyped.state
  have haction : t = e.actionWidth :=
    ((hagree.types_iff (by decide)).1 hb.action).unique h.wellTyped.action
  obtain rfl : v' = e.stateWidth :=
    ((hagree.types_iff (by decide)).1 (hb.shared hbrings)).unique h.wellTyped.state
  exact ⟨hstate, haction, (hagree.types_iff (by decide)).1 hb.head⟩

end

/-- **Taking out the value state encoder never moves the policy.**  Records may go with it unless
another sub-network names their keys.  What is left loads exactly when the value head, checked from
the width of the policy's embedding, has one output; then it has no value encoder, the widths are
the same, and so are all scores and policies. -/
theorem ofArchive_withoutValueEncoder {a : Archive} {e : Executor} (h : ofArchive a = .ok e)
    {kept : String → Bool}
    (hkept : ∀ name ∈ requiredComponents, ∀ key ∈ a.keys name, kept key = true) :
    ((∃ e', ofArchive (a.withoutValueEncoder kept) = .ok e') ↔
      outputWidth e.parameters e.stateWidth (a.operations valueHead) = .ok 1) ∧
    ∀ e', ofArchive (a.withoutValueEncoder kept) = .ok e' →
      e'.hasValueEncoder = false ∧ e'.stateWidth = e.stateWidth ∧
        e'.actionWidth = e.actionWidth ∧
        ∀ [Arithmetic] (state : StateVector) (batch : ActionBatch),
          ∃ scored scored' prediction prediction',
            Evaluator.score e state batch = .ok scored ∧
            Evaluator.score e' state batch = .ok scored' ∧
            Evaluator.policy e state batch = .ok prediction ∧
            Evaluator.policy e' state batch = .ok prediction' ∧
            scored'.scores = scored.scores ∧ prediction'.policy = prediction.policy := by
  obtain ⟨v, hload⟩ := exists_loadedFrom h
  have hagree := Archive.agreesOn_withoutValueEncoder hkept
  have hbrings := a.not_bringsValueEncoder_withoutValueEncoder kept
  rw [hload.head_iff]
  refine ⟨⟨?_, ?_⟩, ?_⟩
  · rintro ⟨e', he'⟩
    obtain ⟨v', hload'⟩ := exists_loadedFrom he'
    exact (hload.widths_of_agreesOn hagree hbrings hload'.wellTyped).2.2
  · intro hhead
    obtain ⟨e', he', -⟩ := exists_ofArchive_of_wellTyped
      (hload.wellTyped_of_agreesOn hagree hload.valid hbrings hhead)
    exact ⟨e', he'⟩
  · intro e' he'
    obtain ⟨v', hload'⟩ := exists_loadedFrom he'
    obtain ⟨hstate, haction, -⟩ := hload.widths_of_agreesOn hagree hbrings hload'.wellTyped
    refine ⟨?_, hstate, haction, ?_⟩
    · rw [← Bool.not_eq_true, hasValueEncoder_iff he']
      exact hbrings
    · intro _ state batch
      obtain ⟨scored, hscored⟩ := hload.exists_scores state batch
      obtain ⟨scored', hscored'⟩ := hload'.exists_scores state batch
      have hscores : scored'.scores = scored.scores :=
        hscored.scores_congr (fun name hname x => run_congr hload hload' hagree rfl
          (by revert name; decide) x) hscored'
      exact ⟨scored, scored', _, _, hscored.score_eq, hscored'.score_eq,
        Evaluator.policy_eq_ok hscored.score_eq, Evaluator.policy_eq_ok hscored'.score_eq, hscores,
        congrArg maskedSoftmax hscores⟩

end Executor

/-! ## An encoder with a record of its own -/

/-- The archive with a shared kernel, its value state encoder going on to a record that nothing else
uses. -/
def ownRecordArchive : Archive where
  header :=
    { sharedKernelArchive.header with
      graph := sharedKernelArchive.header.graph.insert valueStateEncoder
        [.affine "shared", .affine "own"] }
  parameters := sharedKernelArchive.parameters.insert "own" (.affine [[one]] [zero])

theorem bringsValueEncoder_ownRecordArchive : ownRecordArchive.BringsValueEncoder :=
  ⟨_, rfl, _, .head _, _, rfl, _, rfl⟩

/-- The archive whose value state encoder has a record of its own is well typed. -/
theorem ownRecordArchive_wellTyped : ownRecordArchive.WellTyped 1 54 1 := by
  have hagree : sharedKernelArchive.AgreesOn ownRecordArchive requiredComponents := by
    refine ⟨fun name hname => ?_, fun name hname key hkey => ?_⟩
    · exact (Dict.get?_insert _ _ _ _).trans (if_neg (by revert name; decide))
    · exact (Dict.get?_insert _ _ _ _).trans (if_neg (by revert name key; decide))
  have hshared : ownRecordArchive.Takes (.affine "shared") stateSize 1 :=
    .affine rfl List.length_replicate (length_of_mem_replicate_singleton _ _) (Nat.le_refl 1) rfl
  have hown : ownRecordArchive.Takes (.affine "own") 1 1 :=
    .affine rfl rfl (length_of_mem_replicate_singleton 1 _) (Nat.le_refl 1) rfl
  have hbase := sharedKernelArchive_wellTyped
  refine ⟨hbase.valid, ?_, (hagree.types_iff (by decide)).2 hbase.state,
    (hagree.types_iff (by decide)).2 hbase.action, fun _ => .cons hshared (.cons hown .nil),
    fun h => absurd bringsValueEncoder_ownRecordArchive h, (hagree.types_iff (by decide)).2 hbase.scorer,
    (hagree.types_iff (by decide)).2 hbase.head⟩
  intro name hname
  rw [hagree.get?_graph name hname]
  exact hbase.complete name hname

/-- The value state encoder and its own record can be taken out, since the value head takes the
policy's embedding too. -/
theorem Executor.ofArchive_withoutValueEncoder_ownRecord : ∃ e e',
    ofArchive ownRecordArchive = .ok e ∧ e.hasValueEncoder = true ∧
    (∀ name ∈ requiredComponents, ∀ key ∈ ownRecordArchive.keys name, (key != "own") = true) ∧
    (ownRecordArchive.withoutValueEncoder (· != "own")).record? "own" = none ∧
    ofArchive (ownRecordArchive.withoutValueEncoder (· != "own")) = .ok e' ∧
    e'.hasValueEncoder = false ∧ e'.stateWidth = 1 ∧ e'.actionWidth = 54 ∧
    ∀ [Arithmetic] (batch : ActionBatch), ∃ scored scored',
      Evaluator.score e (.constant one) batch = .ok scored ∧
        Evaluator.score e' (.constant one) batch = .ok scored' ∧
        scored'.scores = scored.scores := by
  obtain ⟨e, he, hstate, haction⟩ := exists_ofArchive_of_wellTyped ownRecordArchive_wellTyped
  have hkept : ∀ name ∈ requiredComponents, ∀ key ∈ ownRecordArchive.keys name,
      (key != "own") = true := by decide
  obtain ⟨v, hload⟩ := exists_loadedFrom he
  obtain ⟨hiff, hsame⟩ := ofArchive_withoutValueEncoder he hkept
  obtain ⟨e', he'⟩ := hiff.2 (hload.head_iff.2 (hstate ▸ ownRecordArchive_wellTyped.head))
  obtain ⟨hvalue, hstate', haction', hscores⟩ := hsame e' he'
  refine ⟨e, e', he, (hasValueEncoder_iff he).2 bringsValueEncoder_ownRecordArchive, hkept, rfl,
    he', hvalue, hstate'.trans hstate, haction'.trans haction, ?_⟩
  intro _ batch
  obtain ⟨scored, scored', -, -, hscore, hscore', -, -, heq, -⟩ := hscores (.constant one) batch
  exact ⟨scored, scored', hscore, hscore', heq⟩

end PolicyValue
