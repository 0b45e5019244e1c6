import PolicyValue.Graph.Executor
import PolicyValue.Proofs.Basic

/-!
# What loading an archive establishes

`Executor.ofArchive` goes over the operations it will run twice: once to lay out their parameters
and once to thread widths through them.  This file says once what a successful pass has done, so
that nothing later opens the loader:

* `Archive.get?_collect`: the loaded tensors are the records of the keys that operations name;
* `Operation.outputWidth_affine_eq_ok`, `Operation.outputWidth_normalize_eq_ok`: what one step of the
  width check asks of the tensors;
* `Executor.exists_loadedFrom`: what all checks together say of the executor that was built;
* `Executor.ofArchive_of_checks`: if the checks pass, an executor is built.
-/

namespace PolicyValue

/-! ## Laying out records -/

/-- A record laid out to be run. -/
def Record.tensors : Record → Tensors
  | .affine kernel bias =>
    .affine kernel.length ((kernel.head?.map List.length).getD 0) kernel.flatten bias
  | .norm gamma beta => .norm gamma beta

/-- Rows have one length when no row is ragged. -/
theorem firstRagged?_eq_none_iff {width : Nat} {rows : List (List Float32)} :
    Linear.firstRagged? width rows = none ↔ ∀ row ∈ rows, row.length = width := by
  simp only [Linear.firstRagged?, List.findIdx?_eq_none_iff, bne_eq_false_iff_eq]

/-- Rows of one length are as long as the first. -/
theorem length_head_of_length {rows : List (List Float32)} {columns : Nat}
    (hpos : rows ≠ []) (h : ∀ row ∈ rows, row.length = columns) :
    (rows.head?.map List.length).getD 0 = columns := by
  cases rows with
  | nil => exact absurd rfl hpos
  | cons row rows => exact h row (.head _)

namespace Archive

/-- The parameters of an operation can be laid out: the record is there, of the operation's kind,
and the rows of a kernel have one length. -/
def Provides (a : Archive) : Operation → Prop
  | .affine key => ∃ kernel bias, a.record? key = some (.affine kernel bias) ∧
    ∃ columns, ∀ row ∈ kernel, row.length = columns
  | .normalize key => ∃ gamma beta, a.record? key = some (.norm gamma beta)
  | .relu => True
  | .tanh => True

/-- The key of an operation with the tensors of the record under it. -/
def layout? (a : Archive) (op : Operation) : Option (String × Tensors) :=
  op.key?.bind fun key => (a.record? key).map fun record => (key, record.tensors)

/-- A kernel can be laid out flat exactly when its rows have one length. -/
theorem flatten_eq_ok {key : String} {kernel : List (List Float32)} {bias : List Float32}
    {t : Tensors} :
    flatten key kernel bias = .ok t ↔
      (∃ columns, ∀ row ∈ kernel, row.length = columns) ∧ t = (Record.affine kernel bias).tensors := by
  have hflat : (∃ columns, ∀ row ∈ kernel, row.length = columns) ↔
      Linear.firstRagged? ((kernel.head?.map List.length).getD 0) kernel = none := by
    rw [firstRagged?_eq_none_iff]
    constructor
    · rintro ⟨columns, h⟩ row hr
      rw [length_head_of_length (List.ne_nil_of_mem hr) h, h row hr]
    · intro h
      exact ⟨_, h⟩
  rw [hflat, flatten, Record.tensors]
  cases Linear.firstRagged? ((kernel.head?.map List.length).getD 0) kernel with
  | none => simp [eq_comm]
  | some r => simp

/-- Laying out the parameters of an operation gives the tensors of its record. -/
theorem tensors?_eq_ok {a : Archive} {op : Operation} {r : Option (String × Tensors)} :
    a.tensors? op = .ok r ↔ a.Provides op ∧ r = a.layout? op := by
  cases op with
  | affine key =>
    rcases hrec : a.record? key with _ | ⟨kernel, bias⟩ | ⟨gamma, beta⟩
    · simp [tensors?, Provides, hrec]
    · simp only [tensors?, Provides, layout?, hrec, map_eq_ok, flatten_eq_ok, Operation.key?,
        Option.bind_some, Option.map_some, Option.some.injEq, Record.affine.injEq]
      constructor
      · rintro ⟨t, ⟨hrows, rfl⟩, rfl⟩
        exact ⟨⟨kernel, bias, ⟨rfl, rfl⟩, hrows⟩, rfl⟩
      · rintro ⟨⟨_, _, ⟨rfl, rfl⟩, hrows⟩, rfl⟩
        exact ⟨_, ⟨hrows, rfl⟩, rfl⟩
    · simp [tensors?, Provides, hrec]
  | normalize key =>
    rcases hrec : a.record? key with _ | ⟨kernel, bias⟩ | ⟨gamma, beta⟩
    · simp [tensors?, Provides, hrec]
    · simp [tensors?, Provides, hrec]
    · simp [tensors?, Provides, layout?, hrec, Operation.key?, Record.tensors, eq_comm]
  | relu => simp [tensors?, Provides, layout?, Operation.key?, eq_comm]
  | tanh => simp [tensors?, Provides, layout?, Operation.key?, eq_comm]

/-- An operation with a key whose parameters can be laid out has a record under its key. -/
theorem Provides.exists_record {a : Archive} {op : Operation} (h : a.Provides op) {key : String}
    (hkey : op.key? = some key) : ∃ record, a.record? key = some record := by
  cases op with
  | affine k =>
    cases hkey
    obtain ⟨kernel, bias, found, -⟩ := h
    exact ⟨_, found⟩
  | normalize k =>
    cases hkey
    obtain ⟨gamma, beta, found⟩ := h
    exact ⟨_, found⟩
  | relu => cases hkey
  | tanh => cases hkey

/-! ## Collecting the tensors of operations -/

/-- One step of collecting adds the tensors of the operation's key, if it has one. -/
theorem collect_cons_eq_ok {a : Archive} {loaded p : Parameters} {op : Operation}
    {ops : List Operation} :
    a.collect loaded (op :: ops) = .ok p ↔ a.Provides op ∧
      a.collect (match a.layout? op with
        | some (key, t) => loaded.insert key t
        | none => loaded) ops = .ok p := by
  rw [collect, bind_eq_ok]
  constructor
  · rintro ⟨r, hr, h⟩
    obtain ⟨hop, rfl⟩ := tensors?_eq_ok.1 hr
    refine ⟨hop, ?_⟩
    cases hlayout : a.layout? op <;> simp_all only
  · rintro ⟨hop, h⟩
    refine ⟨_, tensors?_eq_ok.2 ⟨hop, rfl⟩, ?_⟩
    cases hlayout : a.layout? op <;> simp_all only

/-- Collecting succeeds exactly when every operation is provided for. -/
theorem exists_collect_iff {a : Archive} {loaded : Parameters} {ops : List Operation} :
    (∃ p, a.collect loaded ops = .ok p) ↔ ∀ op ∈ ops, a.Provides op := by
  induction ops generalizing loaded with
  | nil => simp [collect]
  | cons op ops ih =>
    simp only [collect_cons_eq_ok, exists_and_left, ih, List.forall_mem_cons]

/-- The tensors collected are those of the records that operations name; other keys keep what was
loaded before. -/
theorem get?_collect {a : Archive} {loaded p : Parameters} {ops : List Operation}
    (h : a.collect loaded ops = .ok p) (k : String) :
    p.get? k = if k ∈ ops.filterMap Operation.key? then (a.record? k).map Record.tensors
      else loaded.get? k := by
  -- A key that is loaded again gets the tensors of the same record, so the order does not matter.
  induction ops generalizing loaded with
  | nil =>
    cases h
    simp
  | cons op ops ih =>
    obtain ⟨hop, h⟩ := collect_cons_eq_ok.1 h
    rw [ih h]
    cases hkey : op.key? with
    | none => rw [layout?, hkey, List.filterMap_cons_none hkey, Option.bind_none]
    | some key =>
      obtain ⟨record, hrec⟩ := hop.exists_record hkey
      rw [layout?, hkey, List.filterMap_cons_some hkey, Option.bind_some, hrec, Option.map_some,
        Dict.get?_insert]
      by_cases hk : k = key
      · simp only [hk, hrec, Option.map_some, List.mem_cons, true_or, if_true, ite_self]
      · simp only [hk, List.mem_cons, false_or, if_false]

/-! ## The required sub-networks and the value path -/

/-- The check of required sub-networks passes exactly when the graph has them all. -/
theorem checkComponents_eq_ok {a : Archive} {names : List String} :
    a.checkComponents names = .ok () ↔
      ∀ name ∈ names, ∃ ops, a.header.graph.get? name = some ops := by
  induction names with
  | nil => simp [checkComponents]
  | cons name names ih =>
    rw [checkComponents, List.forall_mem_cons, ← ih, ← Dict.contains_eq_true_iff]
    by_cases h : a.header.graph.contains name = true
    · rw [if_pos h]
      simp [h]
    · rw [if_neg h]
      simp [h]

/-- The operations of a sub-network that the graph has. -/
theorem get?_graph {a : Archive} {name : String} (h : ∃ ops, a.header.graph.get? name = some ops) :
    a.header.graph.get? name = some (a.operations name) := by
  obtain ⟨ops, hops⟩ := h
  rw [operations, hops, Option.getD_some]

/-- The graph has a value state encoder, and some key that it names has a record. -/
def BringsValueEncoder (a : Archive) : Prop :=
  ∃ ops, a.header.graph.get? valueStateEncoder = some ops ∧
    ∃ op ∈ ops, ∃ key, op.key? = some key ∧ ∃ record, a.record? key = some record

/-- The value path is separate exactly when the archive brings a value state encoder. -/
theorem valuePath_eq_separate_iff {a : Archive} :
    a.valuePath = .separate ↔ a.BringsValueEncoder := by
  unfold valuePath BringsValueEncoder
  cases a.header.graph.get? valueStateEncoder with
  | none => simp
  | some ops =>
    have hany : (ops.filterMap Operation.key?).any a.parameters.contains = true ↔
        ∃ op ∈ ops, ∃ key, op.key? = some key ∧ ∃ record, a.record? key = some record := by
      rw [List.any_eq_true]
      simp only [List.mem_filterMap, Dict.contains_eq_true_iff, record?]
      constructor
      · rintro ⟨key, ⟨op, hop, hkey⟩, hrec⟩
        exact ⟨op, hop, key, hkey, hrec⟩
      · rintro ⟨op, hop, key, hkey, hrec⟩
        exact ⟨key, ⟨op, hop, hkey⟩, hrec⟩
    simp [← hany]

/-- An archive without a value state encoder shares the policy's. -/
theorem valuePath_eq_shared_iff {a : Archive} :
    a.valuePath = .shared ↔ ¬ a.BringsValueEncoder := by
  rw [← valuePath_eq_separate_iff]
  cases a.valuePath <;> simp

/-- The operations an executor of an archive can run, in the order in which they are loaded. -/
def usedOperations (a : Archive) : List Operation :=
  [stateEncoder, a.valuePath.component, actionEncoder, actionScorer, valueHead].flatMap a.operations

end Archive

/-! ## Computed widths -/

namespace Operation

/-- An affine map has a computed width exactly when its tensors have the width that has been reached
as rows, some columns, and a bias of as many entries. -/
theorem outputWidth_affine_eq_ok {p : Parameters} {key : String} {w w' : Nat} :
    (Operation.affine key).outputWidth p w = .ok w' ↔
      ∃ kernel bias, p.get? key = some (.affine w w' kernel bias) ∧ w' ≠ 0 ∧ bias.length = w' := by
  rcases hget : p.get? key with _ | ⟨rows, columns, kernel, bias⟩ | ⟨gamma, beta⟩
  · simp [outputWidth, hget]
  · simp only [outputWidth, hget]
    constructor
    · intro h
      split at h
      · cases h
      split at h
      · cases h
      split at h
      · cases h
      rename_i hrows hcolumns hbias
      cases h
      exact ⟨kernel, bias, by rw [not_not.1 hrows], hcolumns, not_not.1 hbias⟩
    · rintro ⟨kernel', bias', ⟨⟩, hcolumns, hbias⟩
      rw [if_neg (not_not.2 rfl), if_neg hcolumns, if_neg (not_not.2 hbias)]
  · simp [outputWidth, hget]

/-- A normalization has a computed width exactly when its tensors have the width that has been
reached, which is not zero and stays. -/
theorem outputWidth_normalize_eq_ok {p : Parameters} {key : String} {w w' : Nat} :
    (Operation.normalize key).outputWidth p w = .ok w' ↔
      w' = w ∧ w ≠ 0 ∧
        ∃ gamma beta, p.get? key = some (.norm gamma beta) ∧ gamma.length = w ∧ beta.length = w := by
  rcases hget : p.get? key with _ | ⟨rows, columns, kernel, bias⟩ | ⟨gamma, beta⟩
  · simp [outputWidth, hget]
  · simp [outputWidth, hget]
  · simp only [outputWidth, hget]
    constructor
    · intro h
      split at h
      · cases h
      split at h
      · cases h
      split at h
      · cases h
      rename_i hzero hgamma hbeta
      cases h
      exact ⟨rfl, hzero, gamma, beta, rfl, not_not.1 hgamma, not_not.1 hbeta⟩
    · rintro ⟨rfl, hzero, gamma', beta', ⟨⟩, hgamma, hbeta⟩
      rw [if_neg hzero, if_neg (not_not.2 hgamma), if_neg (not_not.2 hbeta)]

/-- An operation without a key keeps every width. -/
theorem outputWidth_eq_ok_of_key?_eq_none {p : Parameters} {op : Operation} (hkey : op.key? = none)
    {w w' : Nat} : op.outputWidth p w = .ok w' ↔ w' = w := by
  cases op with
  | affine key => cases hkey
  | normalize key => cases hkey
  | relu => simp [outputWidth, eq_comm]
  | tanh => simp [outputWidth, eq_comm]

end Operation

/-! ## The whole loader -/

/-- A sub-network with one output passes its check exactly when its width is one. -/
theorem checkSingle_eq_ok {component : String} {width : Nat} :
    checkSingle component width = .ok () ↔ width = 1 := by
  unfold checkSingle
  split <;> simp_all

namespace Executor

/-- What loading has established when an executor was built, with the width of the embedding that
the value head reads. -/
structure LoadedFrom (a : Archive) (e : Executor) (valueWidth : Nat) : Prop where
  /-- The header is valid. -/
  valid : a.validate = .ok ()
  /-- The graph has all required sub-networks. -/
  complete : ∀ name ∈ requiredComponents, ∃ ops, a.header.graph.get? name = some ops
  /-- Every operation that can run is provided for. -/
  provides : ∀ op ∈ a.usedOperations, a.Provides op
  /-- The graph is the archive's. -/
  graph_eq : e.graph = a.header.graph
  /-- The epsilon is the archive's. -/
  epsilon_eq : e.epsilon = a.header.epsilon
  /-- The value path is the archive's. -/
  valuePath_eq : e.valuePath = a.valuePath
  /-- The tensors are those of the records that operations name. -/
  get?_parameters : ∀ key, e.parameters.get? key =
    if key ∈ a.usedOperations.filterMap Operation.key? then (a.record? key).map Record.tensors
    else none
  /-- The width of a state's embedding. -/
  state : outputWidth e.parameters stateSize (a.operations stateEncoder) = .ok e.stateWidth
  /-- The width of an action's embedding. -/
  action : outputWidth e.parameters actionSize (a.operations actionEncoder) = .ok e.actionWidth
  /-- The width of the embedding the value head reads. -/
  value : outputWidth e.parameters stateSize (a.operations a.valuePath.component) = .ok valueWidth
  /-- The scorer has one output. -/
  scorer : outputWidth e.parameters (e.stateWidth + e.actionWidth) (a.operations actionScorer) =
    .ok 1
  /-- The value head has one output. -/
  head : outputWidth e.parameters valueWidth (a.operations valueHead) = .ok 1

/-- A built executor has passed all checks. -/
theorem exists_loadedFrom {a : Archive} {e : Executor} (h : ofArchive a = .ok e) :
    ∃ valueWidth, LoadedFrom a e valueWidth := by
  unfold ofArchive at h
  obtain ⟨⟨⟩, hvalid, h⟩ := bind_eq_ok.1 h
  obtain ⟨⟨⟩, hcomplete, h⟩ := bind_eq_ok.1 h
  obtain ⟨p, hp, h⟩ := bind_eq_ok.1 h
  obtain ⟨s, hs, h⟩ := bind_eq_ok.1 h
  obtain ⟨t, ht, h⟩ := bind_eq_ok.1 h
  obtain ⟨v, hv, h⟩ := bind_eq_ok.1 h
  obtain ⟨one, hscorer, h⟩ := bind_eq_ok.1 h
  obtain ⟨⟨⟩, hone, h⟩ := bind_eq_ok.1 h
  obtain ⟨one', hhead, h⟩ := bind_eq_ok.1 h
  obtain ⟨⟨⟩, hone', h⟩ := bind_eq_ok.1 h
  obtain rfl := checkSingle_eq_ok.1 hone
  obtain rfl := checkSingle_eq_ok.1 hone'
  obtain rfl := pure_eq_ok.1 h
  exact ⟨v, hvalid, Archive.checkComponents_eq_ok.1 hcomplete,
    Archive.exists_collect_iff.1 ⟨p, hp⟩, rfl, rfl, rfl, Archive.get?_collect hp, hs, ht, hv,
    hscorer, hhead⟩

/-- If all checks pass, an executor is built. -/
theorem ofArchive_of_checks {a : Archive} {p : Parameters} {s t v : Nat}
    (hvalid : a.validate = .ok ())
    (hcomplete : ∀ name ∈ requiredComponents, ∃ ops, a.header.graph.get? name = some ops)
    (hp : a.collect .empty a.usedOperations = .ok p)
    (hs : outputWidth p stateSize (a.operations stateEncoder) = .ok s)
    (ht : outputWidth p actionSize (a.operations actionEncoder) = .ok t)
    (hv : outputWidth p stateSize (a.operations a.valuePath.component) = .ok v)
    (hscorer : outputWidth p (s + t) (a.operations actionScorer) = .ok 1)
    (hhead : outputWidth p v (a.operations valueHead) = .ok 1) :
    ofArchive a = .ok ⟨a.header.graph, p, a.header.epsilon, a.valuePath, s, t⟩ := by
  refine bind_eq_ok.2 ⟨(), hvalid, ?_⟩
  refine bind_eq_ok.2 ⟨(), Archive.checkComponents_eq_ok.2 hcomplete, ?_⟩
  refine bind_eq_ok.2 ⟨p, hp, ?_⟩
  refine bind_eq_ok.2 ⟨s, hs, bind_eq_ok.2 ⟨t, ht, bind_eq_ok.2 ⟨v, hv, ?_⟩⟩⟩
  refine bind_eq_ok.2 ⟨1, hscorer, bind_eq_ok.2 ⟨(), checkSingle_eq_ok.2 rfl, ?_⟩⟩
  exact bind_eq_ok.2 ⟨1, hhead, bind_eq_ok.2 ⟨(), checkSingle_eq_ok.2 rfl, rfl⟩⟩

end Executor

end PolicyValue
