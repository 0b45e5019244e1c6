import PolicyValue.Proofs.Loader

/-!
# Well-typed archives

An operation list types from one width to another when each operation finds the record it needs
with the width that has been reached.  `Archive.Takes` says this of one operation and
`Archive.Types` of a list; neither mentions the loader or its tensors.

* `outputWidth_eq_ok_iff`: over loaded tensors, the computed width is the typed one;
* `ofArchive_isOk_iff_wellTyped`: the loader accepts exactly the well-typed archives.
-/

namespace PolicyValue

/-! ## Typed operations -/

namespace Archive

/-- An operation takes vectors of one width to vectors of another, by the records of an archive. -/
inductive Takes (a : Archive) : Operation → Nat → Nat → Prop
  | affine {key : String} {kernel : List (List Float32)} {bias : List Float32} {rows columns : Nat}
      (found : a.record? key = some (.affine kernel bias)) (length_kernel : kernel.length = rows)
      (length_row : ∀ row ∈ kernel, row.length = columns) (columns_pos : 1 ≤ columns)
      (length_bias : bias.length = columns) : Takes a (.affine key) rows columns
  | normalize {key : String} {gamma beta : List Float32} {width : Nat}
      (found : a.record? key = some (.norm gamma beta)) (length_gamma : gamma.length = width)
      (length_beta : beta.length = width) : Takes a (.normalize key) width width
  | relu {width : Nat} : Takes a .relu width width
  | tanh {width : Nat} : Takes a .tanh width width

/-- Operations that run one after the other take vectors of one width to vectors of another. -/
inductive Types (a : Archive) : List Operation → Nat → Nat → Prop
  | nil {width : Nat} : Types a [] width width
  | cons {op : Operation} {ops : List Operation} {before between after : Nat}
      (head : a.Takes op before between) (tail : Types a ops between after) :
      Types a (op :: ops) before after

/-- The widths of an affine map whose record is known. -/
theorem takes_affine_iff {a : Archive} {key : String} {kernel : List (List Float32)}
    {bias : List Float32} (found : a.record? key = some (.affine kernel bias)) {w w' : Nat} :
    a.Takes (.affine key) w w' ↔
      kernel.length = w ∧ (∀ row ∈ kernel, row.length = w') ∧ 1 ≤ w' ∧ bias.length = w' := by
  constructor
  · intro h
    cases h with
    | affine found' hkernel hrow hpos hbias =>
      obtain ⟨rfl, rfl⟩ := Record.affine.inj (Option.some.inj (found.symm.trans found'))
      exact ⟨hkernel, hrow, hpos, hbias⟩
  · rintro ⟨hkernel, hrow, hpos, hbias⟩
    exact .affine found hkernel hrow hpos hbias

/-- The widths of a normalization whose record is known. -/
theorem takes_normalize_iff {a : Archive} {key : String} {gamma beta : List Float32}
    (found : a.record? key = some (.norm gamma beta)) {w w' : Nat} :
    a.Takes (.normalize key) w w' ↔ w' = w ∧ gamma.length = w ∧ beta.length = w := by
  constructor
  · intro h
    cases h with
    | normalize found' hgamma hbeta =>
      obtain ⟨rfl, rfl⟩ := Record.norm.inj (Option.some.inj (found.symm.trans found'))
      exact ⟨rfl, hgamma, hbeta⟩
  · rintro ⟨rfl, hgamma, hbeta⟩
    exact .normalize found hgamma hbeta

/-- No operation makes a positive width zero. -/
theorem Takes.pos {a : Archive} {op : Operation} {w w' : Nat} (h : a.Takes op w w') (hw : 0 < w) :
    0 < w' := by
  cases h with
  | affine _ _ _ columns_pos _ => exact columns_pos
  | normalize _ _ _ => exact hw
  | relu => exact hw
  | tanh => exact hw

/-- No list of operations makes a positive width zero. -/
theorem Types.pos {a : Archive} {ops : List Operation} {w w' : Nat} (h : a.Types ops w w')
    (hw : 0 < w) : 0 < w' := by
  induction h with
  | nil => exact hw
  | cons head _ ih => exact ih (head.pos hw)

/-- The affine maps of typed operations have outputs. -/
theorem Types.bias_pos {a : Archive} {ops : List Operation} {w w' : Nat} (h : a.Types ops w w')
    {key : String} (hop : .affine key ∈ ops) {kernel : List (List Float32)} {bias : List Float32}
    (found : a.record? key = some (.affine kernel bias)) : 1 ≤ bias.length := by
  induction h with
  | nil => cases hop
  | cons head _ ih =>
    rcases List.mem_cons.1 hop with rfl | hop
    · obtain ⟨-, -, hpos, hbias⟩ := (takes_affine_iff found).1 head
      rwa [hbias]
    · exact ih hop

/-- The parameters of a typed operation can be laid out. -/
theorem Takes.provides {a : Archive} {op : Operation} {w w' : Nat} (h : a.Takes op w w') :
    a.Provides op := by
  cases h with
  | affine found _ length_row _ _ => exact ⟨_, _, found, _, length_row⟩
  | normalize found _ _ => exact ⟨_, _, found⟩
  | relu => trivial
  | tanh => trivial

/-- The parameters of all operations of a typed list can be laid out. -/
theorem Types.provides {a : Archive} {ops : List Operation} {w w' : Nat} (h : a.Types ops w w') :
    ∀ op ∈ ops, a.Provides op := by
  induction h with
  | nil => intro op hop; cases hop
  | cons head _ ih => exact List.forall_mem_cons.2 ⟨head.provides, ih⟩

/-- Typed lists one after the other. -/
theorem Types.append {a : Archive} {ops ops' : List Operation} {w w' w'' : Nat}
    (h : a.Types ops w w') (h' : a.Types ops' w' w'') : a.Types (ops ++ ops') w w'' := by
  induction h with
  | nil => exact h'
  | cons head _ ih => exact .cons head (ih h')

end Archive

/-! ## Typing and computed widths -/

/-- Tensors hold the records of an archive for the keys that some operations name. -/
def HoldsRecords (a : Archive) (p : Parameters) (ops : List Operation) : Prop :=
  ∀ op ∈ ops, a.Provides op ∧
    ∀ key, op.key? = some key → p.get? key = (a.record? key).map Record.tensors

/-- Over the tensors of its record, an operation's computed width is the typed one. -/
theorem Operation.outputWidth_eq_ok_iff {a : Archive} {p : Parameters} {op : Operation} {w w' : Nat}
    (hprovides : a.Provides op)
    (hget : ∀ key, op.key? = some key → p.get? key = (a.record? key).map Record.tensors)
    (hw : 0 < w) : op.outputWidth p w = .ok w' ↔ a.Takes op w w' := by
  cases op with
  | affine key =>
    obtain ⟨kernel, bias, found, columns, hrow⟩ := hprovides
    have hp := hget key rfl
    rw [found, Option.map_some, Record.tensors] at hp
    rw [Operation.outputWidth_affine_eq_ok, Archive.takes_affine_iff found, hp]
    -- A positive width rules out a kernel without rows, whose columns would be free.
    have hne : kernel.length = w → kernel ≠ [] := fun h => List.ne_nil_of_length_pos (h ▸ hw)
    constructor
    · rintro ⟨_, _, ⟨⟩, hcolumns, hbias⟩
      have hhead := length_head_of_length (hne rfl) hrow
      exact ⟨rfl, hhead ▸ hrow, Nat.one_le_iff_ne_zero.2 hcolumns, hbias⟩
    · rintro ⟨hrows, hrow', hpos, hbias⟩
      rw [length_head_of_length (hne hrows) hrow', hrows]
      exact ⟨_, _, rfl, Nat.one_le_iff_ne_zero.1 hpos, hbias⟩
  | normalize key =>
    obtain ⟨gamma, beta, found⟩ := hprovides
    have hp := hget key rfl
    rw [found, Option.map_some, Record.tensors] at hp
    rw [Operation.outputWidth_normalize_eq_ok, Archive.takes_normalize_iff found, hp]
    constructor
    · rintro ⟨hsame, -, _, _, ⟨⟩, hgamma, hbeta⟩
      exact ⟨hsame, hgamma, hbeta⟩
    · rintro ⟨hsame, hgamma, hbeta⟩
      exact ⟨hsame, Nat.ne_of_gt hw, _, _, rfl, hgamma, hbeta⟩
  | relu =>
    rw [Operation.outputWidth_eq_ok_of_key?_eq_none rfl]
    exact ⟨fun h => h ▸ .relu, fun h => by cases h; rfl⟩
  | tanh =>
    rw [Operation.outputWidth_eq_ok_of_key?_eq_none rfl]
    exact ⟨fun h => h ▸ .tanh, fun h => by cases h; rfl⟩

/-- Over loaded tensors, the computed width is the typed one. -/
theorem outputWidth_eq_ok_iff {a : Archive} {p : Parameters} {ops : List Operation} {w w' : Nat}
    (h : HoldsRecords a p ops) (hw : 0 < w) : outputWidth p w ops = .ok w' ↔ a.Types ops w w' := by
  -- Positive widths stay positive, which the step needs again behind its first operation.
  induction ops generalizing w with
  | nil =>
    rw [outputWidth, List.foldlM_nil, pure_eq_ok]
    exact ⟨fun h => h ▸ .nil, fun h => by cases h; rfl⟩
  | cons op ops ih =>
    have hop := h op (.head _)
    have hrest : HoldsRecords a p ops := fun o ho => h o (.tail _ ho)
    rw [outputWidth, List.foldlM_cons, bind_eq_ok]
    constructor
    · rintro ⟨between, hhead, htail⟩
      have htakes := (Operation.outputWidth_eq_ok_iff hop.1 hop.2 hw).1 hhead
      exact .cons htakes ((ih hrest (htakes.pos hw)).1 htail)
    · rintro (_ | ⟨htakes, htypes⟩)
      exact ⟨_, (Operation.outputWidth_eq_ok_iff hop.1 hop.2 hw).2 htakes,
        (ih hrest (htakes.pos hw)).2 htypes⟩

/-! ## Well-typed archives -/

/-- An archive whose sub-networks fit together: a state embedding of width `s`, an action embedding
of width `t`, an embedding of width `v` for the value, and one output each for scorer and head. -/
structure Archive.WellTyped (a : Archive) (s t v : Nat) : Prop where
  /-- The header is valid. -/
  valid : a.validate = .ok ()
  /-- The graph has the four sub-networks that cannot be left out. -/
  complete : ∀ name ∈ [stateEncoder, actionEncoder, actionScorer, valueHead],
    ∃ ops, a.header.graph.get? name = some ops
  /-- The state encoder of the policy. -/
  state : a.Types (a.operations stateEncoder) stateSize s
  /-- The action encoder. -/
  action : a.Types (a.operations actionEncoder) actionSize t
  /-- The value state encoder, if there is one. -/
  separate : a.BringsValueEncoder → a.Types (a.operations valueStateEncoder) stateSize v
  /-- Otherwise the value reads the state encoder of the policy. -/
  shared : ¬ a.BringsValueEncoder → a.Types (a.operations stateEncoder) stateSize v
  /-- The action scorer. -/
  scorer : a.Types (a.operations actionScorer) (s + t) 1
  /-- The value head. -/
  head : a.Types (a.operations valueHead) v 1

/-- The operations on the value path of a well-typed archive. -/
theorem Archive.WellTyped.value {a : Archive} {s t v : Nat} (h : a.WellTyped s t v) :
    a.Types (a.operations a.valuePath.component) stateSize v := by
  cases hpath : a.valuePath with
  | separate => exact h.separate (valuePath_eq_separate_iff.1 hpath)
  | shared => exact h.shared (valuePath_eq_shared_iff.1 hpath)

/-- All operations of a well-typed archive that can run are provided for. -/
theorem Archive.WellTyped.provides {a : Archive} {s t v : Nat} (h : a.WellTyped s t v) :
    ∀ op ∈ a.usedOperations, a.Provides op := by
  intro op hop
  simp only [usedOperations, List.mem_flatMap, List.mem_cons, List.not_mem_nil, or_false] at hop
  obtain ⟨name, rfl | rfl | rfl | rfl | rfl, hop⟩ := hop
  · exact h.state.provides op hop
  · exact h.value.provides op hop
  · exact h.action.provides op hop
  · exact h.scorer.provides op hop
  · exact h.head.provides op hop

/-- The used sub-networks' operations are among those that can run. -/
theorem Archive.mem_usedOperations {a : Archive} {name : String} {op : Operation}
    (hname : name ∈ [stateEncoder, a.valuePath.component, actionEncoder, actionScorer, valueHead])
    (hop : op ∈ a.operations name) : op ∈ a.usedOperations :=
  List.mem_flatMap.2 ⟨name, hname, hop⟩

/-- Tensors that hold all records that operations name hold those of each used sub-network. -/
theorem holds_operations {a : Archive} {p : Parameters}
    (hprovides : ∀ op ∈ a.usedOperations, a.Provides op)
    (hget : ∀ key, p.get? key =
      if key ∈ a.usedOperations.filterMap Operation.key? then (a.record? key).map Record.tensors
      else none)
    {name : String}
    (hname : name ∈ [stateEncoder, a.valuePath.component, actionEncoder, actionScorer, valueHead]) :
    HoldsRecords a p (a.operations name) := by
  intro op hop
  have hused : op ∈ a.usedOperations := Archive.mem_usedOperations hname hop
  refine ⟨hprovides op hused, ?_⟩
  intro key hkey
  rw [hget key, if_pos (List.mem_filterMap.2 ⟨op, hused, hkey⟩)]

namespace Executor

/-- A loaded archive is well typed, with the widths of the executor. -/
theorem LoadedFrom.wellTyped {a : Archive} {e : Executor} {v : Nat} (h : LoadedFrom a e v) :
    a.WellTyped e.stateWidth e.actionWidth v := by
  have hholds : ∀ name ∈ [stateEncoder, a.valuePath.component, actionEncoder, actionScorer,
      valueHead], HoldsRecords a e.parameters (a.operations name) := fun name hname =>
    holds_operations h.provides h.get?_parameters hname
  have hstate := (outputWidth_eq_ok_iff (hholds stateEncoder (by simp)) (by decide)).1 h.state
  have haction := (outputWidth_eq_ok_iff (hholds actionEncoder (by simp)) (by decide)).1 h.action
  have hvalue := (outputWidth_eq_ok_iff (hholds a.valuePath.component (by simp)) (by decide)).1
    h.value
  have hscorer : 0 < e.stateWidth + e.actionWidth :=
    Nat.add_pos_left (hstate.pos (by decide)) _
  refine ⟨h.valid, h.complete, hstate, haction, ?_, ?_, ?_, ?_⟩
  · intro hbrings
    rwa [Archive.valuePath_eq_separate_iff.2 hbrings] at hvalue
  · intro hbrings
    rwa [Archive.valuePath_eq_shared_iff.2 hbrings] at hvalue
  · exact (outputWidth_eq_ok_iff (hholds actionScorer (by simp)) hscorer).1 h.scorer
  · exact (outputWidth_eq_ok_iff (hholds valueHead (by simp)) (hvalue.pos (by decide))).1 h.head

/-- A well-typed archive is loaded, with its widths. -/
theorem exists_ofArchive_of_wellTyped {a : Archive} {s t v : Nat} (h : a.WellTyped s t v) :
    ∃ e, ofArchive a = .ok e ∧ e.stateWidth = s ∧ e.actionWidth = t := by
  obtain ⟨p, hp⟩ : ∃ p, a.collect .empty a.usedOperations = .ok p :=
    Archive.exists_collect_iff.2 h.provides
  have hholds : ∀ name ∈ [stateEncoder, a.valuePath.component, actionEncoder, actionScorer,
      valueHead], HoldsRecords a p (a.operations name) := fun name hname =>
    holds_operations h.provides (Archive.get?_collect hp) hname
  have hscorer : 0 < s + t := Nat.add_pos_left (h.state.pos (by decide)) _
  have hstate : outputWidth p stateSize (a.operations stateEncoder) = .ok s :=
    (outputWidth_eq_ok_iff (hholds stateEncoder (by simp)) (by decide)).2 h.state
  have haction : outputWidth p actionSize (a.operations actionEncoder) = .ok t :=
    (outputWidth_eq_ok_iff (hholds actionEncoder (by simp)) (by decide)).2 h.action
  have hvalue : outputWidth p stateSize (a.operations a.valuePath.component) = .ok v :=
    (outputWidth_eq_ok_iff (hholds a.valuePath.component (by simp)) (by decide)).2 h.value
  have hone : outputWidth p (s + t) (a.operations actionScorer) = .ok 1 :=
    (outputWidth_eq_ok_iff (hholds actionScorer (by simp)) hscorer).2 h.scorer
  have hhead : outputWidth p v (a.operations valueHead) = .ok 1 :=
    (outputWidth_eq_ok_iff (hholds valueHead (by simp)) (h.value.pos (by decide))).2 h.head
  exact ⟨_, ofArchive_of_checks h.valid h.complete hp hstate haction hvalue hone hhead, rfl, rfl⟩

/-- An executor has a value state encoder exactly when its archive brings one. -/
theorem hasValueEncoder_iff {a : Archive} {e : Executor} (h : ofArchive a = .ok e) :
    e.hasValueEncoder = true ↔ a.BringsValueEncoder := by
  obtain ⟨v, hload⟩ := exists_loadedFrom h
  rw [hasValueEncoder, decide_eq_true_iff, hload.valuePath_eq, Archive.valuePath_eq_separate_iff]

/-- **The loader accepts exactly the well-typed archives**, and the widths it finds are those of the
typing. -/
theorem ofArchive_isOk_iff_wellTyped (a : Archive) :
    ((∃ e, ofArchive a = .ok e) ↔ ∃ s t v, a.WellTyped s t v) ∧
      ∀ e s t v, ofArchive a = .ok e → a.WellTyped s t v →
        e.stateWidth = s ∧ e.actionWidth = t ∧
          (e.hasValueEncoder = true ↔ a.BringsValueEncoder) := by
  refine ⟨⟨?_, ?_⟩, ?_⟩
  · rintro ⟨e, he⟩
    obtain ⟨v, hload⟩ := exists_loadedFrom he
    exact ⟨_, _, v, hload.wellTyped⟩
  · rintro ⟨s, t, v, h⟩
    obtain ⟨e, he, -⟩ := exists_ofArchive_of_wellTyped h
    exact ⟨e, he⟩
  · intro e s t v he h
    obtain ⟨e', he', hs, ht⟩ := exists_ofArchive_of_wellTyped h
    obtain rfl := Except.ok.inj (he.symm.trans he')
    exact ⟨hs, ht, hasValueEncoder_iff he⟩

end Executor

/-! ## An archive with a shared kernel -/

/-- An archive in which both state encoders use one kernel, the action encoder has no parameters,
and the scorer starts with a normalization. -/
def sharedKernelArchive : Archive where
  header :=
    { version := archiveVersion
      stateSize := stateSize.toUInt64
      actionSize := actionSize.toUInt64
      graph := .ofList [(stateEncoder, [.affine "shared"]),
        (valueStateEncoder, [.affine "shared", .relu]), (actionEncoder, [.relu]),
        (actionScorer, [.normalize "scale", .affine "score"]),
        (valueHead, [.affine "value", .tanh])]
      epsilon := Scalar.one }
  parameters := .ofList [
    ("shared", .affine (List.replicate stateSize [Scalar.one]) [Scalar.zero]),
    ("scale", .norm (List.replicate 55 Scalar.one) (List.replicate 55 Scalar.zero)),
    ("score", .affine (List.replicate 55 [Scalar.one]) [Scalar.zero]),
    ("value", .affine [[Scalar.one]] [Scalar.zero])]

/-- Rows of one entry. -/
theorem length_of_mem_replicate_singleton (n : Nat) (x : Float32) :
    ∀ row ∈ List.replicate n [x], row.length = 1 := by
  intro row hr
  rw [List.eq_of_mem_replicate hr, List.length_singleton]

/-- The archive with a shared kernel is well typed. -/
theorem sharedKernelArchive_wellTyped : sharedKernelArchive.WellTyped 1 54 1 := by
  have hshared : sharedKernelArchive.Takes (.affine "shared") stateSize 1 :=
    .affine rfl List.length_replicate (length_of_mem_replicate_singleton _ _) (Nat.le_refl 1) rfl
  have hscale : sharedKernelArchive.Takes (.normalize "scale") 55 55 :=
    .normalize rfl List.length_replicate List.length_replicate
  have hscore : sharedKernelArchive.Takes (.affine "score") 55 1 :=
    .affine rfl List.length_replicate (length_of_mem_replicate_singleton _ _) (Nat.le_refl 1) rfl
  have hvalue : sharedKernelArchive.Takes (.affine "value") 1 1 :=
    .affine rfl rfl (length_of_mem_replicate_singleton 1 _) (Nat.le_refl 1) rfl
  refine ⟨by decide, ?_, ?_, ?_, ?_, ?_, ?_, ?_⟩
  · intro name hname
    simp only [List.mem_cons, List.not_mem_nil, or_false] at hname
    rcases hname with rfl | rfl | rfl | rfl
    · exact ⟨_, rfl⟩
    · exact ⟨_, rfl⟩
    · exact ⟨_, rfl⟩
    · exact ⟨_, rfl⟩
  · exact .cons hshared .nil
  · exact .cons .relu .nil
  · exact fun _ => .cons hshared (.cons .relu .nil)
  · exact fun _ => .cons hshared .nil
  · exact .cons hscale (.cons hscore .nil)
  · exact .cons hvalue (.cons .tanh .nil)

/-- The loader accepts the archive with a shared kernel, with the widths of its typing. -/
theorem Executor.ofArchive_isOk_sharedKernel : ∃ e, Executor.ofArchive sharedKernelArchive = .ok e ∧
    e.stateWidth = 1 ∧ e.actionWidth = 54 ∧ e.hasValueEncoder = true := by
  obtain ⟨hiff, hwidths⟩ := ofArchive_isOk_iff_wellTyped sharedKernelArchive
  have htyped := sharedKernelArchive_wellTyped
  obtain ⟨e, he⟩ := hiff.2 ⟨1, 54, 1, htyped⟩
  obtain ⟨hstate, haction, hvalue⟩ := hwidths e 1 54 1 he htyped
  have hbrings : sharedKernelArchive.BringsValueEncoder :=
    ⟨_, rfl, _, .head _, _, rfl, _, rfl⟩
  exact ⟨e, he, hstate, haction, hvalue.2 hbrings⟩

end PolicyValue
