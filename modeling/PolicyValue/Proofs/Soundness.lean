import PolicyValue.Proofs.Affine
import PolicyValue.Proofs.Typing

/-!
# Soundness of the width check

The widths found once when an executor is built imply every check of every later run.

* `Executor.Replays`: a run on whose way nothing fails and no normalization meets an empty vector;
* `Executor.exists_replays`: progress and preservation, over a list whose widths were computed;
* `Executor.Scores`: a whole forward pass made of such runs, each single output being there;
* `Executor.forward_never_fails`: a built executor scores every state and batch.

Inputs of another width are refused by the first operation that has a key
(`Executor.foldlM_step_eq_error`).
-/

namespace PolicyValue

/-- A model that scores a batch has a policy for it. -/
theorem Evaluator.policy_eq_ok [Arithmetic] {ε : Type} [Evaluator ε] {model : ε}
    {state : StateVector} {batch : ActionBatch} {scored : ScoredBatch}
    (h : Evaluator.score model state batch = .ok scored) :
    Evaluator.policy model state batch = .ok ⟨maskedSoftmax scored.scores, scored.value⟩ := by
  rw [Evaluator.policy, h]
  rfl

namespace Executor

variable [Arithmetic]

/-! ## Runs without failure -/

/-- Running operations from one vector ends with another: no operation fails, and no normalization
is of an empty vector. -/
inductive Replays (e : Executor) : List Operation → List Float32 → List Float32 → Prop
  | nil {x : List Float32} : Replays e [] x x
  | cons {op : Operation} {ops : List Operation} {x y z : List Float32}
      (head : e.step x op = .ok y) (nonempty : ∀ key, op = .normalize key → x ≠ [])
      (tail : Replays e ops y z) : Replays e (op :: ops) x z

/-- A sub-network runs from one vector to another without failure. -/
def Runs (e : Executor) (component : String) (x y : List Float32) : Prop :=
  ∃ ops, e.graph.get? component = some ops ∧ e.Replays ops x y

/-- Operations that run without failure give the result they run to. -/
theorem Replays.foldlM_step {e : Executor} {ops : List Operation} {x y : List Float32}
    (h : e.Replays ops x y) : ops.foldlM e.step x = .ok y := by
  induction h with
  | nil => rfl
  | cons head _ _ ih => rw [List.foldlM_cons, head, ok_bind, ih]

/-- A sub-network of the graph is run by its operations. -/
theorem run_eq_foldlM {e : Executor} {component : String} {ops : List Operation}
    (hops : e.graph.get? component = some ops) (x : List Float32) :
    e.run component x = ops.foldlM e.step x := by
  rw [run, Graph.operations?, hops]
  rfl

/-- A sub-network that runs without failure gives the result it runs to. -/
theorem Runs.run_eq {e : Executor} {component : String} {x y : List Float32}
    (h : e.Runs component x y) : e.run component x = .ok y := by
  obtain ⟨ops, hops, hreplays⟩ := h
  rw [run_eq_foldlM hops, hreplays.foldlM_step]

/-- A sub-network runs to one result only. -/
theorem Runs.unique {e : Executor} {component : String} {x y z : List Float32}
    (hy : e.Runs component x y) (hz : e.Runs component x z) : y = z :=
  Except.ok.inj (hy.run_eq.symm.trans hz.run_eq)

/-! ## Progress and preservation -/

/-- An operation whose width was computed takes every vector of that width, and gives one of the
computed width. -/
theorem exists_step {e : Executor} {op : Operation} {w w' : Nat}
    (h : op.outputWidth e.parameters w = .ok w') {x : List Float32} (hx : x.length = w) :
    ∃ y, e.step x op = .ok y ∧ y.length = w' := by
  cases op with
  | affine key =>
    obtain ⟨kernel, bias, hget, -, hbias⟩ := Operation.outputWidth_affine_eq_ok.1 h
    refine ⟨affine x kernel bias, ?_, ?_⟩
    · simp only [step, hget, if_neg (not_not.2 hx)]
    · rw [length_affine, hbias]
  | normalize key =>
    obtain ⟨rfl, -, gamma, beta, hget, hgamma, hbeta⟩ := Operation.outputWidth_normalize_eq_ok.1 h
    have hlen : x.length = gamma.length := hx.trans hgamma.symm
    refine ⟨normalize x gamma beta e.epsilon, ?_, ?_⟩
    · simp only [step, hget, if_neg (not_not.2 hlen)]
    · rw [length_normalize e.epsilon hlen.symm (hbeta.trans hx.symm), hx]
  | relu =>
    cases h
    exact ⟨x.map rectify, rfl, by rw [List.length_map, hx]⟩
  | tanh =>
    cases h
    exact ⟨x.map tanh, rfl, by rw [List.length_map, hx]⟩

/-- Operations whose widths were computed run from every vector of the first width, and end with one
of the last. -/
theorem exists_replays {e : Executor} {ops : List Operation} {w w' : Nat}
    (h : outputWidth e.parameters w ops = .ok w') {x : List Float32} (hx : x.length = w) :
    ∃ y, e.Replays ops x y ∧ y.length = w' := by
  induction ops generalizing w x with
  | nil =>
    cases h
    exact ⟨x, .nil, hx⟩
  | cons op ops ih =>
    rw [outputWidth, List.foldlM_cons, bind_eq_ok] at h
    obtain ⟨between, hhead, htail⟩ := h
    obtain ⟨y, hy, hylen⟩ := exists_step hhead hx
    obtain ⟨z, hz, hzlen⟩ := ih htail hylen
    refine ⟨z, .cons hy ?_ hz, hzlen⟩
    -- The width check refuses a normalization at width zero.
    rintro key rfl rfl
    obtain ⟨-, hzero, -⟩ := Operation.outputWidth_normalize_eq_ok.1 hhead
    exact hzero hx.symm

/-- An operation without a key keeps the length of every vector. -/
theorem exists_step_of_key?_eq_none {e : Executor} {op : Operation} (hkey : op.key? = none)
    (x : List Float32) : ∃ y, e.step x op = .ok y ∧ y.length = x.length := by
  cases op with
  | affine key => cases hkey
  | normalize key => cases hkey
  | relu => exact ⟨x.map rectify, rfl, List.length_map _⟩
  | tanh => exact ⟨x.map tanh, rfl, List.length_map _⟩

/-- An operation with a key refuses every vector of another width than the computed one. -/
theorem step_eq_error {e : Executor} {op : Operation} {key : String} {w w' : Nat}
    (hkey : op.key? = some key) (h : op.outputWidth e.parameters w = .ok w') {x : List Float32}
    (hx : x.length ≠ w) : e.step x op = .error (.shapeMismatch (key ++ " input") x.length w) := by
  cases op with
  | affine k =>
    cases hkey
    obtain ⟨kernel, bias, hget, -⟩ := Operation.outputWidth_affine_eq_ok.1 h
    simp only [step, hget, if_pos hx]
  | normalize k =>
    cases hkey
    obtain ⟨-, -, gamma, beta, hget, rfl, -⟩ := Operation.outputWidth_normalize_eq_ok.1 h
    simp only [step, hget, if_pos hx]
  | relu => cases hkey
  | tanh => cases hkey

/-- Vectors of another length than the computed one are refused by the first operation with a
key. -/
theorem foldlM_step_eq_error {e : Executor} {ops : List Operation} {key : String} {w w' : Nat}
    (hkey : ops.findSome? Operation.key? = some key)
    (h : outputWidth e.parameters w ops = .ok w') {x : List Float32} (hx : x.length ≠ w) :
    ops.foldlM e.step x = .error (.shapeMismatch (key ++ " input") x.length w) := by
  induction ops generalizing x with
  | nil => cases hkey
  | cons op ops ih =>
    rw [outputWidth, List.foldlM_cons, bind_eq_ok] at h
    obtain ⟨between, hhead, htail⟩ := h
    cases hop : op.key? with
    | some k =>
      rw [List.findSome?_cons, hop] at hkey
      cases hkey
      rw [List.foldlM_cons, step_eq_error hop hhead hx, error_bind]
    | none =>
      -- Nothing is checked here, and both the vector and the computed width keep their lengths.
      rw [List.findSome?_cons, hop] at hkey
      obtain rfl := (Operation.outputWidth_eq_ok_of_key?_eq_none hop).1 hhead
      obtain ⟨y, hy, hylen⟩ := exists_step_of_key?_eq_none (e := e) hop x
      rw [List.foldlM_cons, hy, ok_bind, ← hylen]
      exact ih hkey htail (hylen ▸ hx)

end Executor

/-! ## The sub-networks in use -/

/-- A sub-network that an executor runs, with the widths of its inputs and outputs. -/
structure Role where
  /-- Its name in the graph. -/
  component : String
  /-- The width of its inputs. -/
  input : Nat
  /-- The width of its outputs. -/
  output : Nat

namespace Executor

/-- The sub-networks an executor runs, with the widths found when it was built; the value head reads
embeddings of width `valueWidth`. -/
def roles (e : Executor) (valueWidth : Nat) : List Role :=
  [⟨stateEncoder, stateSize, e.stateWidth⟩, ⟨e.valuePath.component, stateSize, valueWidth⟩,
    ⟨actionEncoder, actionSize, e.actionWidth⟩, ⟨actionScorer, e.stateWidth + e.actionWidth, 1⟩,
    ⟨valueHead, valueWidth, 1⟩]

/-- The graph has every sub-network in use, with operations whose output width was computed. -/
theorem LoadedFrom.exists_operations {a : Archive} {e : Executor} {v : Nat} (h : LoadedFrom a e v)
    {role : Role} (hrole : role ∈ e.roles v) :
    ∃ ops, e.graph.get? role.component = some ops ∧
      outputWidth e.parameters role.input ops = .ok role.output := by
  have hrequired : ∀ name ∈ requiredComponents,
      e.graph.get? name = some (a.operations name) := fun name hname => by
    rw [h.graph_eq]
    exact Archive.get?_graph (h.complete name hname)
  have hpath : e.graph.get? e.valuePath.component = some (a.operations a.valuePath.component) := by
    rw [h.graph_eq, h.valuePath_eq]
    cases hpath : a.valuePath with
    | separate =>
      obtain ⟨ops, hops, -⟩ := Archive.valuePath_eq_separate_iff.1 hpath
      exact Archive.get?_graph ⟨ops, hops⟩
    | shared => exact Archive.get?_graph (h.complete stateEncoder (by decide))
  simp only [roles, List.mem_cons, List.not_mem_nil, or_false] at hrole
  rcases hrole with rfl | rfl | rfl | rfl | rfl
  · exact ⟨_, hrequired stateEncoder (by decide), h.state⟩
  · exact ⟨_, hpath, h.value⟩
  · exact ⟨_, hrequired actionEncoder (by decide), h.action⟩
  · exact ⟨_, hrequired actionScorer (by decide), h.scorer⟩
  · exact ⟨_, hrequired valueHead (by decide), h.head⟩

variable [Arithmetic]

/-- Every sub-network in use runs from each vector of its input width. -/
theorem LoadedFrom.exists_runs {a : Archive} {e : Executor} {v : Nat} (h : LoadedFrom a e v)
    (role : Role) (hrole : role ∈ e.roles v) {x : List Float32} (hx : x.length = role.input) :
    ∃ y, e.Runs role.component x y ∧ y.length = role.output := by
  obtain ⟨ops, hops, hwidth⟩ := h.exists_operations hrole
  obtain ⟨y, hy, hylen⟩ := exists_replays hwidth hx
  exact ⟨y, ⟨ops, hops, hy⟩, hylen⟩

/-! ## Forward passes -/

/-- A forward pass in which nothing fails: every sub-network runs, and the scorer and the value head
have the one output that is read. -/
inductive Scores (e : Executor) (state : StateVector) (batch : ActionBatch) : ScoredBatch → Prop
  | intro {embedding valueEmbedding scores : List Float32} {value : Float32}
      (state_runs : e.Runs stateEncoder state.values embedding)
      (value_runs : e.Runs e.valuePath.component state.values valueEmbedding)
      (actions_run : List.Forall₂ (fun action score => ∃ encoded,
        e.Runs actionEncoder action.values encoded ∧
          e.Runs actionScorer (embedding ++ encoded) [score]) batch.actions scores)
      (head_runs : e.Runs valueHead valueEmbedding [value]) :
      Scores e state batch ⟨maskScores scores batch.mask, value⟩

/-- Actions whose encoder and scorer run have the scores they run to. -/
theorem mapM_scoreAction_eq_ok {e : Executor} {embedding : List Float32}
    {actions : List ActionVector} {scores : List Float32}
    (h : List.Forall₂ (fun action score => ∃ encoded, e.Runs actionEncoder action.values encoded ∧
      e.Runs actionScorer (embedding ++ encoded) [score]) actions scores) :
    actions.mapM (e.scoreAction embedding) = .ok scores := by
  refine mapM_eq_ok.2 (h.imp ?_)
  rintro action score ⟨encoded, hencoded, hscore⟩
  rw [scoreAction, hencoded.run_eq, ok_bind, hscore.run_eq, ok_bind]
  rfl

/-- A forward pass in which nothing fails is what scoring computes. -/
theorem Scores.score_eq {e : Executor} {state : StateVector} {batch : ActionBatch}
    {scored : ScoredBatch} (h : e.Scores state batch scored) : e.score state batch = .ok scored := by
  cases h with
  | @intro embedding valueEmbedding scores value hstate hvalue hactions hhead =>
    have hscores : batch.actions.mapM (e.scoreAction embedding) = .ok scores :=
      mapM_scoreAction_eq_ok hactions
    unfold score
    rw [if_neg (Nat.ne_of_gt batch.validCount_pos)]
    refine bind_eq_ok.2 ⟨embedding, hstate.run_eq, ?_⟩
    cases hpath : e.valuePath with
    | separate =>
      rw [hpath] at hvalue
      refine bind_eq_ok.2 ⟨valueEmbedding, hvalue.run_eq, bind_eq_ok.2 ⟨scores, hscores, ?_⟩⟩
      exact bind_eq_ok.2 ⟨[value], hhead.run_eq, rfl⟩
    | shared =>
      -- The one run that is made gave both embeddings.
      rw [hpath] at hvalue
      obtain rfl : embedding = valueEmbedding := hstate.unique hvalue
      refine bind_eq_ok.2 ⟨embedding, rfl, bind_eq_ok.2 ⟨scores, hscores, ?_⟩⟩
      exact bind_eq_ok.2 ⟨[value], hhead.run_eq, rfl⟩

/-- A forward pass has one score per slot of the batch. -/
theorem Scores.length_scores {e : Executor} {state : StateVector} {batch : ActionBatch}
    {scored : ScoredBatch} (h : e.Scores state batch scored) :
    scored.scores.length = batch.size := by
  cases h with
  | intro _ _ hactions _ => rw [length_maskScores, ← hactions.length_eq, ActionBatch.size]

/-- A built executor has one value for a state and one score for each action in it, whatever batch
the action is in. -/
theorem LoadedFrom.exists_scoring {a : Archive} {e : Executor} {v : Nat} (h : LoadedFrom a e v)
    (state : StateVector) : ∃ (score : ActionVector → Float32) (value : Float32),
      ∀ batch : ActionBatch,
        e.Scores state batch ⟨maskScores (batch.actions.map score) batch.mask, value⟩ := by
  obtain ⟨embedding, hstate, hembedding⟩ :=
    h.exists_runs ⟨stateEncoder, stateSize, e.stateWidth⟩ (by simp [roles]) state.length_values
  obtain ⟨valueEmbedding, hvalue, hvalueEmbedding⟩ :=
    h.exists_runs ⟨e.valuePath.component, stateSize, v⟩ (by simp [roles]) state.length_values
  have hactions : ∀ action : ActionVector, ∃ score, ∃ encoded,
      e.Runs actionEncoder action.values encoded ∧
        e.Runs actionScorer (embedding ++ encoded) [score] := by
    intro action
    obtain ⟨encoded, hencoded, hwidth⟩ :=
      h.exists_runs ⟨actionEncoder, actionSize, e.actionWidth⟩ (by simp [roles])
        action.length_values
    have hjoint : (embedding ++ encoded).length = e.stateWidth + e.actionWidth := by
      rw [List.length_append, hembedding, hwidth]
    obtain ⟨y, hy, hone⟩ :=
      h.exists_runs ⟨actionScorer, e.stateWidth + e.actionWidth, 1⟩ (by simp [roles]) hjoint
    obtain ⟨score, rfl⟩ := List.length_eq_one_iff.1 hone
    exact ⟨score, encoded, hencoded, hy⟩
  choose score hscore using hactions
  obtain ⟨y, hy, hone⟩ :=
    h.exists_runs ⟨valueHead, v, 1⟩ (by simp [roles]) hvalueEmbedding
  obtain ⟨value, rfl⟩ := List.length_eq_one_iff.1 hone
  refine ⟨score, value, fun batch => .intro hstate hvalue ?_ hy⟩
  exact List.forall₂_map_right_iff.2 (List.forall₂_same.2 fun action _ => hscore action)

/-- A built executor passes forward over every state and batch. -/
theorem LoadedFrom.exists_scores {a : Archive} {e : Executor} {v : Nat} (h : LoadedFrom a e v)
    (state : StateVector) (batch : ActionBatch) : ∃ scored, e.Scores state batch scored := by
  obtain ⟨score, value, hscores⟩ := h.exists_scoring state
  exact ⟨_, hscores batch⟩

/-- **A built executor cannot fail in a forward pass.**  Every state and batch passes forward, with
one score and one probability per slot.  Every sub-network in use runs from each vector of its input
width to one of its output width, and if it has an operation with a key, it refuses all others. -/
theorem forward_never_fails {a : Archive} {e : Executor} (h : ofArchive a = .ok e) :
    (∀ state batch, ∃ scored prediction, e.Scores state batch scored ∧
      Evaluator.score e state batch = .ok scored ∧ scored.scores.length = batch.size ∧
      Evaluator.policy e state batch = .ok prediction ∧ prediction.policy.length = batch.size) ∧
    ∃ valueWidth, ∀ role ∈ e.roles valueWidth, ∃ ops,
      e.graph.get? role.component = some ops ∧
      outputWidth e.parameters role.input ops = .ok role.output ∧
      (∀ x, x.length = role.input → ∃ y, e.Runs role.component x y ∧
        e.run role.component x = .ok y ∧ y.length = role.output) ∧
      ((∃ op ∈ ops, op.key?.isSome = true) → ∀ x, x.length ≠ role.input →
        ∃ key, ops.findSome? Operation.key? = some key ∧
          e.run role.component x =
            .error (.shapeMismatch (key ++ " input") x.length role.input)) := by
  obtain ⟨v, hload⟩ := exists_loadedFrom h
  constructor
  · intro state batch
    obtain ⟨scored, hscored⟩ := hload.exists_scores state batch
    have hscore : Evaluator.score e state batch = .ok scored := hscored.score_eq
    have hlength : scored.scores.length = batch.size := hscored.length_scores
    refine ⟨scored, _, hscored, hscore, hlength, Evaluator.policy_eq_ok hscore, ?_⟩
    rw [length_maskedSoftmax, hlength]
  · refine ⟨v, ?_⟩
    intro role hrole
    obtain ⟨ops, hops, hwidth⟩ := hload.exists_operations hrole
    refine ⟨ops, hops, hwidth, ?_, ?_⟩
    · intro x hx
      obtain ⟨y, hy, hylen⟩ := hload.exists_runs role hrole hx
      exact ⟨y, hy, hy.run_eq, hylen⟩
    · intro hkeyed x hx
      obtain ⟨key, hkey⟩ := Option.isSome_iff_exists.1 (List.findSome?_isSome_iff.2 hkeyed)
      refine ⟨key, hkey, ?_⟩
      rw [run_eq_foldlM hops, foldlM_step_eq_error hkey hwidth hx]

end Executor

/-- The executor of the archive with a shared kernel scores every state and batch. -/
theorem Executor.forward_never_fails_sharedKernel : ∃ e, ofArchive sharedKernelArchive = .ok e ∧
    ∀ [Arithmetic] (state : StateVector) (batch : ActionBatch), ∃ scored prediction,
      Evaluator.score e state batch = .ok scored ∧ scored.scores.length = batch.size ∧
      Evaluator.policy e state batch = .ok prediction ∧ prediction.policy.length = batch.size := by
  obtain ⟨e, he, -⟩ := exists_ofArchive_of_wellTyped sharedKernelArchive_wellTyped
  refine ⟨e, he, ?_⟩
  intro _ state batch
  obtain ⟨scored, prediction, -, hforward⟩ := (forward_never_fails he).1 state batch
  exact ⟨scored, prediction, hforward⟩

end PolicyValue
