import PolicyValue.Proofs.Slotwise
import PolicyValue.Proofs.Typing
import PolicyValue.Scalar.Binary32

/-!
# Which embedding the value head reads

The sub-network in front of the value head is chosen once, when an executor is built, by whether
records are there for the keys that the value state encoder names.

* `Archive.keys`: the keys that a sub-network names;
* `Executor.LoadedFrom.forall_record_or_forall_missing`: of the records that the value state encoder
  names, a built executor has found all or none;
* `Executor.value_readsThrough`: in front of the value head runs the value state encoder where it
  names keys and they have records, and the policy's encoder where none of them has;
* `Executor.value_not_readsThrough_keyless`: a value state encoder that names no key does not run.
-/

namespace PolicyValue

open Scalar (zero one)

namespace Archive

/-- The keys that the operations of a sub-network name, none if the graph lacks it. -/
def keys (a : Archive) (component : String) : List String :=
  (a.operations component).filterMap Operation.key?

/-- A key that a sub-network names belongs to one of its operations. -/
theorem mem_keys {a : Archive} {component key : String} :
    key ∈ a.keys component ↔ ∃ op ∈ a.operations component, op.key? = some key :=
  List.mem_filterMap

/-- An archive brings a value state encoder when some key that it names has a record. -/
theorem bringsValueEncoder_iff {a : Archive} :
    a.BringsValueEncoder ↔ ∃ key ∈ a.keys valueStateEncoder, ∃ record, a.record? key = some record := by
  constructor
  · rintro ⟨ops, hops, op, hop, key, hkey, hrecord⟩
    refine ⟨key, mem_keys.2 ⟨op, ?_, hkey⟩, hrecord⟩
    rw [operations, hops]
    exact hop
  · rintro ⟨key, hmem, hrecord⟩
    obtain ⟨op, hop, hkey⟩ := mem_keys.1 hmem
    cases hops : a.header.graph.get? valueStateEncoder with
    | none =>
      rw [operations, hops] at hop
      exact absurd hop List.not_mem_nil
    | some ops =>
      rw [operations, hops] at hop
      exact ⟨ops, hops, op, hop, key, hkey, hrecord⟩

/-- Without a record under any key that the value state encoder names, the value path is shared. -/
theorem valuePath_eq_shared_of_missing {a : Archive}
    (h : ∀ key ∈ a.keys valueStateEncoder, a.record? key = none) : a.valuePath = .shared := by
  rw [valuePath_eq_shared_iff, bringsValueEncoder_iff]
  rintro ⟨key, hkey, record, hrecord⟩
  rw [h key hkey] at hrecord
  cases hrecord

end Archive

namespace Executor

/-! ## The choice -/

/-- Where the value path is separate, every key that the value state encoder names has a record. -/
theorem LoadedFrom.exists_record_of_separate {a : Archive} {e : Executor} {v : Nat}
    (h : LoadedFrom a e v) (hpath : a.valuePath = .separate) {key : String}
    (hkey : key ∈ a.keys valueStateEncoder) : ∃ record, a.record? key = some record := by
  obtain ⟨op, hop, hop_key⟩ := Archive.mem_keys.1 hkey
  have hused : op ∈ a.usedOperations := by
    rw [Archive.usedOperations, hpath]
    exact List.mem_flatMap.2 ⟨valueStateEncoder, by simp [ValuePath.component], hop⟩
  exact (h.provides op hused).exists_record hop_key

/-- **A value state encoder is brought as a whole or not at all**: an archive in which only some of
the keys that it names have records is refused. -/
theorem LoadedFrom.forall_record_or_forall_missing {a : Archive} {e : Executor} {v : Nat}
    (h : LoadedFrom a e v) :
    (∀ key ∈ a.keys valueStateEncoder, ∃ record, a.record? key = some record) ∨
      ∀ key ∈ a.keys valueStateEncoder, a.record? key = none := by
  cases hpath : a.valuePath with
  | separate => exact .inl fun key hkey => h.exists_record_of_separate hpath hkey
  | shared =>
    refine .inr fun key hkey => ?_
    rw [Archive.valuePath_eq_shared_iff, Archive.bringsValueEncoder_iff] at hpath
    cases hrecord : a.record? key with
    | none => rfl
    | some record => exact absurd ⟨key, hkey, record, hrecord⟩ hpath

/-! ## The value of a state -/

section

variable [Arithmetic]

/-- A value is the first output of the value head on what a sub-network makes of a state. -/
def ReadsThrough (e : Executor) (component : String) (state : StateVector) (value : Float32) : Prop :=
  ∃ embedding rest, e.run component state.values = .ok embedding ∧
    e.run valueHead embedding = .ok (value :: rest)

/-- The value of a forward pass is read through the sub-network of the value path. -/
theorem Scores.readsThrough {e : Executor} {state : StateVector} {batch : ActionBatch}
    {scored : ScoredBatch} (h : e.Scores state batch scored) :
    e.ReadsThrough e.valuePath.component state scored.value := by
  cases h with
  | intro _ hvalue _ hhead => exact ⟨_, [], hvalue.run_eq, hhead.run_eq⟩

/-- **The value head reads the embedding of the value state encoder where that one names keys and
all of them have records, and the embedding of the policy's encoder where none of them has one**,
as when the graph has no value state encoder at all.  There is no third case. -/
theorem value_readsThrough {a : Archive} {e : Executor} (h : ofArchive a = .ok e)
    (state : StateVector) (batch : ActionBatch) :
    ∃ scored, e.score state batch = .ok scored ∧
      (a.keys valueStateEncoder ≠ [] →
        (∀ key ∈ a.keys valueStateEncoder, ∃ record, a.record? key = some record) →
          e.ReadsThrough valueStateEncoder state scored.value) ∧
      ((∀ key ∈ a.keys valueStateEncoder, a.record? key = none) →
        e.ReadsThrough stateEncoder state scored.value) ∧
      ((∀ key ∈ a.keys valueStateEncoder, ∃ record, a.record? key = some record) ∨
        ∀ key ∈ a.keys valueStateEncoder, a.record? key = none) := by
  obtain ⟨v, hload⟩ := exists_loadedFrom h
  obtain ⟨scored, hscores⟩ := hload.exists_scores state batch
  have hreads : e.ReadsThrough a.valuePath.component state scored.value :=
    hload.valuePath_eq ▸ hscores.readsThrough
  refine ⟨scored, hscores.score_eq, ?_, ?_, hload.forall_record_or_forall_missing⟩
  · intro hnamed hrecords
    obtain ⟨key, hkey⟩ := List.exists_mem_of_ne_nil _ hnamed
    have hbrings : a.BringsValueEncoder :=
      Archive.bringsValueEncoder_iff.2 ⟨key, hkey, hrecords key hkey⟩
    rw [Archive.valuePath_eq_separate_iff.2 hbrings] at hreads
    exact hreads
  · intro hmissing
    rw [Archive.valuePath_eq_shared_of_missing hmissing] at hreads
    exact hreads

end

/-- The value state encoder of the archive with a shared kernel names a key that has a record. -/
theorem value_readsThrough_sharedKernel : ∃ e, ofArchive sharedKernelArchive = .ok e ∧
    sharedKernelArchive.keys valueStateEncoder ≠ [] ∧
    (∀ key ∈ sharedKernelArchive.keys valueStateEncoder,
      ∃ record, sharedKernelArchive.record? key = some record) ∧
    ∀ [Arithmetic] (batch : ActionBatch), ∃ scored,
      e.score (.constant one) batch = .ok scored ∧
        e.ReadsThrough valueStateEncoder (.constant one) scored.value := by
  obtain ⟨e, he, -⟩ := exists_ofArchive_of_wellTyped sharedKernelArchive_wellTyped
  have hkeys : sharedKernelArchive.keys valueStateEncoder = ["shared"] := rfl
  have hnamed : sharedKernelArchive.keys valueStateEncoder ≠ [] := by
    rw [hkeys]
    exact List.cons_ne_nil _ _
  have hrecords : ∀ key ∈ sharedKernelArchive.keys valueStateEncoder,
      ∃ record, sharedKernelArchive.record? key = some record := by
    intro key hkey
    rw [hkeys] at hkey
    obtain rfl := List.mem_singleton.1 hkey
    exact ⟨_, rfl⟩
  refine ⟨e, he, hnamed, hrecords, ?_⟩
  intro _ batch
  obtain ⟨scored, hscore, hreads, -⟩ := value_readsThrough he (.constant one) batch
  exact ⟨scored, hscore, hreads hnamed hrecords⟩

/-! ## An encoder without keys -/

/-- An archive whose value state encoder hands the state on as it is, while the policy's encoder
takes the positive part. -/
def keylessEncoderArchive : Archive where
  header :=
    { version := archiveVersion
      stateSize := stateSize.toUInt64
      actionSize := actionSize.toUInt64
      graph := .ofList [(stateEncoder, [.relu]), (valueStateEncoder, []), (actionEncoder, []),
        (actionScorer, [.affine "score"]), (valueHead, [.affine "value"])]
      epsilon := Network.Config.defaultEpsilon }
  parameters := .ofList [
    ("score", .affine (List.replicate (stateSize + actionSize) [zero]) [zero]),
    ("value", .affine (List.replicate stateSize [one]) [zero])]

set_option maxRecDepth 2000 in
/-- **A value state encoder that names no key does not run**, although no record is missing.  The
value head adds up the features, 501 times minus one on the declared way; but it is given their
positive parts. -/
theorem value_not_readsThrough_keyless : ∃ e, ofArchive keylessEncoderArchive = .ok e ∧
    keylessEncoderArchive.header.graph.get? valueStateEncoder = some [] ∧
    (∀ key ∈ keylessEncoderArchive.keys valueStateEncoder,
      ∃ record, keylessEncoderArchive.record? key = some record) ∧
    e.score (.constant (-one)) ⟨[.constant one], [true], rfl, .head _⟩ = .ok ⟨[zero], zero⟩ ∧
    ¬ e.ReadsThrough valueStateEncoder (.constant (-one)) zero := by
  have hscore : (ofArchive keylessEncoderArchive >>= fun e =>
      e.score (.constant (-one)) ⟨[.constant one], [true], rfl, .head _⟩) = .ok ⟨[zero], zero⟩ := by
    decide +kernel
  have hdeclared : (ofArchive keylessEncoderArchive >>= fun e =>
      e.run valueStateEncoder (StateVector.constant (-one)).values >>= e.run valueHead) =
        .ok [Float32.ofBits 0xc3fa8000] := by
    decide +kernel
  obtain ⟨e, he, hscore⟩ := bind_eq_ok.1 hscore
  rw [he, ok_bind] at hdeclared
  refine ⟨e, he, rfl, ?_, hscore, ?_⟩
  · rintro key ⟨⟩
  · rintro ⟨embedding, rest, hrun, hhead⟩
    rw [hrun, ok_bind, hhead] at hdeclared
    have hvalue : zero = Float32.ofBits 0xc3fa8000 :=
      (List.cons.inj (Except.ok.inj hdeclared)).1
    exact absurd hvalue (by decide)

end Executor

end PolicyValue
