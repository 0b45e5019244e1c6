import PolicyValue.Proofs.Codec

/-!
# Archives through text

What is written for an archive is read as this archive or refused, and the cause of a refusal is
known: the version, a scalar that is not finite, or the checks of the header, in this order.

* `Operation.faithful`, `Graph.faithful`, `Header.faithful`, `Record.faithful`: the parts of an
  archive are read back;
* `Archive.decode_encode`: so is the tree of an archive;
* `Archive.ofString_toString_eq_ite`: and its text.
-/

namespace PolicyValue

section

variable [ScalarText]

/-! ## Graphs -/

/-- Operations are read back. -/
theorem Operation.faithful (room : Nat) :
    (Operation.codec room).Faithful (fun _ => []) 1 where
  readFault_encode op _ room hroom := by
    obtain ⟨room, rfl⟩ : ∃ r, room = r + 1 := ⟨room - 1, by omega⟩
    cases op <;> rfl
  settle_encode op := by cases op <;> rfl
  decode_encode op _ := by cases op <;> rfl

/-- Lists of operations are read back. -/
theorem Operation.faithful_list (room : Nat) :
    (Operation.codec room).list.Faithful (fun _ => []) 2 :=
  (Operation.faithful room).list.congr fun _ => List.flatMap_eq_nil_iff.2 fun _ _ => rfl

/-- The sub-networks of a graph are read one after the other. -/
theorem Graph.decodeMembers_ofList (room : Nat) (graph : Graph)
    (pairs : List (String × List Operation)) :
    decodeMembers room graph (.ofList (pairs.map fun (name, ops) =>
      (name, (Operation.codec (room - 2)).list.encode ops))) =
        .ok (pairs.foldl (fun d (name, ops) => d.insert name ops) graph) := by
  induction pairs generalizing graph with
  | nil => rfl
  | cons p pairs ih =>
    rw [List.map_cons, Json.Members.ofList, decodeMembers,
      (Operation.faithful_list (room - 2)).decode_encode_of_nil, ok_bind, ih, List.foldl_cons]

/-- Graphs are read back. -/
theorem Graph.faithful (room : Nat) : (Graph.codec room).Faithful (fun _ => []) 3 where
  readFault_encode graph _ room' hroom := by
    obtain ⟨room', rfl⟩ : ∃ r, room' = r + 1 := ⟨room' - 1, by omega⟩
    refine Json.readFault_ofMembers fun m hm => ?_
    obtain ⟨p, -, rfl⟩ := List.mem_map.1 hm
    exact (Operation.faithful_list (room - 2)).readFault_encode p.2 (fun _ hx => by cases hx) room'
      (by omega)
  settle_encode graph := by
    refine Json.settle_ofMembers ?_ fun m hm => ?_
    · rw [List.map_map]
      exact graph.nodup_keys
    · obtain ⟨p, -, rfl⟩ := List.mem_map.1 hm
      exact (Operation.faithful_list (room - 2)).settle_encode p.2
  decode_encode graph _ := by
    show decodeMembers room .empty _ = _
    rw [decodeMembers_ofList]
    exact congrArg Except.ok graph.ofList_entries

/-! ## Headers and records -/

/-- Headers are read back if their epsilon is finite. -/
theorem Header.faithful : Header.codec.Faithful (fun h => [h.epsilon]) 4 := by
  have hword32 := Codec.faithful_word32.mono (Nat.zero_le 3)
  have hword64 := Codec.faithful_word64.mono (Nat.zero_le 3)
  have hscalar := Codec.faithful_scalar.mono (Nat.zero_le 3)
  have hfields : FaithfulFields 3 layout.fields _ _ :=
    .cons (hword32.required _ _ _) (.cons (hword64.required _ _ _) (.cons (hword64.required _ _ _)
      (.cons ((Graph.faithful _).required _ _ _) (.cons (hscalar.optional _ _ _) .nil))))
  have hnames : ["version", "state_size", "action_size", "graph", "layer_norm_eps"].Nodup := by
    decide
  exact (Layout.faithful hfields hnames fun _ => rfl).congr fun _ => rfl

namespace Record

/-- The scalars of a record, as they are written. -/
def scalars : Record → List Float32
  | .affine kernel bias => kernel.flatten ++ bias
  | .norm gamma beta => gamma ++ beta

/-- The members of an affine record are read back. -/
theorem faithful_affineLayout :
    affineLayout.codec.Faithful (fun r => r.1.flatten ++ r.2) 3 := by
  have hfields : FaithfulFields 2 affineLayout.fields _ _ :=
    .cons (Codec.faithful_rows.required _ _ _)
      (.cons ((Codec.faithful_scalars.mono (by decide)).required _ _ _) .nil)
  have hnames : ["kernel", "bias"].Nodup := by decide
  refine (Layout.faithful hfields hnames fun _ => rfl).congr fun r => ?_
  exact congrArg (r.1.flatten ++ ·) (List.append_nil r.2)

/-- The members of a normalization record are read back. -/
theorem faithful_normLayout : normLayout.codec.Faithful (fun r => r.1 ++ r.2) 2 := by
  have hscalars := Codec.faithful_scalars
  have hfields : FaithfulFields 1 normLayout.fields _ _ :=
    .cons (hscalars.required _ _ _) (.cons (hscalars.required _ _ _) .nil)
  have hnames : ["gamma", "beta"].Nodup := by decide
  refine (Layout.faithful hfields hnames fun _ => rfl).congr fun r => ?_
  exact congrArg (r.1 ++ ·) (List.append_nil r.2)

/-- The members of an affine record are not those of a normalization. -/
theorem exists_normLayout_eq_error (r : List (List Float32) × List Float32) :
    ∃ fault, normLayout.decodeMembers [] normLayout.initial
      (.ofList (Layout.members affineLayout.fields r)) = .error fault := by
  refine Layout.exists_decodeMembers_eq_error (.head _) rfl ?_ List.not_mem_nil _
  show "gamma" ∉ ["kernel", "bias"]
  decide

/-- The members of a normalization record are not those of an affine one. -/
theorem exists_affineLayout_eq_error (r : List Float32 × List Float32) :
    ∃ fault, affineLayout.decodeMembers [] affineLayout.initial
      (.ofList (Layout.members normLayout.fields r)) = .error fault := by
  refine Layout.exists_decodeMembers_eq_error (.head _) rfl ?_ List.not_mem_nil _
  show "kernel" ∉ ["gamma", "beta"]
  decide

/-- The members of an affine record are read as this record. -/
theorem decodeMembers_affine {kernel : List (List Float32)} {bias : List Float32}
    (h : ScalarText.ReadsBack (kernel.flatten ++ bias)) :
    decodeMembers (.ofList (Layout.members affineLayout.fields (kernel, bias))) =
      if Scalar.allFinite (kernel.flatten ++ bias) then .ok (.affine kernel bias)
      else .error .mismatched := by
  have haffine : affineLayout.decodeMembers [] affineLayout.initial
      (.ofList (Layout.members affineLayout.fields (kernel, bias))) = _ :=
    faithful_affineLayout.decode_encode (kernel, bias) h
  obtain ⟨fault, hnorm⟩ := exists_normLayout_eq_error (kernel, bias)
  rw [decodeMembers, haffine]
  -- A record refused for a scalar is tried again as a normalization, in vain.
  cases Scalar.allFinite (kernel.flatten ++ bias) with
  | true => rfl
  | false => simp only [Bool.false_eq_true, if_false, hnorm]

/-- The members of a normalization record are read as this record. -/
theorem decodeMembers_norm {gamma beta : List Float32} (h : ScalarText.ReadsBack (gamma ++ beta)) :
    decodeMembers (.ofList (Layout.members normLayout.fields (gamma, beta))) =
      if Scalar.allFinite (gamma ++ beta) then .ok (.norm gamma beta)
      else .error .mismatched := by
  have hnorm : normLayout.decodeMembers [] normLayout.initial
      (.ofList (Layout.members normLayout.fields (gamma, beta))) = _ :=
    faithful_normLayout.decode_encode (gamma, beta) h
  obtain ⟨fault, haffine⟩ := exists_affineLayout_eq_error (gamma, beta)
  rw [decodeMembers, haffine]
  simp only [hnorm]
  cases Scalar.allFinite (gamma ++ beta) <;> rfl

/-- A complete object is judged by its members alone. -/
theorem decode_ofMembers {ms : List (String × Json)}
    (h : (Json.ofMembers ms).readFault Json.maxDepth = none) :
    Record.codec.decode (.ofMembers ms) = decodeMembers (.ofList ms) := by
  show (Fault.refuse ((Json.ofMembers ms).readFault Json.maxDepth) >>= fun _ => _) = _
  rw [h]
  rfl

/-- Records are read back; the members of one kind are never taken for those of the other. -/
theorem faithful : Record.codec.Faithful Record.scalars 3 where
  readFault_encode
    | .affine kernel bias => faithful_affineLayout.readFault_encode (kernel, bias)
    | .norm gamma beta => (faithful_normLayout.mono (by decide)).readFault_encode (gamma, beta)
  settle_encode
    | .affine kernel bias => faithful_affineLayout.settle_encode (kernel, bias)
    | .norm gamma beta => faithful_normLayout.settle_encode (gamma, beta)
  decode_encode
    | .affine kernel bias, h => by
      have hstrict := faithful_affineLayout.readFault_encode (kernel, bias) h Json.maxDepth
        (by decide)
      exact (decode_ofMembers hstrict).trans (decodeMembers_affine h)
    | .norm gamma beta, h => by
      have hstrict := faithful_normLayout.readFault_encode (gamma, beta) h Json.maxDepth (by decide)
      exact (decode_ofMembers hstrict).trans (decodeMembers_norm h)

end Record

end

/-! ## Archives -/

namespace Archive

/-- The scalars of an archive, as they are written. -/
def scalars (a : Archive) : List Float32 :=
  a.header.epsilon :: a.parameters.entries.flatMap fun e => e.2.scalars

/-- No record stands under the key of the header. -/
theorem headerKey_notMem {a : Archive} (hkey : a.parameters.get? headerKey = none) :
    headerKey ∉ a.parameters.entries.map Prod.fst := by
  intro hmem
  have hcontains := (a.parameters.mem_keys_iff headerKey).1 hmem
  rw [Dict.contains, hkey] at hcontains
  cases hcontains

section

variable [ScalarText]

/-- Records are read one after the other, up to the first that is refused. -/
theorem decodeMembers_ofList (header : Header) (records : Dict Record)
    {pairs : List (String × Record)} (hkeys : headerKey ∉ pairs.map Prod.fst)
    (hscalars : ScalarText.ReadsBack (pairs.flatMap fun e => e.2.scalars)) :
    decodeMembers (some header) records
        (pairs.map fun (key, r) => (some key, Record.codec.encode r)) =
      if Scalar.allFinite (pairs.flatMap fun e => e.2.scalars) then
        .ok ⟨header, pairs.foldl (fun d (key, r) => d.insert key r) records⟩
      else .error .mismatched := by
  induction pairs generalizing records with
  | nil => rfl
  | cons p pairs ih =>
    rw [List.map_cons, List.mem_cons, not_or] at hkeys
    rw [List.flatMap_cons, ScalarText.readsBack_append] at hscalars
    rw [List.map_cons, decodeMembers, if_neg (Ne.symm hkeys.1), List.flatMap_cons,
      Scalar.allFinite_append, Record.faithful.decode_encode p.2 hscalars.1]
    cases Scalar.allFinite p.2.scalars with
    | true => exact ih (records.insert p.1 p.2) hkeys.2 hscalars.2
    | false => rfl

variable {a : Archive} (hkey : a.parameters.get? headerKey = none)
  (hscalars : ScalarText.ReadsBack a.scalars)

/-! ## The tree of an archive -/

/-- The members of the tree of an archive. -/
def members (a : Archive) : List (String × Json) :=
  (headerKey, Header.codec.encode a.header) ::
    a.parameters.entries.map fun (key, r) => (key, Record.codec.encode r)

/-- The tree declares the version of the header. -/
theorem declaredVersion?_encode (a : Archive) :
    declaredVersion? a.encode = some a.header.version.toNat := by
  have hheader : a.encode.member? headerKey = some (Header.codec.encode a.header) := rfl
  have hversion : (Header.codec.encode a.header).member? "version" =
      some (.ofNat a.header.version.toNat) := rfl
  have hword : a.header.version.toNat < Decimal.wordBound :=
    Nat.lt_trans a.header.version.toNat_lt (by decide)
  simp only [declaredVersion?, hheader, hversion, Option.bind_eq_bind, Option.bind_some,
    Codec.decodeNat_ofNat (Nat.le_refl _) hword, Except.toOption]

/-- Every version but the one that is read is refused by its number. -/
theorem checkVersion_encode (a : Archive) :
    checkVersion a.encode =
      if a.header.version = archiveVersion then .ok ()
      else .error (.unknownGraphVersion a.header.version) := by
  rw [checkVersion, declaredVersion?_encode]
  by_cases h : a.header.version = archiveVersion
  · rw [if_pos h]
    exact if_pos (congrArg UInt32.toNat h)
  · have hnat : a.header.version.toNat ≠ archiveVersion.toNat := fun heq =>
      h (UInt32.toNat_inj.1 heq)
    have hsize : a.header.version.toNat < UInt32.size := a.header.version.toNat_lt
    have hword : a.header.version.toNat.toUInt32 = a.header.version := a.header.version.ofNat_toNat
    simp only [if_neg h, if_neg hnat, if_pos hsize, hword]

include hkey

/-- No key is written twice. -/
theorem settle_encode : a.encode.settle = a.encode := by
  have hnodup : (a.members.map Prod.fst).Nodup := by
    rw [members, List.map_cons, List.nodup_cons, List.map_map]
    exact ⟨headerKey_notMem hkey, a.parameters.nodup_keys⟩
  refine Json.settle_ofMembers hnodup (List.forall_mem_cons.2 ⟨?_, fun m hm => ?_⟩)
  · exact Header.faithful.settle_encode a.header
  · obtain ⟨e, -, rfl⟩ := List.mem_map.1 hm
    exact Record.faithful.settle_encode e.2

include hscalars

/-- **The tree of an archive is read back**, or refused if a scalar is not finite. -/
theorem decode_encode :
    decode a.encode = if Scalar.allFinite a.scalars then .ok a else .error .mismatched := by
  obtain ⟨hepsilon, hrecords⟩ := List.forall_mem_cons.1 hscalars
  have hheader := Header.faithful.decode_encode a.header (List.forall_mem_singleton.2 hepsilon)
  have hmembers := decodeMembers_ofList a.header .empty (headerKey_notMem hkey) hrecords
  have hfinite : Scalar.allFinite a.scalars = (Scalar.allFinite [a.header.epsilon] &&
      Scalar.allFinite (a.parameters.entries.flatMap fun e => e.2.scalars)) :=
    Scalar.allFinite_append [a.header.epsilon] _
  have htree : decode a.encode =
      decodeMembers none .empty (Json.Members.ofList a.members).toList := rfl
  rw [htree, Json.Members.toList_ofList, members, List.map_cons, decodeMembers, if_pos rfl, hheader,
    List.map_map, hfinite]
  cases Scalar.allFinite [a.header.epsilon] with
  | true =>
    refine hmembers.trans ?_
    show (if _ then Except.ok (⟨a.header, .ofList a.parameters.entries⟩ : Archive) else _) = _
    rw [Dict.ofList_entries, Bool.true_and]
  | false => rfl

/-- The text of an archive reads as its tree. -/
theorem readTree_toString : readTree a.toString = .ok a.encode := by
  obtain ⟨hepsilon, hrecords⟩ := List.forall_mem_cons.1 hscalars
  have hfault : a.encode.readFault Json.maxDepth = none := by
    refine Json.readFault_ofMembers (List.forall_mem_cons.2 ⟨?_, fun m hm => ?_⟩)
    · exact Header.faithful.readFault_encode a.header (List.forall_mem_singleton.2 hepsilon) _
        (by decide)
    · obtain ⟨e, he, rfl⟩ := List.mem_map.1 hm
      refine Record.faithful.readFault_encode e.2 (fun x hx => hrecords x ?_) _ (by decide)
      exact List.mem_flatMap.2 ⟨e, he, hx⟩
  rw [readTree, toString, Document.ofString_text hfault]
  simp only [hfault, settle_encode hkey]
  rfl

/-- An archive of the version that is read is refused for a scalar or by the checks of its header,
or it is read back. -/
theorem ofString_toString_of_version (hversion : a.header.version = archiveVersion) :
    ofString a.toString =
      if Scalar.allFinite a.scalars then a.validate.map fun _ => a
      else .error (.json .mismatched) := by
  have hcheck := checkVersion_encode a
  rw [if_pos hversion] at hcheck
  rw [ofString, readTree_toString hkey hscalars]
  show (checkVersion a.encode >>= fun _ => _) = _
  rw [hcheck, ok_bind, decode_encode hkey hscalars]
  cases Scalar.allFinite a.scalars with
  | true =>
    show (a.validate >>= fun _ => pure a) = _
    cases a.validate <;> rfl
  | false => rfl

/-- Such an archive is read back exactly if its scalars are finite and its header is valid. -/
theorem ofString_toString_eq_ok (hversion : a.header.version = archiveVersion) {b : Archive} :
    ofString a.toString = .ok b ↔
      Scalar.allFinite a.scalars = true ∧ a.validate = .ok () ∧ b = a := by
  rw [ofString_toString_of_version hkey hscalars hversion]
  cases Scalar.allFinite a.scalars with
  | true =>
    rw [if_pos rfl, map_eq_ok]
    constructor
    · rintro ⟨⟨⟩, hvalid, rfl⟩
      exact ⟨rfl, hvalid, rfl⟩
    · rintro ⟨-, hvalid, rfl⟩
      exact ⟨(), hvalid, rfl⟩
  | false => simp

end

/-! ## The text of an archive -/

/-- **An archive passes through text unharmed or is refused**: for its version, for a scalar that is
not finite, or by the checks of its header. -/
theorem ofString_toString_eq_ite (a : Archive) (hkey : a.parameters.get? headerKey = none)
    (hscalars : ScalarText.ReadsBack a.scalars) :
    ofString a.toString =
      if a.header.version ≠ archiveVersion then
        .error (.unknownGraphVersion a.header.version)
      else if ∃ x ∈ a.scalars, x.isFinite = false then .error (.json .mismatched)
      else
        match a.validate with
        | .error e => .error e
        | .ok () => .ok a := by
  by_cases hversion : a.header.version = archiveVersion
  · rw [if_neg (not_not_intro hversion), ofString_toString_of_version hkey hscalars hversion]
    simp only [← Scalar.allFinite_eq_false_iff]
    cases Scalar.allFinite a.scalars with
    | true => cases a.validate <;> rfl
    | false => rfl
  · have hcheck := checkVersion_encode a
    rw [if_neg hversion] at hcheck
    rw [if_pos hversion, ofString, readTree_toString hkey hscalars]
    show (checkVersion a.encode >>= fun _ => _) = _
    rw [hcheck]
    rfl

/-- An archive with keys that need escapes, with a ragged and an empty kernel, and with scalars of
both signs and every size. -/
def ragged : Archive where
  header := ⟨archiveVersion, stateSize.toUInt64, actionSize.toUInt64,
    .ofList [("", []), ("a \"graph\"\n", [.affine "\t\\", .tanh, .normalize "\x00", .relu])],
    Float32.ofBits 0x3727c5ac⟩
  parameters := .ofList [
    ("\t\\", .affine [[Float32.ofBits 0x3dcccccd], [], [Scalar.one, Float32.ofBits 0x80000000]] []),
    ("\x00", .norm [] [Float32.ofBits 0x00000001]),
    ("_meta\x7f\r", .affine [] [Float32.ofBits 0xff7fffff])]

/-- This archive is read back. -/
theorem ofString_toString_ragged : ofString ragged.toString = .ok ragged := by
  have hkey : ragged.parameters.get? headerKey = none := by decide +kernel
  have hscalars : ScalarText.ReadsBack ragged.scalars := by
    rw [ScalarText.ReadsBack]
    decide +kernel
  have hversion : ¬ ragged.header.version ≠ archiveVersion := not_not_intro rfl
  have hfinite : ¬ ∃ x ∈ ragged.scalars, x.isFinite = false := by decide +kernel
  have hvalidate : ragged.validate = .ok () := by decide +kernel
  have hread := ofString_toString_eq_ite ragged hkey hscalars
  rwa [if_neg hversion, if_neg hfinite, hvalidate] at hread

end Archive

end PolicyValue
