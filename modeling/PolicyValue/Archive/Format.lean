import PolicyValue.Archive.Basic

/-!
# The JSON form of an archive

An archive is one object: the header under `_meta`, and beside it each record under its key.  A
record is told by its members, `kernel` and `bias` or `gamma` and `beta`.

Reading checks the version before the rest of the layout is trusted: `Archive.ofString` reads the
whole text, looks at the version, then at the structure, and validates the result.
-/

namespace PolicyValue

namespace Record

variable [ScalarText]

/-- The members of an affine record. -/
def affineLayout : Layout (List (List Float32) × List Float32) where
  initial := ([], [])
  fields := [
    Codec.scalar.list.list.required "kernel" (·.1) fun v r => (v, r.2),
    Codec.scalar.list.required "bias" (·.2) fun v r => (r.1, v)]

/-- The members of a normalization record. -/
def normLayout : Layout (List Float32 × List Float32) where
  initial := ([], [])
  fields := [
    Codec.scalar.list.required "gamma" (·.1) fun v r => (v, r.2),
    Codec.scalar.list.required "beta" (·.2) fun v r => (r.1, v)]

/-- Reads the members of an object, first as one kind of record, then as the other. -/
def decodeMembers (members : Json.Members) : Except Fault Record :=
  match affineLayout.decodeMembers [] affineLayout.initial members with
  | .ok (kernel, bias) => .ok (.affine kernel bias)
  | .error _ =>
    match normLayout.decodeMembers [] normLayout.initial members with
    | .ok (gamma, beta) => .ok (.norm gamma beta)
    | .error _ => .error .mismatched

/-- Records; the whole value is read strictly before its kind is looked for. -/
def codec : Codec Record where
  encode
    | .affine kernel bias => affineLayout.codec.encode (kernel, bias)
    | .norm gamma beta => normLayout.codec.encode (gamma, beta)
  decode j := do
    Fault.refuse (j.readFault Json.maxDepth)
    match j with
    | .object members => decodeMembers members
    | _ => .error .mismatched

end Record

namespace Header

variable [ScalarText]

/-- The members of a header. -/
def layout : Layout Header where
  initial := ⟨0, 0, 0, .empty, Network.Config.defaultEpsilon⟩
  fields := [
    Codec.word32.required "version" (·.version) fun v h => { h with version := v },
    Codec.word64.required "state_size" (·.stateSize) fun v h => { h with stateSize := v },
    Codec.word64.required "action_size" (·.actionSize) fun v h => { h with actionSize := v },
    (Graph.codec (Json.maxDepth - 1)).required "graph" (·.graph) fun v h => { h with graph := v },
    Codec.scalar.optional "layer_norm_eps" (·.epsilon) fun v h => { h with epsilon := v }]

/-- The JSON form of a header. -/
def codec : Codec Header := layout.codec

end Header

/-! ## Later members win -/

/-- Whether a key occurs among members. -/
def Json.Members.hasKey (key : Option String) : Json.Members → Bool
  | .stop _ => false
  | .member k _ rest => k == key || rest.hasKey key

namespace Json

mutual

/-- The tree in which every object keeps only the last member of each key. -/
def settle : Json → Json
  | .array items => .array items.settle
  | .object members => .object members.settle
  | j => j

/-- Values with settled objects. -/
def Items.settle : Items → Items
  | .stop fault => .stop fault
  | .item v rest => .item v.settle rest.settle

/-- Members of which only the last one of each key is kept. -/
def Members.settle : Members → Members
  | .stop fault => .stop fault
  | .member k v rest =>
    if rest.hasKey k then rest.settle else .member k v.settle rest.settle

end

/-- The value of a member of an object. -/
def member? (key : String) : Json → Option Json
  | .object members => (members.toList.find? fun (k, _) => k == some key).map (·.2)
  | _ => none

end Json

namespace Archive

/-- The key of the header. -/
def headerKey : String := "_meta"

section

variable [ScalarText]

/-- The tree of an archive. -/
def encode (a : Archive) : Json :=
  .ofMembers ((headerKey, Header.codec.encode a.header) ::
    a.parameters.entries.map fun (key, r) => (key, Record.codec.encode r))

/-- The text of an archive. -/
def toString (a : Archive) : String := a.encode.text

/-- Reads the members of a complete tree: the header and records under all other keys. -/
def decodeMembers : Option Header → Dict Record → List (Option String × Json) →
    Except Fault Archive
  | some header, records, [] => .ok ⟨header, records⟩
  | none, _, [] => .error .mismatched
  | _, _, (none, _) :: _ => .error .mismatched
  | header, records, (some key, value) :: rest => do
    if key = headerKey then
      let header ← Header.codec.decode value
      decodeMembers (some header) records rest
    else
      let r ← Record.codec.decode value
      decodeMembers header (records.insert key r) rest

/-- Reads the structure of a complete tree. -/
def decode : Json → Except Fault Archive
  | .object members => decodeMembers none .empty members.toList
  | _ => .error .mismatched

/-- The version that a tree declares, if it is written as a natural within a word. -/
def declaredVersion? (j : Json) : Option Nat := do
  let header ← j.member? headerKey
  let version ← header.member? "version"
  (Codec.decodeNat Decimal.wordBound version).toOption

/-- Refuses every declared version but the one that is read. -/
def checkVersion (j : Json) : Except Error Unit :=
  match declaredVersion? j with
  | none => .error (.unknownGraphVersion 0)
  | some version =>
    if version = archiveVersion.toNat then .ok ()
    else if version < UInt32.size then .error (.unknownGraphVersion version.toUInt32)
    else .error (.unknownGraphVersion 0xffffffff)

/-- Reads a whole text strictly as a tree in which later members have replaced earlier ones. -/
def readTree (s : String) : Except Fault Json := do
  let d := Document.ofString s
  Fault.refuse (d.value.readFault Json.maxDepth)
  if d.trailing then .error .malformed else .ok d.value.settle

/-- Reads an archive.  The text itself is judged first, then the version, then the structure. -/
def ofString (s : String) : Except Error Archive := do
  let tree ← (readTree s).mapError .json
  checkVersion tree
  let a ← (decode tree).mapError fun _ => .json .mismatched
  a.validate
  return a

end

end Archive

end PolicyValue
