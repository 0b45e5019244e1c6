import PolicyValue.Dict
import PolicyValue.Json.Codec

/-!
# Operations and graphs

A `Graph` lists, for each sub-network, the operations that run one after the other.  An operation
is an affine map or a normalization with the parameters under a key, or one of two nonlinearities.

In JSON an operation is an object with the member `op` and, where it has one, the member `key`;
other members are ignored.  It may also be an array of these in order.
-/

namespace PolicyValue

/-- One step of a sub-network. -/
inductive Operation where
  /-- The affine map with the parameters under a key. -/
  | affine (key : String)
  /-- The normalization with the parameters under a key. -/
  | normalize (key : String)
  /-- The positive part. -/
  | relu
  /-- The hyperbolic tangent. -/
  | tanh
deriving DecidableEq, Repr

/-- The operations of each sub-network, in the order they run. -/
abbrev Graph := Dict (List Operation)

namespace Operation

/-- The key of an operation that has one. -/
def key? : Operation → Option String
  | .affine key => some key
  | .normalize key => some key
  | .relu => none
  | .tanh => none

/-- The name of an operation. -/
def name : Operation → String
  | .affine _ => "linear"
  | .normalize _ => "layernorm"
  | .relu => "relu"
  | .tanh => "tanh"

/-! ## JSON form -/

/-- The tree of an operation. -/
def encode (op : Operation) : Json :=
  .ofMembers <| ("op", .ofText op.name) ::
    match op.key? with
    | some key => [("key", .ofText key)]
    | none => []

/-- An operation as its name announces it, before its key is known. -/
inductive Kind where
  /-- An operation with a key. -/
  | keyed (build : String → Operation)
  /-- An operation without a key. -/
  | plain (op : Operation)

/-- The kind of operation that a name announces. -/
def Kind.ofName? : String → Option Kind
  | "linear" => some (.keyed .affine)
  | "layernorm" => some (.keyed .normalize)
  | "relu" => some (.plain .relu)
  | "tanh" => some (.plain .tanh)
  | _ => none

/-- The operation of a kind, given all strings and other values found under `key`. -/
def ofKind (kind : Kind) (keys : List (Option String)) : Except Fault Operation :=
  match kind, keys with
  | .plain op, _ => .ok op
  | .keyed build, [some key] => .ok (build key)
  | .keyed _, _ => .error .mismatched

/-- The text of a value that is a string. -/
def textOf? : Json → Option String
  | .string text => text
  | _ => none

variable [ScalarText]

/-- The kind of operation that the value of `op` names. -/
def decodeKind (j : Json) : Except Fault Kind := do
  let name ← Codec.text.decode j
  match Kind.ofName? name with
  | some kind => .ok kind
  | none => .error .mismatched

/-- Reads an object: its `op` as soon as it is met, all else strictly before it is judged. -/
def decodeMembers (room : Nat) (kind : Option Kind) (keys : List (Option String)) :
    Json.Members → Except Fault Operation
  | .stop (some fault) => .error fault
  | .stop none =>
    match kind with
    | some kind => ofKind kind keys
    | none => .error .mismatched
  | .member none _ _ => .error .malformed
  | .member (some name) value rest =>
    if name = "op" then
      if kind.isSome then .error .mismatched
      else do
        let kind ← decodeKind value
        decodeMembers room (some kind) keys rest
    else do
      Fault.refuse (value.readFault room)
      decodeMembers room kind (if name = "key" then textOf? value :: keys else keys) rest

/-- Reads an array: the name, then exactly the key, if the operation has one. -/
def decodeItems (room : Nat) : Json.Items → Except Fault Operation
  | .stop (some fault) => .error fault
  | .stop none => .error .mismatched
  | .item value rest => do
    let kind ← decodeKind value
    Fault.refuse (rest.readFault room)
    match kind, rest with
    | .plain op, .stop _ => .ok op
    | .keyed _, .item key (.stop _) => ofKind kind [textOf? key]
    | _, _ => .error .mismatched

/-- Operations in a place where `room` containers may still be nested, their own included. -/
def codec (room : Nat) : Codec Operation where
  encode := encode
  decode
    | .object members => decodeMembers (room - 1) none [] members
    | .array items => decodeItems (room - 1) items
    | j => .error j.mismatch

end Operation

namespace Graph

/-- The operations of a sub-network. -/
def operations? (graph : Graph) (name : String) : Except Error (List Operation) :=
  match graph.get? name with
  | some ops => .ok ops
  | none => .error (.unknownSubNetwork name)

variable [ScalarText]

/-- Reads the sub-networks of a graph; a later one replaces one of the same name. -/
def decodeMembers (room : Nat) (graph : Graph) : Json.Members → Except Fault Graph
  | .stop (some fault) => .error fault
  | .stop none => .ok graph
  | .member none _ _ => .error .malformed
  | .member (some name) value rest => do
    let ops ← (Operation.codec (room - 2)).list.decode value
    decodeMembers room (graph.insert name ops) rest

/-- Graphs in a place where `room` containers may still be nested, their own included. -/
def codec (room : Nat) : Codec Graph where
  encode graph :=
    .ofMembers (graph.entries.map fun (name, ops) =>
      (name, (Operation.codec (room - 2)).list.encode ops))
  decode
    | .object members => decodeMembers room .empty members
    | j => .error j.mismatch

end Graph

end PolicyValue
