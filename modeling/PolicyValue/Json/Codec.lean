import PolicyValue.Json.Reader
import PolicyValue.Json.Writer

/-!
# Codecs

A `Codec α` writes values of a type as JSON trees and reads them back.  Readers walk a tree from
left to right, and the first thing they cannot accept decides: a value of the wrong type where it
begins, a repeated member where it repeats, a missing one at the closing brace.

* `Codec.word32`, `Codec.word64`, `Codec.scalar`, `Codec.text`, `Codec.list`: the parts;
* `Layout.codec`: a structure, member by member;
* `Codec.ofString`: a whole text as one value.
-/

namespace PolicyValue

/-- A way to write values as JSON and to read them back. -/
structure Codec (α : Type) where
  /-- The tree of a value. -/
  encode : α → Json
  /-- The value of a tree. -/
  decode : Json → Except Fault α

namespace Codec

variable {α : Type}

/-- The text of a value. -/
def toString (c : Codec α) (a : α) : String := (c.encode a).text

variable [ScalarText]

/-! ## Parts -/

/-- Naturals below a bound; no other number will do, be it as small. -/
def decodeNat (bound : Nat) : Json → Except Fault Nat
  | .number l =>
    match l.integer? with
    | some (.ofNat n) => if n < bound then .ok n else .error .mismatched
    | some (.negSucc _) => .error .mismatched
    | none => .error (Json.number l).mismatch
  | j => .error j.mismatch

/-- Words of 64 bits. -/
def word64 : Codec UInt64 where
  encode n := .ofNat n.toNat
  decode j := (decodeNat UInt64.size j).map UInt64.ofNat

/-- Words of 32 bits. -/
def word32 : Codec UInt32 where
  encode n := .ofNat n.toNat
  decode j := (decodeNat UInt32.size j).map UInt32.ofNat

/-- Scalars; one that is not finite is written as `null`, which no reader takes for a scalar. -/
def scalar : Codec Float32 where
  encode x := if x.isFinite then .number (ScalarText.write x) else .null
  decode
    | .number l => match ScalarText.read l with
      | some x => .ok x
      | none => .error .malformed
    | j => .error j.mismatch

/-- Strings. -/
def text : Codec String where
  encode := .ofText
  decode
    | .string (some s) => .ok s
    | j => .error j.mismatch

/-- The values of an array, each read by `decode`. -/
def decodeItems (decode : Json → Except Fault α) : Json.Items → Except Fault (List α)
  | .stop none => .ok []
  | .stop (some fault) => .error fault
  | .item j rest => do
    let a ← decode j
    let as ← decodeItems decode rest
    return a :: as

/-- Lists, as arrays. -/
def list (c : Codec α) : Codec (List α) where
  encode as := .ofItems (as.map c.encode)
  decode
    | .array items => decodeItems c.decode items
    | j => .error j.mismatch

/-- Values that stand for those of another type and are refused where they stand for none. -/
def restrict {β : Type} (c : Codec α) (of : α → Option β) (back : β → α) : Codec β where
  encode b := c.encode (back b)
  decode j := do
    let a ← c.decode j
    match of a with
    | some b => .ok b
    | none => .error .mismatched

/-! ## Whole texts -/

/-- Reads a whole text as one value; what follows it is refused last. -/
def ofString (c : Codec α) (s : String) : Except Fault α := do
  let d := Document.ofString s
  let a ← c.decode d.value
  if d.trailing then .error .malformed else .ok a

end Codec

/-! ## Structures -/

/-- A member of a structure. -/
structure Field (σ : Type) where
  /-- The key. -/
  name : String
  /-- The member may be left out and then keeps its initial value. -/
  optional : Bool
  /-- The member's tree. -/
  encode : σ → Json
  /-- The change that a tree makes to the structure. -/
  decode : Json → Except Fault (σ → σ)

/-- A structure's members in the order in which they are written, with their initial values. -/
structure Layout (σ : Type) where
  /-- The structure before any member is read. -/
  initial : σ
  /-- The members. -/
  fields : List (Field σ)

namespace Codec

variable {α σ : Type}

/-- The member `name`, which has to be present. -/
def required (c : Codec α) (name : String) (get : σ → α) (set : α → σ → σ) : Field σ :=
  ⟨name, false, fun s => c.encode (get s), fun j => (c.decode j).map set⟩

/-- The member `name`, which may be left out. -/
def optional (c : Codec α) (name : String) (get : σ → α) (set : α → σ → σ) : Field σ :=
  { c.required name get set with optional := true }

end Codec

namespace Layout

variable {σ : Type}

/-- Reads members in whatever order they stand; unknown ones are skipped. -/
def decodeMembers (l : Layout σ) (seen : List String) (s : σ) : Json.Members → Except Fault σ
  | .stop (some fault) => .error fault
  | .stop none =>
    if l.fields.all fun f => f.optional || seen.contains f.name then .ok s
    else .error .mismatched
  | .member none _ _ => .error .malformed
  | .member (some key) value rest =>
    match l.fields.find? (·.name == key) with
    | none => do
      Fault.refuse value.skipFault
      l.decodeMembers seen s rest
    | some f =>
      if seen.contains key then .error .mismatched
      else do
        let change ← f.decode value
        l.decodeMembers (key :: seen) (change s) rest

/-- Reads members in their order from an array, in which optional ones may be left out at the end
and nothing may follow the last. -/
def decodeItems (s : σ) : List (Field σ) → Json.Items → Except Fault σ
  | _, .stop (some fault) => .error fault
  | fields, .stop none => if fields.all (·.optional) then .ok s else .error .mismatched
  | [], .item _ _ => .error .malformed
  | f :: fields, .item value rest => do
    let change ← f.decode value
    decodeItems (change s) fields rest

/-- A structure as an object; an array of its members is read too. -/
def codec [ScalarText] (l : Layout σ) : Codec σ where
  encode s := .ofMembers (l.fields.map fun f => (f.name, f.encode s))
  decode
    | .object members => l.decodeMembers [] l.initial members
    | .array items => decodeItems l.initial l.fields items
    | j => .error j.mismatch

end Layout

end PolicyValue
