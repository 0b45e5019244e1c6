import PolicyValue.Error
import PolicyValue.Decimal.Reading

/-!
# JSON trees, as far as a text reads

A `Json` is the tree of a text up to the place where the text stops being JSON.  A complete text
gives a tree without faults; a broken one gives a tree in which the fault stands where reading
broke off, so that whoever walks the tree from left to right meets first what comes first in the
text.

Two ways of reading differ in what they forgive:

* strict reading (`Json.readFault`) refuses strings whose surrogate escapes do not pair, numbers
  out of range, and more than a given number of nested containers;
* skipping (`Json.skipFault`) accepts all of these.
-/

namespace PolicyValue

open Decimal (Literal)

mutual

/-- A JSON value as far as its text reads. -/
inductive Json where
  /-- The literal `null`. -/
  | null
  /-- The literals `true` and `false`. -/
  | bool (value : Bool)
  /-- A number. -/
  | number (literal : Literal)
  /-- A string; there is no text when surrogate escapes do not pair. -/
  | string (text : Option String)
  /-- An array. -/
  | array (items : Json.Items)
  /-- An object. -/
  | object (members : Json.Members)
  /-- The text is no value here: what reading says to that, and what skipping says. -/
  | cut (read skipped : Fault)

/-- The values of an array up to its bracket or to the place where the text breaks. -/
inductive Json.Items where
  /-- No further value: the closing bracket, or a fault. -/
  | stop (fault : Option Fault)
  /-- A value and what follows it. -/
  | item (value : Json) (rest : Json.Items)

/-- The members of an object up to its brace or to the place where the text breaks. -/
inductive Json.Members where
  /-- No further member: the closing brace, or a fault. -/
  | stop (fault : Option Fault)
  /-- A key, which has no text when surrogate escapes do not pair, a value, and what follows. -/
  | member (key : Option String) (value : Json) (rest : Json.Members)

end

deriving instance DecidableEq for Json, Json.Items, Json.Members

namespace Json

/-! ## Complete trees -/

/-- A list of values as the values of an array. -/
def Items.ofList : List Json → Items
  | [] => .stop none
  | v :: vs => .item v (ofList vs)

/-- A list of keys and values as the members of an object. -/
def Members.ofList : List (String × Json) → Members
  | [] => .stop none
  | (k, v) :: rest => .member (some k) v (ofList rest)

/-- The string with this text. -/
def ofText (s : String) : Json := .string (some s)

/-- The number of a natural. -/
def ofNat (n : Nat) : Json := .number (Literal.ofNat n)

/-- The array of these values. -/
def ofItems (vs : List Json) : Json := .array (.ofList vs)

/-- The object with these members. -/
def ofMembers (ms : List (String × Json)) : Json := .object (.ofList ms)

/-- The values that were read, without the fault behind them. -/
def Items.toList : Items → List Json
  | .stop _ => []
  | .item v rest => v :: rest.toList

/-- The members that were read, without the fault behind them. -/
def Members.toList : Members → List (Option String × Json)
  | .stop _ => []
  | .member k v rest => (k, v) :: rest.toList

/-! ## Strict reading and skipping -/

section

variable [ScalarText]

mutual

/-- The first fault of a strict reading that admits `room` nested containers. -/
def readFault (room : Nat) : Json → Option Fault
  | .null => none
  | .bool _ => none
  | .number l => if l.inRange then none else some .malformed
  | .string text => if text.isSome then none else some .malformed
  | .array items => match room with
    | 0 => some .malformed
    | room + 1 => items.readFault room
  | .object members => match room with
    | 0 => some .malformed
    | room + 1 => members.readFault room
  | .cut read _ => some read

/-- The first fault of a strict reading of an array's values. -/
def Items.readFault (room : Nat) : Items → Option Fault
  | .stop fault => fault
  | .item v rest => (v.readFault room).or (rest.readFault room)

/-- The first fault of a strict reading of an object's members. -/
def Members.readFault (room : Nat) : Members → Option Fault
  | .stop fault => fault
  | .member none _ _ => some .malformed
  | .member (some _) v rest => (v.readFault room).or (rest.readFault room)

end

/-- What a reader says to a value of another type than it expects.  A container is refused where it
begins, everything else once it is read. -/
def mismatch : Json → Fault
  | .cut read _ => read
  | .string none => .malformed
  | .number l => if l.inRange then .mismatched else .malformed
  | _ => .mismatched

end

mutual

/-- The first fault of skipping a value. -/
def skipFault : Json → Option Fault
  | .array items => items.skipFault
  | .object members => members.skipFault
  | .cut _ skipped => some skipped
  | _ => none

/-- The first fault of skipping an array's values. -/
def Items.skipFault : Items → Option Fault
  | .stop fault => fault
  | .item v rest => v.skipFault.or rest.skipFault

/-- The first fault of skipping an object's members. -/
def Members.skipFault : Members → Option Fault
  | .stop fault => fault
  | .member _ v rest => v.skipFault.or rest.skipFault

end

/-- The containers a text may nest in a strict reading. -/
def maxDepth : Nat := 127

end Json

/-- Passes when there is no fault. -/
def Fault.refuse : Option Fault → Except Fault Unit
  | none => .ok ()
  | some fault => .error fault

end PolicyValue
