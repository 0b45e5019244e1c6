import PolicyValue.Json.Quoted

/-!
# Reading JSON

`Json.read` takes a value off the front of a text.  It gives the tree as far as the text reads and
what follows the value, or no rest where the text broke.  The grammar is strict: no leading zeros,
no trailing commas, no control characters in strings, and only space, tab, carriage return and
line feed between tokens.

`Document.ofString` reads a whole text and notes whether anything but white space follows the
value.
-/

namespace PolicyValue.Json

open Decimal (Digit Literal ofDigits)

/-! ## Tokens -/

/-- White space between tokens. -/
def isBlank (c : Char) : Bool := c = ' ' || c = '\t' || c = '\n' || c = '\r'

/-- A text without the white space in front. -/
def skipBlank (cs : List Char) : List Char := cs.dropWhile isBlank

/-- The digits at the front of a text, last one first and in front of given ones, and the rest. -/
def takeDigits (reversed : List Digit) : List Char → List Digit × List Char
  | [] => (reversed.reverse, [])
  | c :: cs =>
    match Digit.ofChar? c with
    | some d => takeDigits (d :: reversed) cs
    | none => (reversed.reverse, c :: cs)

/-- A number that stops where a digit is needed: at the end of the text a reader asks for more,
while skipping refuses it at once. -/
def missingDigit (rest : List Char) : Json :=
  if rest.isEmpty then .cut .truncated .malformed else .cut .malformed .malformed

/-- A value and what follows it; no rest where the text broke. -/
abbrev Step := Json × Option (List Char)

/-- The exponent of a number, after its mark. -/
def readExponent (negative : Bool) (whole : Nat) (fraction : List Digit) (cs : List Char) : Step :=
  let (minus, cs) := match cs with
    | '-' :: rest => (true, rest)
    | '+' :: rest => (false, rest)
    | rest => (false, rest)
  match takeDigits [] cs with
  | ([], rest) => (missingDigit rest, none)
  | (ds, rest) =>
    let n : Int := ofDigits ds
    (.number ⟨negative, whole, fraction, some (if minus then -n else n)⟩, some rest)

/-- What may follow the digits of a number: an exponent or nothing. -/
def readScale (negative : Bool) (whole : Nat) (fraction : List Digit) : List Char → Step
  | 'e' :: rest => readExponent negative whole fraction rest
  | 'E' :: rest => readExponent negative whole fraction rest
  | rest => (.number ⟨negative, whole, fraction, none⟩, some rest)

/-- What may follow the whole part of a number: a point with digits, and an exponent. -/
def readFraction (negative : Bool) (whole : Nat) : List Char → Step
  | '.' :: rest =>
    match takeDigits [] rest with
    | ([], rest) => (missingDigit rest, none)
    | (ds, rest) => readScale negative whole ds rest
  | rest => readScale negative whole [] rest

/-- A number after its sign.  A zero in front of another digit is refused. -/
def readNumber (negative : Bool) (cs : List Char) : Step :=
  match takeDigits [] cs with
  | ([], rest) => (missingDigit rest, none)
  | (d :: ds, rest) =>
    if d.val = 0 && !ds.isEmpty then (.cut .malformed .malformed, none)
    else readFraction negative (ofDigits (d :: ds)) rest

/-- A literal name, of which `expected` is still to come. -/
def readName (value : Json) : List Char → List Char → Step
  | [], cs => (value, some cs)
  | _ :: _, [] => (.cut .truncated .truncated, none)
  | e :: expected, c :: cs =>
    if c = e then readName value expected cs else (.cut .malformed .malformed, none)

/-! ## Values -/

mutual

/-- A value at the front of a text. -/
def readValue : Nat → List Char → Step
  | 0, _ => (.cut .malformed .malformed, none)
  | fuel + 1, cs =>
    match skipBlank cs with
    | [] => (.cut .truncated .truncated, none)
    | '\x7b' :: rest =>
      let (members, rest) := readMembers fuel true rest
      (.object members, rest)
    | '[' :: rest =>
      let (items, rest) := readItems fuel true rest
      (.array items, rest)
    | '"' :: rest =>
      match Quoted.read rest with
      | .closed text rest => (.string text, some rest)
      | .unclosed read skipped => (.cut read skipped, none)
    | '-' :: rest => readNumber true rest
    | 'n' :: rest => readName .null ['u', 'l', 'l'] rest
    | 't' :: rest => readName (.bool true) ['r', 'u', 'e'] rest
    | 'f' :: rest => readName (.bool false) ['a', 'l', 's', 'e'] rest
    | c :: rest =>
      if c.isDigit then readNumber false (c :: rest) else (.cut .malformed .malformed, none)

/-- The values of an array, after its bracket (`first`) or after one of them. -/
def readItems : Nat → Bool → List Char → Items × Option (List Char)
  | 0, _, _ => (.stop (some .malformed), none)
  | fuel + 1, first, cs =>
    match skipBlank cs with
    | [] => (.stop (some .truncated), none)
    | ']' :: rest => (.stop none, some rest)
    | c :: rest =>
      if first then readItem fuel (c :: rest)
      else if c = ',' then
        match skipBlank rest with
        | ']' :: _ => (.stop (some .malformed), none)
        | rest => readItem fuel rest
      else (.stop (some .malformed), none)

/-- One value of an array and those behind it. -/
def readItem : Nat → List Char → Items × Option (List Char)
  | 0, _ => (.stop (some .malformed), none)
  | fuel + 1, cs =>
    match readValue fuel cs with
    | (value, none) => (.item value (.stop none), none)
    | (value, some rest) =>
      let (items, rest) := readItems fuel false rest
      (.item value items, rest)

/-- The members of an object, after its brace (`first`) or after one of them. -/
def readMembers : Nat → Bool → List Char → Members × Option (List Char)
  | 0, _, _ => (.stop (some .malformed), none)
  | fuel + 1, first, cs =>
    match skipBlank cs with
    | [] => (.stop (some .truncated), none)
    | '\x7d' :: rest => (.stop none, some rest)
    | c :: rest =>
      if first then readMember fuel (c :: rest)
      else if c = ',' then readMember fuel (skipBlank rest)
      else (.stop (some .malformed), none)

/-- One member of an object and those behind it. -/
def readMember : Nat → List Char → Members × Option (List Char)
  | 0, _ => (.stop (some .malformed), none)
  | fuel + 1, cs =>
    match cs with
    | [] => (.stop (some .truncated), none)
    | '"' :: rest =>
      match Quoted.read rest with
      | .unclosed read skipped =>
        if read = skipped then (.stop (some read), none)
        else (.member none (.cut read skipped) (.stop none), none)
      | .closed key rest =>
        match skipBlank rest with
        | [] => (.member key (.cut .truncated .truncated) (.stop none), none)
        | ':' :: rest =>
          match readValue fuel rest with
          | (value, none) => (.member key value (.stop none), none)
          | (value, some rest) =>
            let (members, rest) := readMembers fuel false rest
            (.member key value members, rest)
        | _ => (.member key (.cut .malformed .malformed) (.stop none), none)
    | _ => (.stop (some .malformed), none)

end

/-- A value at the front of a text; three steps per character always suffice. -/
def read (cs : List Char) : Step := readValue (3 * cs.length + 3) cs

end PolicyValue.Json

namespace PolicyValue

/-- A whole text: its value as far as it reads, and whether more than white space follows. -/
structure Document where
  /-- The value. -/
  value : Json
  /-- Something follows the value. -/
  trailing : Bool

/-- Reads a whole text. -/
def Document.ofString (text : String) : Document :=
  match Json.read text.toList with
  | (value, none) => ⟨value, false⟩
  | (value, some rest) => ⟨value, !(Json.skipBlank rest).isEmpty⟩

end PolicyValue
