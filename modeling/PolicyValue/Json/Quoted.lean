import PolicyValue.Json.Basic

/-!
# Quoted strings

Strings between quotes, as JSON writes them.

* `Quoted.write` escapes quotes, backslashes and control characters;
* `Quoted.scan` reads characters and escapes up to the closing quote;
* `Quoted.join` pairs surrogate escapes; a surrogate that stands alone has no text.
-/

namespace PolicyValue.Json.Quoted

/-- The lower-case hexadecimal digit of a number below sixteen. -/
def hexDigit (n : Nat) : Char := Char.ofNat (if n < 10 then 48 + n else 87 + n)

/-- The number of a hexadecimal digit of either case. -/
def hexValue? (c : Char) : Option Nat :=
  let n := c.toNat
  if 48 ≤ n ∧ n < 58 then some (n - 48)
  else if 97 ≤ n ∧ n < 103 then some (n - 87)
  else if 65 ≤ n ∧ n < 71 then some (n - 55)
  else none

/-- A hexadecimal digit stands for its number. -/
theorem hexValue?_hexDigit (n : Nat) (h : n < 16) :
    hexValue? (hexDigit n) = some n := by
  revert h
  revert n
  decide

/-! ## Writing -/

/-- One character of a string in front of a rest. -/
def writeChar (c : Char) (rest : List Char) : List Char :=
  match c with
  | '"' => '\\' :: '"' :: rest
  | '\\' => '\\' :: '\\' :: rest
  | '\x08' => '\\' :: 'b' :: rest
  | '\x0c' => '\\' :: 'f' :: rest
  | '\n' => '\\' :: 'n' :: rest
  | '\r' => '\\' :: 'r' :: rest
  | '\t' => '\\' :: 't' :: rest
  | c =>
    if c.toNat < 32 then
      '\\' :: 'u' :: '0' :: '0' :: hexDigit (c.toNat / 16) :: hexDigit (c.toNat % 16) :: rest
    else c :: rest

/-- A string between quotes in front of a rest. -/
def write (s : String) (rest : List Char) : List Char :=
  '"' :: s.toList.foldr writeChar ('"' :: rest)

/-! ## Reading -/

/-- A part of a quoted string. -/
inductive Piece where
  /-- A character that stands for itself or a one-letter escape. -/
  | plain (c : Char)
  /-- A UTF-16 unit written as four hexadecimal digits. -/
  | unit (n : Nat)
deriving DecidableEq, Repr

/-- The character of a one-letter escape. -/
def escaped? : Char → Option Char
  | '"' => some '"'
  | '\\' => some '\\'
  | '/' => some '/'
  | 'b' => some '\x08'
  | 'f' => some '\x0c'
  | 'n' => some '\n'
  | 'r' => some '\r'
  | 't' => some '\t'
  | _ => none

/-- The number of four hexadecimal digits. -/
def hexUnit? (a b c d : Char) : Option Nat := do
  let a ← hexValue? a
  let b ← hexValue? b
  let c ← hexValue? c
  let d ← hexValue? d
  return ((a * 16 + b) * 16 + c) * 16 + d

/-- Whether fewer than four bytes are left, too few for a hexadecimal escape. -/
def tooShort (rest : List Char) : Bool := (rest.take 4).foldr (fun c n => c.utf8Size + n) 0 < 4

/-- Reads up to the closing quote: the pieces, last one first and in front of given ones, and what
follows the quote or why there is none. -/
def scan (pieces : List Piece) : List Char → List Piece × Except Fault (List Char)
  | [] => (pieces, .error .truncated)
  | '"' :: rest => (pieces, .ok rest)
  | ['\\'] => (pieces, .error .truncated)
  | '\\' :: 'u' :: a :: b :: c :: d :: rest =>
    match hexUnit? a b c d with
    | some n => scan (.unit n :: pieces) rest
    | none => (pieces, .error .malformed)
  | '\\' :: 'u' :: rest =>
    (pieces, .error (if tooShort rest then .truncated else .malformed))
  | '\\' :: c :: rest =>
    match escaped? c with
    | some c => scan (.plain c :: pieces) rest
    | none => (pieces, .error .malformed)
  | c :: rest =>
    if c.toNat < 32 then (pieces, .error .malformed) else scan (.plain c :: pieces) rest

/-- Whether a UTF-16 unit is the first half of a pair. -/
def isHigh (n : Nat) : Bool := 0xd800 ≤ n && n < 0xdc00

/-- Whether a UTF-16 unit is the second half of a pair. -/
def isLow (n : Nat) : Bool := 0xdc00 ≤ n && n < 0xe000

/-- The characters of pieces, in front of given ones which stand last one first; nothing when a
surrogate stands alone. -/
def joinOnto (reversed : List Char) : List Piece → Option (List Char)
  | [] => some reversed.reverse
  | .plain c :: rest => joinOnto (c :: reversed) rest
  | .unit n :: rest =>
    if isLow n then none
    else if isHigh n then
      match rest with
      | .unit m :: rest =>
        if isLow m then
          joinOnto (Char.ofNat (0x10000 + (n - 0xd800) * 0x400 + (m - 0xdc00)) :: reversed) rest
        else none
      | _ => none
    else joinOnto (Char.ofNat n :: reversed) rest

/-- The text of pieces. -/
def join (pieces : List Piece) : Option String := (joinOnto [] pieces).map String.ofList

/-- Whether a surrogate stands alone, given that the string goes on: a first half at the end may
still find its second. -/
def broken (pieces : List Piece) : Bool :=
  match pieces.getLast? with
  | some (.unit n) =>
    if isHigh n then (join pieces.dropLast).isNone else (join pieces).isNone
  | _ => (join pieces).isNone

/-- What reading the text after an opening quote gives: a string, present or broken, and the rest,
or the faults of reading and of skipping. -/
inductive Outcome where
  /-- The closing quote was found. -/
  | closed (text : Option String) (rest : List Char)
  /-- There is no closing quote. -/
  | unclosed (read skipped : Fault)

/-- Reads a string after its opening quote. -/
def read (cs : List Char) : Outcome :=
  let (reversed, ending) := scan [] cs
  let pieces := reversed.reverse
  match ending with
  | .ok rest => .closed (join pieces) rest
  | .error fault => .unclosed (if broken pieces then .malformed else fault) fault

end PolicyValue.Json.Quoted
