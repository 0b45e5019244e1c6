/-!
# Decimal literals

The digits of a natural number, most significant first, and the literals in which numbers are
written: a sign, a whole part without leading zeros, the digits after the point, and an exponent.

* `digits`, `ofDigits`: a number and its digits;
* `padded`: the last digits of a number, with leading zeros;
* `Literal.write`: a literal as text, put in front of a given rest.
-/

namespace PolicyValue.Decimal

/-- A decimal digit. -/
abbrev Digit := Fin 10

/-- The last digit of a number. -/
def lastDigit (n : Nat) : Digit := ⟨n % 10, Nat.mod_lt _ (by decide)⟩

/-- The character of a digit. -/
def Digit.toChar (d : Digit) : Char := Char.ofNat (48 + d.val)

/-- The digit that a character stands for. -/
def Digit.ofChar? (c : Char) : Option Digit :=
  if h : 48 ≤ c.toNat ∧ c.toNat < 58 then some ⟨c.toNat - 48, by omega⟩ else none

/-- The character of a digit stands for it. -/
theorem ofChar?_toChar (d : Digit) : Digit.ofChar? d.toChar = some d := by
  revert d
  decide

/-- The digits of a number in front of given ones. -/
def digitsOnto (n : Nat) (rest : List Digit) : List Digit :=
  if h : n < 10 then lastDigit n :: rest else digitsOnto (n / 10) (lastDigit n :: rest)
termination_by n
decreasing_by omega

/-- The digits of a number, most significant first; zero has one digit. -/
def digits (n : Nat) : List Digit := digitsOnto n []

/-- The number with the given digits. -/
def ofDigits (ds : List Digit) : Nat := ds.foldl (fun n d => 10 * n + d.val) 0

/-- The last digit and what stands before it make up a number. -/
theorem lastDigit_add (n : Nat) : 10 * (n / 10) + (lastDigit n).val = n := by
  show 10 * (n / 10) + n % 10 = n
  omega

/-- The number of digits continued by the number of others. -/
theorem foldl_digitsOnto (n : Nat) (rest : List Digit) :
    (digitsOnto n rest).foldl (fun n d => 10 * n + d.val) 0 =
      rest.foldl (fun n d => 10 * n + d.val) n := by
  induction n, rest using digitsOnto.induct with
  | case1 n rest h =>
    rw [digitsOnto, dif_pos h, List.foldl_cons]
    congr 1
    show 10 * 0 + n % 10 = n
    omega
  | case2 n rest h ih =>
    rw [digitsOnto, dif_neg h, ih, List.foldl_cons, lastDigit_add]

/-- A number is that of its digits. -/
@[simp]
theorem ofDigits_digits (n : Nat) : ofDigits (digits n) = n := by
  rw [ofDigits, digits, foldl_digitsOnto]
  rfl

/-- The last `count` digits of a number in front of given ones, leading zeros included. -/
def paddedOnto : Nat → Nat → List Digit → List Digit
  | 0, _, rest => rest
  | count + 1, n, rest => paddedOnto count (n / 10) (lastDigit n :: rest)

/-- The last `count` digits of a number, leading zeros included. -/
def padded (count n : Nat) : List Digit := paddedOnto count n []

/-- Padding gives the digits asked for. -/
theorem length_paddedOnto (count n : Nat) (rest : List Digit) :
    (paddedOnto count n rest).length = count + rest.length := by
  induction count generalizing n rest with
  | zero => simp [paddedOnto]
  | succ count ih =>
    rw [paddedOnto, ih, List.length_cons]
    omega

/-- There are as many padded digits as asked for. -/
theorem length_padded (count n : Nat) : (padded count n).length = count := by
  rw [padded, length_paddedOnto]
  rfl

/-- A number as it is written. -/
structure Literal where
  /-- A minus sign stands in front. -/
  negative : Bool
  /-- The digits before the point. -/
  whole : Nat
  /-- The digits after the point; without any there is no point. -/
  fraction : List Digit
  /-- The power of ten behind the mark `e`. -/
  exponent : Option Int
deriving DecidableEq, Repr

namespace Literal

/-- The literal of a natural number. -/
def ofNat (n : Nat) : Literal := ⟨false, n, [], none⟩

/-- Digits as characters in front of a rest. -/
def writeDigits (ds : List Digit) (rest : List Char) : List Char :=
  ds.foldr (fun d cs => d.toChar :: cs) rest

/-- The exponent part in front of a rest; `plus` writes the sign of positive exponents. -/
def writeExponent (plus : Bool) (e : Int) (rest : List Char) : List Char :=
  let ds := writeDigits (digits e.natAbs) rest
  'e' :: (if e < 0 then '-' :: ds else if plus then '+' :: ds else ds)

/-- A literal as text in front of a rest; `plus` writes the sign of positive exponents. -/
def write (plus : Bool) (l : Literal) (rest : List Char) : List Char :=
  let tail := match l.exponent with
    | none => rest
    | some e => writeExponent plus e rest
  let tail := match l.fraction with
    | [] => tail
    | ds => '.' :: writeDigits ds tail
  let tail := writeDigits (digits l.whole) tail
  if l.negative then '-' :: tail else tail

end Literal

end PolicyValue.Decimal
