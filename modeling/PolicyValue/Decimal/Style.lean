import PolicyValue.Decimal.Literal
import PolicyValue.Decimal.Shortest

/-!
# Styles of writing a scalar

A `Style` says how the shortest decimal of a scalar is laid out: where positional notation ends,
whether a whole number keeps a point, and whether a positive exponent has a sign.

* `Style.json`: numbers of JSON texts;
* `Style.listed`: scalars inside a printed list;
* `Style.plain`: scalars inside a message, never with an exponent.
-/

namespace PolicyValue.Decimal

/-- A layout of shortest decimals. -/
structure Style where
  /-- Which of two equally near decimals is taken. -/
  tie : Tie
  /-- The powers of ten of the leading digit that are written without an exponent. -/
  positional : Int → Bool
  /-- A whole number in positional notation is written with `.0`. -/
  point : Bool
  /-- A positive exponent is written with a plus sign. -/
  plus : Bool

/-- JSON numbers are positional from `10 ^ -6` to `10 ^ 12` and always show a point or an exponent. -/
def Style.json : Style := ⟨.toEven, fun e => -6 ≤ e && e ≤ 12, true, true⟩

/-- Listed scalars are positional from `10 ^ -4` to `10 ^ 15` and keep a point. -/
def Style.listed : Style := ⟨.up, fun e => -4 ≤ e && e < 16, true, false⟩

/-- Plain scalars are always positional, and whole ones have no point. -/
def Style.plain : Style := ⟨.up, fun _ => true, false, false⟩

namespace Style

/-- The literal of zero. -/
def zeroLiteral (s : Style) (negative : Bool) : Literal :=
  ⟨negative, 0, if s.point then [0] else [], none⟩

/-- The literal of `d.digits * 10 ^ d.exponent`. -/
def decimalLiteral (s : Style) (negative : Bool) (d : Shortest) : Literal :=
  let count := (digits d.digits).length
  let leading := d.exponent + count - 1
  if s.positional leading then
    if 0 ≤ d.exponent then
      ⟨negative, d.digits * Nat.pow 10 d.exponent.toNat, if s.point then [0] else [], none⟩
    else
      let places := (-d.exponent).toNat
      ⟨negative, d.digits / Nat.pow 10 places, padded places d.digits, none⟩
  else
    ⟨negative, d.digits / Nat.pow 10 (count - 1), padded (count - 1) d.digits, some leading⟩

/-- The literal of a finite scalar. -/
def literal (s : Style) (x : Float32) : Literal :=
  let v := Dyadic.ofFinite x
  if v.significand = 0 then s.zeroLiteral (isNegative x)
  else s.decimalLiteral (isNegative x) (shortest s.tie v)

/-- The text of a scalar. -/
def text (s : Style) (x : Float32) : String :=
  if x.isNaN then "NaN"
  else if x.isInf then (if isNegative x then "-inf" else "inf")
  else String.ofList ((s.literal x).write s.plus [])

end Style

end PolicyValue.Decimal
