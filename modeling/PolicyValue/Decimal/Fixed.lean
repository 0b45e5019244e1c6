import PolicyValue.Decimal.Literal
import PolicyValue.Decimal.Dyadic
import PolicyValue.Scalar.Narrow

/-!
# Fixed numbers of digits

Scalars rounded to a fixed number of places.  The exact binary value is rounded; a half goes to
the even neighbour.

* `fixed places`: that many digits after the point;
* `scientific places`: one digit before the point, that many behind it, and an exponent.
-/

namespace PolicyValue.Decimal

/-- The number of steps of `10 ^ k` nearest to a fraction. -/
def Dyadic.steps (v : Dyadic) (k : Int) : Nat :=
  let (a, b) := Dyadic.factors v.exponent k
  roundDiv (v.significand * a) b

/-- Whether `10 ^ k` is at most the fraction. -/
def Dyadic.reaches (v : Dyadic) (k : Int) : Bool :=
  let (a, b) := Dyadic.factors v.exponent k
  b ≤ v.significand * a

/-- The exponent of the greatest power of ten at most the fraction, sought from `10 ^ k` downwards. -/
def Dyadic.decadeFrom (v : Dyadic) : Nat → Int → Int
  | 0, k => k
  | steps + 1, k => if v.reaches k then k else v.decadeFrom steps (k - 1)

/-- The exponent of the leading digit of a positive fraction. -/
def Dyadic.decade (v : Dyadic) : Int := v.decadeFrom 4 v.decadeAbove

/-- Texts of the values that have no digits. -/
def special? (x : Float32) : Option String :=
  if x.isNaN then some "NaN"
  else if x.isInf then some (if isNegative x then "-inf" else "inf")
  else none

/-- A scalar with `places` digits after the point. -/
def fixed (places : Nat) (x : Float32) : String :=
  (special? x).getD <|
    let n := (Dyadic.ofFinite x).steps (-places)
    let l : Literal := ⟨isNegative x, n / Nat.pow 10 places, padded places n, none⟩
    String.ofList (l.write false [])

/-- A scalar with one digit before the point, `places` behind it, and an exponent. -/
def scientific (places : Nat) (x : Float32) : String :=
  (special? x).getD <|
    let v := Dyadic.ofFinite x
    let write (n : Nat) (e : Int) :=
      let l : Literal := ⟨isNegative x, n / Nat.pow 10 places, padded places n, some e⟩
      String.ofList (l.write false [])
    if v.significand = 0 then write 0 0
    else
      let n := v.steps (v.decade - places)
      if n = Nat.pow 10 (places + 1) then write (Nat.pow 10 places) (v.decade + 1) else write n v.decade

end PolicyValue.Decimal
