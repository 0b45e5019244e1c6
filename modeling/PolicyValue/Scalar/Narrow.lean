/-!
# Narrowing doubles

`Scalar.ofDouble` is the binary32 number nearest to a double, a half going to the even neighbour.
It is computed on the bits: the double is a significand times a power of two, the significand is
cut to the digits that binary32 has at that size, and a carry out of it moves into the exponent.
-/

namespace PolicyValue

/-- A quotient rounded to the nearest integer, a half to the even one. -/
def roundDiv (num den : Nat) : Nat :=
  let q := num / den
  let r := 2 * (num % den)
  if r < den then q else if den < r then q + 1 else q + q % 2

/-- The bits of positive infinity, which are those of every number that is too great. -/
def infinityBits : Nat := 0x7f800000

/-- The bits of the binary32 number nearest to `m * 2 ^ q`, for `m` below `2 ^ 53` and `q` at least
`-1074` as in doubles.  The last place of the result is worth `2 ^ (last - 149)`. -/
def narrowBits (m : Nat) (q : Int) : Nat :=
  let last := (q + m.log2 + 126).toNat
  let n := roundDiv m (Nat.pow 2 (last - 149 - q).toNat)
  min infinityBits (last * Nat.pow 2 23 + n)

/-- The binary32 number nearest to a double. -/
def Scalar.ofDouble (x : Float) : Float32 :=
  let bits := x.toBits.toNat
  let sign : Nat := bits / Nat.pow 2 63 * Nat.pow 2 31
  let biased : Nat := bits / Nat.pow 2 52 % Nat.pow 2 11
  let field : Nat := bits % Nat.pow 2 52
  if x.isNaN then Float32.ofBits 0x7fc00000
  else if x.isInf then Float32.ofBits (sign + infinityBits).toUInt32
  else
    let m := if biased = 0 then field else field + Nat.pow 2 52
    let q : Int := (max biased 1 : Nat) - 1075
    Float32.ofBits (sign + narrowBits m q).toUInt32

end PolicyValue
