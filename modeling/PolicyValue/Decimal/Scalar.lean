import PolicyValue.Decimal.Literal
import PolicyValue.Scalar.Arithmetic

/-!
# Scalars on a command line

A scalar given as an argument: an optional sign, then `inf`, `infinity` or `nan` in any case, or
digits with an optional point and an optional exponent.  It is rounded once, to the nearest scalar.
-/

namespace PolicyValue.Decimal

/-- The digits at the front of a text. -/
def leadingDigits : List Char → List Digit × List Char
  | [] => ([], [])
  | c :: cs =>
    match Digit.ofChar? c with
    | some d => let (ds, rest) := leadingDigits cs; (d :: ds, rest)
    | none => ([], c :: cs)

/-- Digits beyond these powers of ten are infinite or zero whatever they are. -/
def decadeLimit : Int := 400

/-- The scalar nearest to `digits * 10 ^ e`. -/
def nearestScalar (n : Nat) (e : Int) : Float32 :=
  let leading := e + (digits n).length
  if n = 0 || leading < -decadeLimit then Scalar.zero
  else if decadeLimit < leading then Scalar.infinity
  else Float32.ofScientific n (e < 0) e.natAbs

/-- The exponent at the end of an argument, zero if there is none. -/
def parseExponent? : List Char → Option Int
  | [] => some 0
  | mark :: cs =>
    if mark = 'e' || mark = 'E' then
      let (minus, cs) := match cs with
        | '-' :: rest => (true, rest)
        | '+' :: rest => (false, rest)
        | rest => (false, rest)
      match leadingDigits cs with
      | (d :: ds, []) => let n : Int := ofDigits (d :: ds); some (if minus then -n else n)
      | _ => none
    else none

/-- A number without sign. -/
def parseMagnitude? (cs : List Char) : Option Float32 :=
  let (whole, rest) := leadingDigits cs
  let (fraction, rest) := match rest with
    | '.' :: rest => leadingDigits rest
    | rest => ([], rest)
  if whole.isEmpty && fraction.isEmpty then none
  else (parseExponent? rest).map fun e =>
    nearestScalar (ofDigits (whole ++ fraction)) (e - fraction.length)

/-- A scalar without sign, by name or by number. -/
def parseUnsigned? (cs : List Char) : Option Float32 :=
  let name := String.ofList (cs.map Char.toLower)
  if name = "inf" || name = "infinity" then some Scalar.infinity
  else if name = "nan" then some (Float32.ofBits 0x7fc00000)
  else parseMagnitude? cs

/-- The scalar that an argument denotes. -/
def parseScalar? (s : String) : Option Float32 :=
  match s.toList with
  | '-' :: cs => (parseUnsigned? cs).map (-·)
  | '+' :: cs => parseUnsigned? cs
  | cs => parseUnsigned? cs

/-- The 64-bit word that an argument denotes: digits, behind a plus sign or not. -/
def parseWord? (s : String) : Option UInt64 :=
  let cs := match s.toList with
    | '+' :: cs => cs
    | cs => cs
  match leadingDigits cs with
  | (d :: ds, []) =>
    let n := ofDigits (d :: ds)
    if n < UInt64.size then some n.toUInt64 else none
  | _ => none

end PolicyValue.Decimal
