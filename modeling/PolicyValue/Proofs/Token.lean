import PolicyValue.Json.Codec
import PolicyValue.Proofs.Basic

/-!
# Tokens read back

Numbers and strings are written in front of a rest and read off the front of a text.  What is read
is what was written, and the rest is left as it was.

* `Json.readNumber_writeDigits`: a literal, in front of what may follow a value (`Json.Delimited`);
* `Json.Quoted.read_write`: a string, whatever characters it has.
-/

namespace PolicyValue

/-! ## Digits -/

namespace Decimal

/-- The digits of a number begin with a zero only if it is zero, and then there is no other. -/
theorem exists_digitsOnto_eq_cons (n : Nat) (rest : List Digit) :
    ∃ d ds, digitsOnto n rest = d :: (ds ++ rest) ∧ (d.val = 0 → ds = []) := by
  have hstrong : ∃ d ds, digitsOnto n rest = d :: (ds ++ rest) ∧ (n = 0 → ds = []) ∧
      (n ≠ 0 → d.val ≠ 0) := by
    induction n, rest using digitsOnto.induct with
    | case1 n rest h =>
      refine ⟨lastDigit n, [], by rw [digitsOnto, dif_pos h, List.nil_append], fun _ => rfl, ?_⟩
      intro hn
      show n % 10 ≠ 0
      omega
    | case2 n rest h ih =>
      obtain ⟨d, ds, heq, -, hpos⟩ := ih
      refine ⟨d, ds ++ [lastDigit n], ?_, fun hn => absurd hn (by omega), fun _ => hpos (by omega)⟩
      rw [digitsOnto, dif_neg h, heq, List.append_assoc, List.singleton_append]
  obtain ⟨d, ds, heq, hzero, hpos⟩ := hstrong
  exact ⟨d, ds, heq, fun hd => hzero (Decidable.byContradiction fun hn => hpos hn hd)⟩

/-- The digits of a number begin with a zero only if there is no other. -/
theorem exists_digits_eq_cons (n : Nat) : ∃ d ds, digits n = d :: ds ∧ (d.val = 0 → ds = []) := by
  obtain ⟨d, ds, heq, hzero⟩ := exists_digitsOnto_eq_cons n []
  rw [List.append_nil] at heq
  exact ⟨d, ds, heq, hzero⟩

/-- Digits in front of a rest, one by one. -/
theorem Literal.writeDigits_cons (d : Digit) (ds : List Digit) (rest : List Char) :
    Literal.writeDigits (d :: ds) rest = d.toChar :: Literal.writeDigits ds rest := rfl

end Decimal

namespace Json

open Decimal (Digit Literal digits ofDigits ofDigits_digits)

/-- A rest that does not begin with a digit. -/
def NoDigit (rest : List Char) : Prop := ∀ c ∈ rest.head?, Digit.ofChar? c = none

/-- Written digits are taken off a text. -/
theorem takeDigits_writeDigits (reversed ds : List Digit) {rest : List Char} (h : NoDigit rest) :
    takeDigits reversed (Literal.writeDigits ds rest) = (reversed.reverse ++ ds, rest) := by
  induction ds generalizing reversed with
  | nil =>
    show takeDigits reversed rest = _
    rw [List.append_nil]
    cases rest with
    | nil => rfl
    | cons c cs => rw [takeDigits, h c rfl]
  | cons d ds ih =>
    rw [Literal.writeDigits_cons, takeDigits, Decimal.ofChar?_toChar]
    show takeDigits (d :: reversed) (Literal.writeDigits ds rest) = _
    rw [ih, List.reverse_cons, List.append_assoc, List.singleton_append]

/-! ## Numbers -/

/-- A rest that may follow a value: it is empty, or begins with a comma or a closing bracket. -/
def Delimited (rest : List Char) : Prop := ∀ c ∈ rest.head?, c = ',' ∨ c = ']' ∨ c = '\x7d'

/-- No digit follows a value. -/
theorem Delimited.noDigit {rest : List Char} (h : Delimited rest) : NoDigit rest := by
  intro c hc
  rcases h c hc with rfl | rfl | rfl <;> rfl

/-- The exponent of a literal, if it has one, in front of a rest. -/
def writeScale (exponent : Option Int) (rest : List Char) : List Char :=
  match exponent with
  | none => rest
  | some e => Literal.writeExponent true e rest

/-- An exponent is written with its sign. -/
theorem writeScale_some (e : Int) (rest : List Char) :
    writeScale (some e) rest =
      'e' :: (if e < 0 then '-' else '+') :: Literal.writeDigits (digits e.natAbs) rest := by
  show Literal.writeExponent true e rest = _
  unfold Literal.writeExponent
  split <;> rfl

/-- The part of a literal behind its whole part, in front of a rest. -/
def writeFraction (fraction : List Digit) (exponent : Option Int) (rest : List Char) : List Char :=
  match fraction with
  | [] => writeScale exponent rest
  | ds => '.' :: Literal.writeDigits ds (writeScale exponent rest)

/-- A literal is written part by part. -/
theorem write_literal (l : Literal) (rest : List Char) :
    l.write true rest =
      if l.negative then
        '-' :: Literal.writeDigits (digits l.whole) (writeFraction l.fraction l.exponent rest)
      else Literal.writeDigits (digits l.whole) (writeFraction l.fraction l.exponent rest) := by
  obtain ⟨negative, whole, fraction, exponent⟩ := l
  cases fraction <;> cases exponent <;> rfl

section

variable {rest : List Char} (h : Delimited rest) (negative : Bool) (whole : Nat)
  (fraction : List Digit)

include h

/-- An exponent is read behind its mark. -/
theorem readExponent_writeDigits (e : Int) :
    readExponent negative whole fraction
        ((if e < 0 then '-' else '+') :: Literal.writeDigits (digits e.natAbs) rest) =
      (.number ⟨negative, whole, fraction, some e⟩, some rest) := by
  obtain ⟨d, ds, hdigits, -⟩ := Decimal.exists_digits_eq_cons e.natAbs
  have htake : takeDigits [] (Literal.writeDigits (digits e.natAbs) rest) = (d :: ds, rest) := by
    rw [takeDigits_writeDigits _ _ h.noDigit, hdigits]
    rfl
  have hvalue : ofDigits (d :: ds) = e.natAbs := by rw [← hdigits, ofDigits_digits]
  by_cases he : e < 0
  · rw [if_pos he]
    simp only [readExponent, htake, hvalue, if_true]
    rw [show -(e.natAbs : Int) = e by omega]
  · rw [if_neg he]
    simp only [readExponent, htake, hvalue, Bool.false_eq_true, if_false]
    rw [show (e.natAbs : Int) = e by omega]

/-- The exponent of a literal is read, or there is none. -/
theorem readScale_writeScale (exponent : Option Int) :
    readScale negative whole fraction (writeScale exponent rest) =
      (.number ⟨negative, whole, fraction, exponent⟩, some rest) := by
  cases exponent with
  | none =>
    cases rest with
    | nil => rfl
    | cons c cs => rcases h c rfl with rfl | rfl | rfl <;> rfl
  | some e =>
    rw [writeScale_some]
    exact readExponent_writeDigits h negative whole fraction e

omit negative whole fraction in
/-- No digit begins an exponent. -/
theorem noDigit_writeScale (exponent : Option Int) : NoDigit (writeScale exponent rest) := by
  cases exponent with
  | none => exact h.noDigit
  | some e =>
    rintro c ⟨⟩
    rfl

omit fraction in
/-- The digits behind the point are read, or there are none, and then the exponent. -/
theorem readFraction_writeFraction (fraction : List Digit) (exponent : Option Int) :
    readFraction negative whole (writeFraction fraction exponent rest) =
      (.number ⟨negative, whole, fraction, exponent⟩, some rest) := by
  cases fraction with
  | nil =>
    -- What follows the whole part does not begin with a point.
    have hscale : readFraction negative whole (writeScale exponent rest) =
        readScale negative whole [] (writeScale exponent rest) := by
      cases exponent with
      | none =>
        cases rest with
        | nil => rfl
        | cons c cs => rcases h c rfl with rfl | rfl | rfl <;> rfl
      | some e => rfl
    rw [writeFraction, hscale, readScale_writeScale h]
  | cons d ds =>
    have htake : takeDigits [] (Literal.writeDigits (d :: ds) (writeScale exponent rest)) =
        (d :: ds, writeScale exponent rest) :=
      takeDigits_writeDigits [] (d :: ds) (noDigit_writeScale h exponent)
    show readFraction negative whole ('.' :: Literal.writeDigits (d :: ds) _) = _
    rw [readFraction, htake]
    exact readScale_writeScale h negative whole (d :: ds) exponent

omit negative whole fraction in
/-- No digit follows the whole part of a literal. -/
theorem noDigit_writeFraction (fraction : List Digit) (exponent : Option Int) :
    NoDigit (writeFraction fraction exponent rest) := by
  cases fraction with
  | nil => exact noDigit_writeScale h exponent
  | cons d ds =>
    rintro c ⟨⟩
    rfl

omit fraction in
/-- A literal is read behind its sign. -/
theorem readNumber_writeDigits (fraction : List Digit) (exponent : Option Int) :
    readNumber negative
        (Literal.writeDigits (digits whole) (writeFraction fraction exponent rest)) =
      (.number ⟨negative, whole, fraction, exponent⟩, some rest) := by
  obtain ⟨d, ds, hdigits, hzero⟩ := Decimal.exists_digits_eq_cons whole
  have htake : takeDigits []
      (Literal.writeDigits (digits whole) (writeFraction fraction exponent rest)) =
        (d :: ds, writeFraction fraction exponent rest) := by
    rw [takeDigits_writeDigits _ _ (noDigit_writeFraction h fraction exponent), hdigits]
    rfl
  have hvalue : ofDigits (d :: ds) = whole := by rw [← hdigits, ofDigits_digits]
  -- A zero in front of further digits is refused, and is not written.
  have hleading : (decide (d.val = 0) && !ds.isEmpty) = false := by
    by_cases hd : d.val = 0
    · rw [hzero hd]
      exact Bool.and_false _
    · rw [decide_eq_false hd, Bool.false_and]
  simp only [readNumber, htake, hleading, Bool.false_eq_true, if_false, hvalue]
  exact readFraction_writeFraction h negative whole fraction exponent

end

/-! ## Strings -/

namespace Quoted

/-- A piece of a quoted string that stands for one character, whatever pieces follow. -/
def Denotes (piece : Piece) (c : Char) : Prop :=
  ∀ reversed pieces, joinOnto reversed (piece :: pieces) = joinOnto (c :: reversed) pieces

/-- A character that stands for itself. -/
theorem denotes_plain (c : Char) : Denotes (.plain c) c := fun _ _ => rfl

/-- An escaped control character. -/
theorem denotes_unit {c : Char} (h : c.toNat < 32) : Denotes (.unit c.toNat) c := by
  intro reversed pieces
  have hlow : isLow c.toNat = false := by
    rw [isLow, decide_eq_false (by omega), Bool.false_and]
  have hhigh : isHigh c.toNat = false := by
    rw [isHigh, decide_eq_false (by omega), Bool.false_and]
  -- Whether another unit follows matters to the first half of a pair only.
  cases pieces with
  | nil => simp [joinOnto, hlow, hhigh, Char.ofNat_toNat]
  | cons piece pieces => cases piece <;> simp [joinOnto, hlow, hhigh, Char.ofNat_toNat]

/-- The escape of a control character is read as its number. -/
theorem hexUnit?_hexDigit {n : Nat} (h : n < 32) :
    hexUnit? '0' '0' (hexDigit (n / 16)) (hexDigit (n % 16)) = some n := by
  revert h
  revert n
  decide

/-- A written character is read as one piece that stands for it. -/
theorem exists_scan_writeChar (c : Char) (pieces : List Piece) (rest : List Char) :
    ∃ piece, Denotes piece c ∧
      scan pieces (writeChar c rest) = scan (piece :: pieces) rest := by
  unfold writeChar
  split
  · exact ⟨.plain '"', denotes_plain _, rfl⟩
  · exact ⟨.plain '\\', denotes_plain _, rfl⟩
  · exact ⟨.plain '\x08', denotes_plain _, rfl⟩
  · exact ⟨.plain '\x0c', denotes_plain _, rfl⟩
  · exact ⟨.plain '\n', denotes_plain _, rfl⟩
  · exact ⟨.plain '\r', denotes_plain _, rfl⟩
  · exact ⟨.plain '\t', denotes_plain _, rfl⟩
  · rename_i hquote hslash _ _ _ _ _
    split
    · rename_i hcontrol
      refine ⟨.unit c.toNat, denotes_unit hcontrol, ?_⟩
      rw [scan, hexUnit?_hexDigit hcontrol]
    · rename_i hprintable
      refine ⟨.plain c, denotes_plain c, ?_⟩
      rw [scan, if_neg hprintable]
      · exact hquote
      all_goals
        intros
        contradiction

/-- The characters of a written string are read as pieces that stand for them. -/
theorem exists_scan_foldr (cs : List Char) (reversed : List Piece) (rest : List Char) :
    ∃ pieces, scan reversed (cs.foldr writeChar ('"' :: rest)) =
        (pieces.reverse ++ reversed, .ok rest) ∧
      ∀ before, joinOnto before pieces = some (before.reverse ++ cs) := by
  induction cs generalizing reversed with
  | nil => exact ⟨[], rfl, fun before => by rw [joinOnto, List.append_nil]⟩
  | cons c cs ih =>
    obtain ⟨piece, hdenotes, hpiece⟩ :=
      exists_scan_writeChar c reversed (cs.foldr writeChar ('"' :: rest))
    obtain ⟨pieces, hscan, hjoin⟩ := ih (piece :: reversed)
    refine ⟨piece :: pieces, ?_, fun before => ?_⟩
    · rw [List.foldr_cons, hpiece, hscan, List.reverse_cons, List.append_assoc,
        List.singleton_append]
    · rw [hdenotes, hjoin, List.reverse_cons, List.append_assoc, List.singleton_append]

/-- **A written string is read back.**  What is read stops behind its closing quote. -/
theorem read_write (s : String) (rest : List Char) :
    read (s.toList.foldr writeChar ('"' :: rest)) = .closed (some s) rest := by
  obtain ⟨pieces, hscan, hjoin⟩ := exists_scan_foldr s.toList [] rest
  have htext : join pieces = some s := by
    rw [join, hjoin, List.reverse_nil, List.nil_append, Option.map_some, String.ofList_toList]
  simp only [read, hscan, List.append_nil, List.reverse_reverse, htext]

end Quoted

end Json

end PolicyValue
