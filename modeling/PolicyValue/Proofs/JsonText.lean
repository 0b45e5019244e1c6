import PolicyValue.Proofs.Token

/-!
# Trees read back

The compact text of a tree without faults reads as that tree, and nothing is left over.  Reading
spends its steps on the characters of the text, at most three for each; the induction over the tree
carries this bound, with the rest that follows the value.

* `Json.readValue_write`: a value in front of a rest;
* `Document.ofString_text`: a whole text.
-/

namespace PolicyValue.Json

open Decimal (Digit Literal digits)

/-! ## Lengths -/

/-- Quoted characters take some room in front of a rest. -/
theorem Quoted.length_writeChar (c : Char) (rest : List Char) :
    rest.length < (Quoted.writeChar c rest).length := by
  unfold Quoted.writeChar
  split
  all_goals try (simp only [List.length_cons]; omega)
  split
  all_goals (simp only [List.length_cons]; omega)

theorem Quoted.length_write (s : String) (rest : List Char) :
    rest.length + 2 ≤ (Quoted.write s rest).length := by
  have hchars : ∀ (cs rest : List Char), rest.length ≤ (cs.foldr Quoted.writeChar rest).length := by
    intro cs rest
    induction cs with
    | nil => exact Nat.le_refl _
    | cons c cs ih =>
      exact Nat.le_trans ih (Nat.le_of_lt (Quoted.length_writeChar c _))
  have hquoted := hchars s.toList ('"' :: rest)
  rw [Quoted.write, List.length_cons]
  rw [List.length_cons] at hquoted
  omega

/-- Digits take a character each. -/
theorem length_writeDigits (ds : List Digit) (rest : List Char) :
    (Literal.writeDigits ds rest).length = ds.length + rest.length := by
  induction ds with
  | nil => exact (Nat.zero_add _).symm
  | cons d ds ih =>
    rw [Decimal.Literal.writeDigits_cons, List.length_cons, ih, List.length_cons]
    omega

/-- A literal takes some room in front of a rest. -/
theorem length_writeLiteral (l : Literal) (rest : List Char) :
    rest.length < (l.write true rest).length := by
  obtain ⟨d, ds, hdigits, -⟩ := Decimal.exists_digits_eq_cons l.whole
  have hscale : rest.length ≤ (writeScale l.exponent rest).length := by
    cases l.exponent with
    | none => exact Nat.le_refl _
    | some e =>
      rw [writeScale_some, List.length_cons, List.length_cons, length_writeDigits]
      omega
  have hfraction : rest.length ≤ (writeFraction l.fraction l.exponent rest).length := by
    cases l.fraction with
    | nil => exact hscale
    | cons d ds =>
      show _ ≤ ('.' :: Literal.writeDigits (d :: ds) (writeScale l.exponent rest)).length
      rw [List.length_cons, length_writeDigits]
      omega
  rw [write_literal, hdigits]
  split
  all_goals
    simp only [List.length_cons, length_writeDigits]
    omega

/-- A name takes some room in front of a rest. -/
theorem length_writeName (name : String) (h : 0 < name.toList.length) (rest : List Char) :
    rest.length < (name.toList ++ rest).length := by
  rw [List.length_append]
  omega

mutual

/-- A value takes some room in front of a rest. -/
theorem length_write : ∀ (j : Json) (rest : List Char), rest.length < (j.write rest).length
  | .null, rest => length_writeName "null" (by decide) rest
  | .bool true, rest => length_writeName "true" (by decide) rest
  | .bool false, rest => length_writeName "false" (by decide) rest
  | .number l, rest => length_writeLiteral l rest
  | .string (some s), rest => by
    have h := Quoted.length_write s rest
    show rest.length < (Quoted.write s rest).length
    omega
  | .string none, rest => length_writeName "null" (by decide) rest
  | .array items, rest => by
    have h := (items.length_write rest).1
    exact Nat.lt_succ_of_lt h
  | .object members, rest => by
    have h := (members.length_write rest).1
    exact Nat.lt_succ_of_lt h
  | .cut _ _, rest => length_writeName "null" (by decide) rest

/-- So do the values of an array, from the first on or behind one of them. -/
theorem Items.length_write : ∀ (items : Items) (rest : List Char),
    rest.length < (items.writeFirst rest).length ∧ rest.length < (items.writeNext rest).length
  | .stop _, rest => ⟨Nat.lt_succ_self _, Nat.lt_succ_self _⟩
  | .item v vs, rest => by
    have hv := v.length_write (vs.writeNext rest)
    have hvs := (vs.length_write rest).2
    have hboth : rest.length < (v.write (vs.writeNext rest)).length := by omega
    exact ⟨hboth, Nat.lt_succ_of_lt hboth⟩

/-- So do the members of an object. -/
theorem Members.length_write : ∀ (members : Members) (rest : List Char),
    rest.length < (members.writeFirst rest).length ∧
      rest.length < (members.writeNext rest).length
  | .stop _, rest => ⟨Nat.lt_succ_self _, Nat.lt_succ_self _⟩
  | .member k v ms, rest => by
    have hk := Quoted.length_write (k.getD "") (':' :: v.write (ms.writeNext rest))
    have hv := v.length_write (ms.writeNext rest)
    have hms := (ms.length_write rest).2
    rw [List.length_cons] at hk
    have hboth : rest.length <
        (Quoted.write (k.getD "") (':' :: v.write (ms.writeNext rest))).length := by omega
    exact ⟨hboth, Nat.lt_succ_of_lt hboth⟩

end

/-! ## The first character -/

/-- A character that begins no value. -/
def isClosing (c : Char) : Bool := isBlank c || c = ']' || c = '\x7d' || c = ','

/-- A digit is no closing character. -/
theorem isClosing_toChar (d : Digit) : isClosing d.toChar = false := by
  revert d
  decide

/-- White space is skipped up to a character that is not closing. -/
theorem skipBlank_of_not_isClosing {c : Char} (h : isClosing c = false) (cs : List Char) :
    skipBlank (c :: cs) = c :: cs := by
  simp only [isClosing, Bool.or_eq_false_iff] at h
  rw [skipBlank, List.dropWhile_cons, h.1.1.1, if_neg Bool.false_ne_true]

/-- The text of a value begins with a character that is not closing. -/
theorem exists_write_eq_cons (j : Json) (rest : List Char) :
    ∃ c cs, j.write rest = c :: cs ∧ isClosing c = false := by
  cases j with
  | null => exact ⟨_, _, rfl, rfl⟩
  | bool b => cases b <;> exact ⟨_, _, rfl, rfl⟩
  | number l =>
    obtain ⟨d, ds, hdigits, -⟩ := Decimal.exists_digits_eq_cons l.whole
    show ∃ c cs, l.write true rest = c :: cs ∧ isClosing c = false
    rw [write_literal, hdigits]
    split
    · exact ⟨_, _, rfl, rfl⟩
    · exact ⟨_, _, rfl, isClosing_toChar d⟩
  | string text => cases text <;> exact ⟨_, _, rfl, rfl⟩
  | array items => exact ⟨_, _, rfl, rfl⟩
  | object members => exact ⟨_, _, rfl, rfl⟩
  | cut read skipped => exact ⟨_, _, rfl, rfl⟩

/-- What follows a value of an array, or a member of an object, may follow a value. -/
theorem Items.delimited_writeNext (items : Items) (rest : List Char) :
    Delimited (items.writeNext rest) := by
  cases items <;> (rintro c ⟨⟩; simp)

theorem Members.delimited_writeNext (members : Members) (rest : List Char) :
    Delimited (members.writeNext rest) := by
  cases members <;> (rintro c ⟨⟩; simp)

/-! ## Atoms -/

/-- A digit begins a number without a sign. -/
theorem readValue_toChar (fuel : Nat) (d : Digit) (cs : List Char) :
    readValue (fuel + 1) (d.toChar :: cs) = readNumber false (d.toChar :: cs) := by
  have hdigit : d.toChar.isDigit = true := by
    revert d
    decide
  rw [readValue, skipBlank_of_not_isClosing (isClosing_toChar d)]
  -- Only the last case is left: what begins any other value is no digit.
  split
  · rename_i heq
    cases heq
  all_goals rename_i heq
  all_goals injection heq with hc hcs
  all_goals subst hcs
  all_goals try (rw [hc] at hdigit; cases hdigit)
  rw [← hc, if_pos hdigit]

/-- A number is read up to what may follow it. -/
theorem readValue_write_literal (fuel : Nat) (l : Literal) {rest : List Char} (h : Delimited rest) :
    readValue (fuel + 1) (l.write true rest) = (.number l, some rest) := by
  obtain ⟨negative, whole, fraction, exponent⟩ := l
  have hnumber := readNumber_writeDigits h negative whole fraction exponent
  rw [write_literal]
  cases negative with
  | true =>
    rw [if_pos rfl, readValue, skipBlank_of_not_isClosing rfl]
    exact hnumber
  | false =>
    obtain ⟨d, ds, hdigits, -⟩ := Decimal.exists_digits_eq_cons whole
    rw [hdigits] at hnumber
    rw [if_neg Bool.false_ne_true, hdigits, Decimal.Literal.writeDigits_cons, readValue_toChar]
    exact hnumber

/-- A name is read to its end. -/
theorem readName_append (value : Json) (expected rest : List Char) :
    readName value expected (expected ++ rest) = (value, some rest) := by
  induction expected with
  | nil => rfl
  | cons e expected ih =>
    rw [List.cons_append, readName, if_pos rfl, ih]

/-- A string is read to its closing quote. -/
theorem readValue_write_string (fuel : Nat) (s : String) (rest : List Char) :
    readValue (fuel + 1) (Quoted.write s rest) = (.string (some s), some rest) := by
  rw [Quoted.write, readValue, skipBlank_of_not_isClosing rfl]
  simp only [Quoted.read_write]

/-! ## One step of a container -/

section

variable {fuel : Nat} {cs rest rest' : List Char} {v : Json}

/-- A value of an array is read, and then those behind it. -/
theorem readItem_eq {vs : Items} (hv : readValue fuel cs = (v, some rest))
    (hvs : readItems fuel false rest = (vs, some rest')) :
    readItem (fuel + 1) cs = (.item v vs, some rest') := by
  rw [readItem, hv]
  simp only [hvs]

/-- A member of an object is read, and then those behind it. -/
theorem readMember_eq {ms : Members} (k : String) (hv : readValue fuel cs = (v, some rest))
    (hms : readMembers fuel false rest = (ms, some rest')) :
    readMember (fuel + 1) (Quoted.write k (':' :: cs)) = (.member (some k) v ms, some rest') := by
  have hcolon : skipBlank (':' :: cs) = ':' :: cs := skipBlank_of_not_isClosing rfl cs
  rw [Quoted.write, readMember, Quoted.read_write]
  simp only [hcolon, hv, hms]

/-- The first value of an array begins behind the bracket, every other one behind a comma. -/
theorem readItems_first {c : Char} (hc : isClosing c = false) :
    readItems (fuel + 1) true (c :: cs) = readItem fuel (c :: cs) := by
  rw [readItems, skipBlank_of_not_isClosing hc]
  split
  · rename_i heq
    cases heq
  · rename_i heq
    cases heq
    cases hc
  · rename_i heq
    cases heq
    rfl

theorem readItems_next {c : Char} (hc : isClosing c = false) :
    readItems (fuel + 1) false (',' :: c :: cs) = readItem fuel (c :: cs) := by
  have hcomma : skipBlank (',' :: c :: cs) = ',' :: c :: cs := rfl
  rw [readItems, hcomma]
  split
  · rename_i heq
    cases heq
  · rename_i heq
    cases heq
  · rename_i heq
    cases heq
    rw [if_neg Bool.false_ne_true, if_pos rfl, skipBlank_of_not_isClosing hc]
    split
    · rename_i heq
      cases heq
      cases hc
    · rfl

/-- The first member of an object begins behind the brace, every other one behind a comma. -/
theorem readMembers_first (k : String) :
    readMembers (fuel + 1) true (Quoted.write k cs) = readMember fuel (Quoted.write k cs) := rfl

theorem readMembers_next (k : String) :
    readMembers (fuel + 1) false (',' :: Quoted.write k cs) =
      readMember fuel (Quoted.write k cs) := rfl

end

/-! ## Trees -/

section

variable [ScalarText]

mutual

/-- A value without faults is read up to what may follow it. -/
theorem readValue_write : ∀ (j : Json) (room fuel : Nat) (rest : List Char),
    j.readFault room = none → Delimited rest → 3 * (j.write rest).length ≤ fuel →
    readValue fuel (j.write rest) = (j, some rest)
  | j, _, 0, rest, _, _, hfuel => by
    have hlength := j.length_write rest
    omega
  | .null, _, _ + 1, rest, _, _, _ => readName_append .null ['u', 'l', 'l'] rest
  | .bool true, _, _ + 1, rest, _, _, _ => readName_append (.bool true) ['r', 'u', 'e'] rest
  | .bool false, _, _ + 1, rest, _, _, _ =>
    readName_append (.bool false) ['a', 'l', 's', 'e'] rest
  | .number l, _, fuel + 1, _, _, hrest, _ => readValue_write_literal fuel l hrest
  | .string (some s), _, fuel + 1, rest, _, _, _ => readValue_write_string fuel s rest
  | .string none, _, _ + 1, _, hfault, _, _ => by cases hfault
  | .array items, 0, _ + 1, _, hfault, _, _ => by cases hfault
  | .array items, room + 1, fuel + 1, rest, hfault, _, hfuel => by
    have hfuel' : 3 * ('[' :: items.writeFirst rest).length ≤ fuel + 1 := hfuel
    rw [List.length_cons] at hfuel'
    have hitems := (Items.readItems_write items room fuel rest hfault).1 (by omega)
    show readValue (fuel + 1) ('[' :: items.writeFirst rest) = _
    rw [readValue, skipBlank_of_not_isClosing rfl]
    simp only [hitems]
  | .object members, 0, _ + 1, _, hfault, _, _ => by cases hfault
  | .object members, room + 1, fuel + 1, rest, hfault, _, hfuel => by
    have hfuel' : 3 * ('\x7b' :: members.writeFirst rest).length ≤ fuel + 1 := hfuel
    rw [List.length_cons] at hfuel'
    have hmembers := (Members.readMembers_write members room fuel rest hfault).1 (by omega)
    show readValue (fuel + 1) ('\x7b' :: members.writeFirst rest) = _
    rw [readValue, skipBlank_of_not_isClosing rfl]
    simp only [hmembers]
  | .cut _ _, _, _ + 1, _, hfault, _, _ => by cases hfault

/-- The values of an array without faults are read, from the first on or behind one of them. -/
theorem Items.readItems_write : ∀ (items : Items) (room fuel : Nat) (rest : List Char),
    items.readFault room = none →
    (3 * (items.writeFirst rest).length + 2 ≤ fuel →
      readItems fuel true (items.writeFirst rest) = (items, some rest)) ∧
    (3 * (items.writeNext rest).length + 2 ≤ fuel →
      readItems fuel false (items.writeNext rest) = (items, some rest))
  | _, _, 0, _, _ => ⟨fun h => by omega, fun h => by omega⟩
  | .stop none, _, _ + 1, _, _ => ⟨fun _ => rfl, fun _ => rfl⟩
  | .stop (some _), _, _ + 1, _, hfault => by cases hfault
  | .item v vs, room, fuel + 1, rest, hfault => by
    obtain ⟨hv, hvs⟩ := Option.or_eq_none_iff.1 hfault
    have hlength := v.length_write (vs.writeNext rest)
    have hitem : ∀ fuel, 3 * (v.write (vs.writeNext rest)).length + 1 ≤ fuel →
        readItem fuel (v.write (vs.writeNext rest)) = (.item v vs, some rest) := by
      rintro (_ | fuel) hfuel
      · omega
      · exact readItem_eq
          (readValue_write v room fuel _ hv (vs.delimited_writeNext rest) (by omega))
          ((Items.readItems_write vs room fuel rest hvs).2 (by omega))
    obtain ⟨c, cs, htext, hc⟩ := v.exists_write_eq_cons (vs.writeNext rest)
    constructor
    · intro hfuel
      have hfuel' : 3 * (v.write (vs.writeNext rest)).length + 2 ≤ fuel + 1 := hfuel
      show readItems (fuel + 1) true (v.write (vs.writeNext rest)) = _
      rw [htext, readItems_first hc, ← htext]
      exact hitem fuel (by omega)
    · intro hfuel
      have hfuel' : 3 * (',' :: v.write (vs.writeNext rest)).length + 2 ≤ fuel + 1 := hfuel
      rw [List.length_cons] at hfuel'
      show readItems (fuel + 1) false (',' :: v.write (vs.writeNext rest)) = _
      rw [htext, readItems_next hc, ← htext]
      exact hitem fuel (by omega)

/-- So are the members of an object. -/
theorem Members.readMembers_write : ∀ (members : Members) (room fuel : Nat) (rest : List Char),
    members.readFault room = none →
    (3 * (members.writeFirst rest).length + 2 ≤ fuel →
      readMembers fuel true (members.writeFirst rest) = (members, some rest)) ∧
    (3 * (members.writeNext rest).length + 2 ≤ fuel →
      readMembers fuel false (members.writeNext rest) = (members, some rest))
  | _, _, 0, _, _ => ⟨fun h => by omega, fun h => by omega⟩
  | .stop none, _, _ + 1, _, _ => ⟨fun _ => rfl, fun _ => rfl⟩
  | .stop (some _), _, _ + 1, _, hfault => by cases hfault
  | .member none _ _, _, _ + 1, _, hfault => by cases hfault
  | .member (some k) v ms, room, fuel + 1, rest, hfault => by
    obtain ⟨hv, hms⟩ := Option.or_eq_none_iff.1 hfault
    have hlength := v.length_write (ms.writeNext rest)
    have hquoted := Quoted.length_write k (':' :: v.write (ms.writeNext rest))
    rw [List.length_cons] at hquoted
    have hmember : ∀ fuel,
        3 * (Quoted.write k (':' :: v.write (ms.writeNext rest))).length + 1 ≤ fuel →
        readMember fuel (Quoted.write k (':' :: v.write (ms.writeNext rest))) =
          (.member (some k) v ms, some rest) := by
      rintro (_ | fuel) hfuel
      · omega
      · exact readMember_eq k
          (readValue_write v room fuel _ hv (ms.delimited_writeNext rest) (by omega))
          ((Members.readMembers_write ms room fuel rest hms).2 (by omega))
    constructor
    · intro hfuel
      have hfuel' : 3 * (Quoted.write k (':' :: v.write (ms.writeNext rest))).length + 2 ≤
        fuel + 1 := hfuel
      show readMembers (fuel + 1) true (Quoted.write k (':' :: v.write (ms.writeNext rest))) = _
      rw [readMembers_first]
      exact hmember fuel (by omega)
    · intro hfuel
      have hfuel' : 3 * (',' :: Quoted.write k (':' :: v.write (ms.writeNext rest))).length + 2 ≤
        fuel + 1 := hfuel
      rw [List.length_cons] at hfuel'
      show readMembers (fuel + 1) false
        (',' :: Quoted.write k (':' :: v.write (ms.writeNext rest))) = _
      rw [readMembers_next]
      exact hmember fuel (by omega)

end

end

end PolicyValue.Json

namespace PolicyValue

/-- **The text of a tree without faults reads as this tree**, with nothing behind it. -/
theorem Document.ofString_text [ScalarText] {j : Json} {room : Nat}
    (h : j.readFault room = none) : Document.ofString j.text = ⟨j, false⟩ := by
  have hread : Json.read (j.write []) = (j, some []) := by
    refine Json.readValue_write j room _ [] h (fun c hc => by cases hc) ?_
    omega
  rw [Document.ofString, Json.text, String.toList_ofList, hread]
  rfl

end PolicyValue
