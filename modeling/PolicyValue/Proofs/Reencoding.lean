import PolicyValue.Proofs.Export
import PolicyValue.Proofs.Transport

/-!
# Archives that were read, written again

Every text that is read gives an archive that can be written and read again, unless a tensor holds a
scalar that is not finite: a literal beyond the greatest scalar is read as infinity, infinity is
written as `null`, and no reader takes that for a scalar.  Only the epsilon is checked to be finite.

* `Archive.get?_headerKey_of_ofString`: what is read keeps no record under the key of the header;
* `Archive.ofString_toString_of_ofString`: its text is read back, or refused for a tensor entry.
-/

namespace PolicyValue

namespace Archive

/-- The entries of all tensors of an archive, as they are written. -/
def tensorEntries (a : Archive) : List Float32 :=
  a.parameters.entries.flatMap fun e => e.2.scalars

/-- A valid archive has the version that is read and a finite epsilon. -/
theorem version_of_validate {a : Archive} (h : a.validate = .ok ()) :
    a.header.version = archiveVersion ∧ a.header.epsilon.isFinite = true := by
  obtain ⟨hversion, -, -, hepsilon⟩ := validate_eq_ok_iff.1 h
  exact ⟨hversion, hepsilon.1⟩

section

variable [ScalarText]

/-- Members are stored under keys other than that of the header. -/
theorem get?_headerKey_of_decodeMembers {header : Option Header} {records : Dict Record}
    {ms : List (Option String × Json)} {a : Archive}
    (h : decodeMembers header records ms = .ok a) (hrecords : records.get? headerKey = none) :
    a.parameters.get? headerKey = none := by
  induction ms generalizing header records with
  | nil =>
    cases header with
    | none => cases h
    | some header =>
      obtain rfl := Except.ok.inj h
      exact hrecords
  | cons m ms ih =>
    obtain ⟨key, value⟩ := m
    cases key with
    | none => cases header <;> cases h
    | some key =>
      rw [decodeMembers] at h
      by_cases hkey : key = headerKey
      · rw [if_pos hkey] at h
        obtain ⟨header', -, hrest⟩ := bind_eq_ok.1 h
        exact ih hrest hrecords
      · rw [if_neg hkey] at h
        obtain ⟨r, -, hrest⟩ := bind_eq_ok.1 h
        refine ih hrest ?_
        rw [Dict.get?_insert, if_neg (Ne.symm hkey), hrecords]

/-- A text that is read has the structure of an archive, and the archive is valid. -/
theorem exists_decode_of_ofString {text : String} {a : Archive} (h : ofString text = .ok a) :
    ∃ tree, decode tree = .ok a ∧ a.validate = .ok () := by
  rw [ofString] at h
  obtain ⟨tree, -, h⟩ := bind_eq_ok.1 h
  obtain ⟨⟨⟩, -, h⟩ := bind_eq_ok.1 h
  obtain ⟨b, hdecode, h⟩ := bind_eq_ok.1 h
  obtain ⟨⟨⟩, hvalid, h⟩ := bind_eq_ok.1 h
  obtain rfl := pure_eq_ok.1 h
  refine ⟨tree, ?_, hvalid⟩
  cases htree : decode tree with
  | ok c =>
    rw [htree] at hdecode
    exact congrArg Except.ok (Except.ok.inj hdecode)
  | error fault =>
    rw [htree] at hdecode
    cases hdecode

/-- No record that was read stands under the key of the header. -/
theorem get?_headerKey_of_ofString {text : String} {a : Archive} (h : ofString text = .ok a) :
    a.parameters.get? headerKey = none := by
  obtain ⟨tree, hdecode, -⟩ := exists_decode_of_ofString h
  cases tree with
  | object members => exact get?_headerKey_of_decodeMembers hdecode (Dict.get?_empty headerKey)
  | _ => cases hdecode

/-- **What was read can be written and read again.**  The text of an archive that was read is read
back as this archive if the entries of its tensors are finite, and is refused otherwise. -/
theorem ofString_toString_of_ofString {text : String} {a : Archive} (h : ofString text = .ok a)
    (hscalars : ScalarText.ReadsBack a.scalars) :
    ofString a.toString =
      if ∀ x ∈ a.tensorEntries, x.isFinite = true then .ok a else .error (.json .mismatched) := by
  obtain ⟨tree, -, hvalid⟩ := exists_decode_of_ofString h
  obtain ⟨hversion, hepsilon⟩ := version_of_validate hvalid
  have hfinite : Scalar.allFinite a.scalars = true ↔ ∀ x ∈ a.tensorEntries, x.isFinite = true := by
    show (a.header.epsilon.isFinite && Scalar.allFinite a.tensorEntries) = true ↔ _
    rw [hepsilon, Bool.true_and]
    exact List.all_eq_true
  rw [ofString_toString_of_version (get?_headerKey_of_ofString h) hscalars hversion, hvalid]
  simp only [hfinite]
  rfl

end

/-! ## Two texts -/

/-- A text with a repeated key, an unknown member and an integer for a scalar. -/
def repeatedText : String :=
  "\x7b\"k\":null,\"_meta\":\x7b\"version\":2,\"state_size\":501,\"action_size\":54," ++
  "\"note\":null,\"graph\":\x7b\x7d\x7d,\"k\":\x7b\"gamma\":[1],\"beta\":[]\x7d\x7d"

/-- What is read from it. -/
def repeated : Archive where
  header := ⟨archiveVersion, stateSize.toUInt64, actionSize.toUInt64, .empty,
    Network.Config.defaultEpsilon⟩
  parameters := .ofList [("k", .norm [Scalar.one] [])]

/-- This archive is read from the text and from its own. -/
theorem ofString_toString_repeated :
    ofString repeatedText = .ok repeated ∧ ofString repeated.toString = .ok repeated := by
  have hread : ofString repeatedText = .ok repeated := by decide +kernel
  have hscalars : ScalarText.ReadsBack repeated.scalars := by
    rw [ScalarText.ReadsBack]
    decide +kernel
  have hfinite : ∀ x ∈ repeated.tensorEntries, x.isFinite = true := by decide +kernel
  have hagain := ofString_toString_of_ofString hread hscalars
  rw [if_pos hfinite] at hagain
  exact ⟨hread, hagain⟩

/-- A text with a literal beyond the greatest scalar. -/
def overflowText : String :=
  "\x7b\"_meta\":\x7b\"version\":2,\"state_size\":501,\"action_size\":54," ++
  "\"graph\":\x7b\x7d\x7d,\"k\":\x7b\"gamma\":[1e39],\"beta\":[]\x7d\x7d"

/-- What is read from it. -/
def overflow : Archive where
  header := ⟨archiveVersion, stateSize.toUInt64, actionSize.toUInt64, .empty,
    Network.Config.defaultEpsilon⟩
  parameters := .ofList [("k", .norm [Scalar.infinity] [])]

/-- This archive is read from the text and not from its own. -/
theorem ofString_toString_overflow :
    ofString overflowText = .ok overflow ∧ ScalarText.ReadsBack overflow.scalars ∧
      ofString overflow.toString = .error (.json .mismatched) := by
  have hread : ofString overflowText = .ok overflow := by decide +kernel
  have hscalars : ScalarText.ReadsBack overflow.scalars := by
    rw [ScalarText.ReadsBack]
    decide +kernel
  have hkey : overflow.parameters.get? headerKey = none := by decide +kernel
  have hinfinite : ¬ Scalar.allFinite overflow.scalars = true := by decide +kernel
  refine ⟨hread, hscalars, ?_⟩
  rw [ofString_toString_of_version hkey hscalars rfl, if_neg hinfinite]

end Archive

end PolicyValue
