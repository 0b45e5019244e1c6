import PolicyValue.Proofs.Reencoding
import PolicyValue.Proofs.Safety

/-!
# Foreign archives are refused

The version is looked up in the tree of a text before anything is made of its structure, so a text
of another version, or of none, is refused for that, however malformed the rest is.  An archive that
is not valid is refused by every reader with the error of its validation, whatever else is wrong
with it, and no reader has changed anything by then.

* `Json.DeclaresVersion`: the version that a tree has in its header;
* `Archive.ofString_of_version`, `Archive.ofString_of_no_version`: texts of other versions;
* `Archive.readers_fail_closed`: what all readers refuse.
-/

namespace PolicyValue

/-- A tree has a version in its header, written as a natural number within a word of 64 bits. -/
def Json.DeclaresVersion (tree : Json) (n : Nat) : Prop :=
  ∃ header, tree.member? Archive.headerKey = some header ∧
    header.member? "version" = some (.ofNat n) ∧ n < 2 ^ 64

/-! ## Naturals within a word -/

/-- Only literals of naturals denote them. -/
theorem Decimal.Literal.eq_ofNat_of_integer? {l : Decimal.Literal} {n : Nat}
    (h : l.integer? = some (.ofNat n)) : l = .ofNat n := by
  obtain ⟨negative, whole, fraction, exponent⟩ := l
  unfold integer? at h
  split at h
  · rename_i hfraction hexponent
    dsimp only at hfraction hexponent h
    subst hfraction hexponent
    split at h
    · split at h
      · -- A number below zero is no natural.
        rename_i hrange
        have hwhole : -(whole : Int) = n := Option.some.inj h
        omega
      · cases h
    · rename_i hsign
      split at h
      · have hwhole : (whole : Int) = n := Option.some.inj h
        rw [Bool.eq_false_iff.2 hsign, Int.natCast_inj.1 hwhole]
        rfl
      · cases h
  · cases h

section

variable [ScalarText]

/-- A tree is read as a natural below a bound exactly if it is the tree of one. -/
theorem Codec.decodeNat_eq_ok_iff {bound n : Nat} (hbound : bound ≤ Decimal.wordBound) {j : Json} :
    decodeNat bound j = .ok n ↔ j = .ofNat n ∧ n < bound := by
  constructor
  · intro h
    cases j with
    | number l =>
      rw [decodeNat] at h
      split at h
      · rename_i m hinteger
        split at h
        · rename_i hlt
          obtain rfl := Except.ok.inj h
          exact ⟨congrArg Json.number (Decimal.Literal.eq_ofNat_of_integer? hinteger), hlt⟩
        · cases h
      · cases h
      · cases h
    | _ => cases h
  · rintro ⟨rfl, hlt⟩
    exact decodeNat_ofNat hbound hlt

namespace Archive

/-- The version that is looked up is the one in the header. -/
theorem declaredVersion?_eq_some_iff {tree : Json} {n : Nat} :
    declaredVersion? tree = some n ↔ tree.DeclaresVersion n := by
  have hdecode : ∀ j : Json, (Codec.decodeNat Decimal.wordBound j).toOption = some n ↔
      j = .ofNat n ∧ n < 2 ^ 64 := fun j => by
    have hdecode := Codec.decodeNat_eq_ok_iff (n := n) (Nat.le_refl Decimal.wordBound) (j := j)
    cases h : Codec.decodeNat Decimal.wordBound j with
    | error fault =>
      rw [h] at hdecode
      exact iff_of_false nofun (mt hdecode.2 nofun)
    | ok m =>
      rw [h, Except.ok.injEq] at hdecode
      exact Option.some_inj.trans hdecode
  have hbind : declaredVersion? tree = some n ↔ ∃ header, tree.member? headerKey = some header ∧
      ∃ version, header.member? "version" = some version ∧
        (Codec.decodeNat Decimal.wordBound version).toOption = some n := by
    simp only [declaredVersion?, Option.bind_eq_bind, Option.bind_eq_some_iff]
  rw [hbind]
  simp only [hdecode]
  constructor
  · rintro ⟨header, hheader, version, hversion, rfl, hlt⟩
    exact ⟨header, hheader, hversion, hlt⟩
  · rintro ⟨header, hheader, hversion, hlt⟩
    exact ⟨header, hheader, _, hversion, rfl, hlt⟩

/-- A text is refused for its version before anything is made of its structure. -/
theorem ofString_of_checkVersion {text : String} {tree : Json} (htree : readTree text = .ok tree)
    {e : Error} (h : checkVersion tree = .error e) : ofString text = .error e := by
  have hread : (readTree text).mapError Error.json = .ok tree := by rw [htree]; rfl
  rw [ofString, hread, ok_bind, h]
  rfl

/-- **A text without a version is refused**, whatever it holds. -/
theorem ofString_of_no_version {text : String} {tree : Json} (htree : readTree text = .ok tree)
    (h : ∀ n, ¬ tree.DeclaresVersion n) : ofString text = .error (.unknownGraphVersion 0) := by
  have hnone : declaredVersion? tree = none :=
    Option.eq_none_iff_forall_ne_some.2 fun n hn => h n (declaredVersion?_eq_some_iff.1 hn)
  refine ofString_of_checkVersion htree ?_
  rw [checkVersion, hnone]

/-- **A text of another version is refused** with this version, whatever it holds. -/
theorem ofString_of_version {text : String} {tree : Json} (htree : readTree text = .ok tree)
    {n : Nat} (h : tree.DeclaresVersion n) (hn : n ≠ 2) : ofString text =
      .error (.unknownGraphVersion (if n < 2 ^ 32 then n.toUInt32 else 0xffffffff)) := by
  have hother : ¬ n = archiveVersion.toNat := hn
  refine ofString_of_checkVersion htree ?_
  rw [checkVersion, declaredVersion?_eq_some_iff.2 h]
  dsimp only
  rw [if_neg hother]
  by_cases hword : n < 2 ^ 32
  · rw [if_pos hword]
    exact if_pos hword
  · rw [if_neg hword]
    exact if_neg hword

end Archive

end

/-! ## Invalid archives -/

namespace Archive

/-- An executor is not built from an invalid archive. -/
theorem ofArchive_of_validate {a : Archive} {e : Error} (h : a.validate = .error e) :
    Executor.ofArchive a = .error e := by
  rw [Executor.ofArchive, h]
  rfl

/-- A network does not load an invalid archive, and stays as it is. -/
theorem load_of_validate {a : Archive} {e : Error} (h : a.validate = .error e) (net : Network) :
    net.load a = (net, .error e) := by
  have hstage : net.stage a = .error e := by
    rw [Network.stage, checkEpsilon, h]
    rfl
  rw [Network.load, hstage]

/-- A network is not imported from an invalid archive. -/
theorem import_of_validate {a : Archive} {e : Error} (h : a.validate = .error e)
    {c : Network.Config} {seed : UInt64} (hdraw : Network.draw c seed ≠ .error .unboundedRange) :
    Network.ofArchive a c seed = .error e := by
  have hpositive : c.Positive := by
    by_contra hnot
    exact hdraw (Network.draw_eq_error_iff.2 hnot)
  obtain ⟨h₁, h₂, h₃, h₄, h₅⟩ := hpositive
  obtain ⟨fresh, hfresh⟩ :=
    @Network.exists_draw { c with epsilon := a.header.epsilon } ⟨h₁, h₂, h₃, h₄, h₅⟩ seed
  rw [Network.ofArchive, hfresh, ok_bind, load_of_validate h]
  rfl

/-- **Readers fail closed.**  A text whose tree has no version is refused as one of version 0, a
text of another version than 2 as one of that version, or of the greatest one if it is beyond a word
of 32 bits, and a text is read only as an archive that is valid.  With the error of its validation
an invalid archive is refused by executors, by every network, which stays as it is, and by imports
in every configuration in which a network can be drawn. -/
theorem readers_fail_closed [ScalarText] :
    (∀ (text : String) (tree : Json), readTree text = .ok tree →
      ((∀ n, ¬ tree.DeclaresVersion n) → ofString text = .error (.unknownGraphVersion 0)) ∧
      ∀ n, tree.DeclaresVersion n → n ≠ 2 → ofString text =
        .error (.unknownGraphVersion (if n < 2 ^ 32 then n.toUInt32 else 0xffffffff))) ∧
    (∀ (text : String) (a : Archive), ofString text = .ok a → a.validate = .ok ()) ∧
    ∀ (a : Archive) (e : Error), a.validate = .error e →
      Executor.ofArchive a = .error e ∧ (∀ net : Network, net.load a = (net, .error e)) ∧
      ∀ (c : Network.Config) (seed : UInt64), Network.draw c seed ≠ .error .unboundedRange →
        Network.ofArchive a c seed = .error e := by
  refine ⟨fun text tree htree => ⟨ofString_of_no_version htree, fun n => ofString_of_version htree⟩,
    fun text a h => ?_, fun a e h => ⟨ofArchive_of_validate h, load_of_validate h, fun c seed =>
      import_of_validate h⟩⟩
  obtain ⟨-, -, hvalid⟩ := exists_decode_of_ofString h
  exact hvalid

/-! ## Foreign texts and a foreign archive -/

/-- A text of version 3 whose graph and whose record are malformed. -/
def foreignText : String := "\x7b\"_meta\":\x7b\"version\":3,\"graph\":7\x7d,\"k\":[null]\x7d"

/-- Its tree. -/
def foreignTree : Json :=
  .ofMembers [("_meta", .ofMembers [("version", .ofNat 3), ("graph", .ofNat 7)]),
    ("k", .ofItems [.null])]

/-- A text whose version is an integer that is not written as one. -/
def scaledText : String := "\x7b\"_meta\":\x7b\"version\":2e0\x7d\x7d"

/-- Its tree. -/
def scaledTree : Json :=
  .ofMembers [("_meta", .ofMembers [("version", .number ⟨false, 2, [], some 0⟩)])]

/-- An archive of version 3 without a graph and without records. -/
def foreign : Archive where
  header := ⟨3, stateSize.toUInt64, actionSize.toUInt64, .empty, Network.Config.defaultEpsilon⟩
  parameters := .empty

/-- All readers refuse them. -/
theorem readers_fail_closed_foreign :
    ofString foreignText = .error (.unknownGraphVersion 3) ∧
      ofString scaledText = .error (.unknownGraphVersion 0) ∧
      repeated.validate = .ok () ∧
      Executor.ofArchive foreign = .error (.unknownGraphVersion 3) ∧
      (∀ net : Network, net.load foreign = (net, .error (.unknownGraphVersion 3))) ∧
      Network.ofArchive foreign Network.Config.single 7 = .error (.unknownGraphVersion 3) := by
  obtain ⟨htext, hread, hreaders⟩ := readers_fail_closed
  have hforeign : readTree foreignText = .ok foreignTree := by decide +kernel
  have hscaled : readTree scaledText = .ok scaledTree := by decide +kernel
  have hrepeated : ofString repeatedText = .ok repeated := by decide +kernel
  have hdraw : Network.draw Network.Config.single 7 ≠ .error .unboundedRange := fun h =>
    Network.draw_eq_error_iff.1 h Network.Config.positive_single
  obtain ⟨hexecutor, hload, himport⟩ := hreaders foreign (.unknownGraphVersion 3) rfl
  refine ⟨(htext _ _ hforeign).2 3 ⟨_, rfl, rfl, by decide⟩ (by decide),
    (htext _ _ hscaled).1 ?_, hread _ _ hrepeated, hexecutor, hload, himport _ 7 hdraw⟩
  rintro n ⟨header, hheader, hversion, -⟩
  obtain rfl := Option.some.inj hheader
  cases hversion

end Archive

end PolicyValue
