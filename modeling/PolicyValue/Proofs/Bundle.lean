import PolicyValue.Proofs.Files
import PolicyValue.Proofs.Forward
import PolicyValue.Proofs.Recording
import PolicyValue.Proofs.Refinement
import PolicyValue.Proofs.Reimport
import PolicyValue.Proofs.Transport
import PolicyValue.Scalar.Binary32

/-!
# Bundles on disk

A bundle that was saved is checked from its two files.  Nothing but these texts passes from one to
the other, so the check is the replay of what was written (`Bundle.replay`), and the replay goes
through the same archive and the same vector if they are read at all.

* `Bundle.save_eq_ok`, `Bundle.check_outcome`: the two files between saving and checking;
* `Bundle.passed_of_replay`, `Bundle.exists_replay`: which bundles are replayed;
* `Bundle.check_save_iff`: which saved bundles are checked, and that the check passes;
* `Bundle.savedAndRefused_corners`: configurations that can be saved but not checked.
-/

namespace PolicyValue

/-- No record of an export stands under the key of the header. -/
theorem Network.get?_headerKey_toArchive (net : Network) :
    net.toArchive.parameters.get? Archive.headerKey = none := by
  refine Dict.get?_ofList_of_notMem ?_
  rw [keys_records]
  decide

/-! ## A text of scalars that is always read back -/

namespace Scalar

open Float.Model (Format)

/-- Whether some bits are those of a scalar; of all NaNs one is a scalar. -/
instance decidableValid (bits : UInt32) : Decidable (Format.binary32.Valid bits.toBitVec) :=
  decidable_of_iff
    (@Float.Model.UnpackedFloat.unpackExponent .binary32 bits.toBitVec = -1#_ →
      @Float.Model.UnpackedFloat.unpackMantissa .binary32 bits.toBitVec ≠ 0#_ →
      bits.toBitVec = Float.Model.UnpackedFloat.packedNaN .binary32)
    ⟨fun h => ⟨h⟩, fun h => h.eq_packedNaN⟩

/-- The scalar with some bits. -/
def ofBits? (bits : UInt32) : Option Float32 :=
  if h : Format.binary32.Valid bits.toBitVec then some ⟨⟨bits, h⟩⟩ else none

/-- A scalar is found by its bits. -/
theorem ofBits?_toBits (x : Float32) : ofBits? x.toBits = some x := by
  obtain ⟨⟨bits, h⟩⟩ := x
  exact dif_pos h

end Scalar

namespace ScalarText

/-- The exponent of literals that show the bits of a scalar; no decimal of a scalar has it. -/
def bitsExponent : Int := 1000

/-- The literal of a scalar: its shortest decimal where that is read back, or else its bits. -/
def writeGuarded (x : Float32) : Decimal.Literal :=
  let l := decimal.write x
  if l.exponent ≠ some bitsExponent ∧ decimal.read l = some x then l
  else ⟨false, x.toBits.toNat, [], some bitsExponent⟩

/-- The scalar of a literal that shows bits, or of a decimal. -/
def readGuarded (l : Decimal.Literal) : Option Float32 :=
  if l.exponent = some bitsExponent then Scalar.ofBits? (.ofNat l.whole) else decimal.read l

/-- Every scalar is read back. -/
theorem readGuarded_writeGuarded (x : Float32) : readGuarded (writeGuarded x) = some x := by
  by_cases h : (decimal.write x).exponent ≠ some bitsExponent ∧
      decimal.read (decimal.write x) = some x
  · have hwrite : writeGuarded x = decimal.write x := if_pos h
    rw [hwrite, readGuarded, if_neg h.1, h.2]
  · have hwrite : writeGuarded x = ⟨false, x.toBits.toNat, [], some bitsExponent⟩ := if_neg h
    rw [hwrite, readGuarded, if_pos rfl, UInt32.ofNat_toNat]
    exact Scalar.ofBits?_toBits x

/-- Shortest decimals, tried out when they are written. -/
@[reducible]
def guarded : ScalarText := ⟨writeGuarded, readGuarded⟩

/-- All scalars are read back. -/
theorem readsBack_guarded (xs : List Float32) : letI := guarded; ReadsBack xs :=
  fun x _ _ => readGuarded_writeGuarded x

end ScalarText

namespace Verification.Bundle

section

variable [Arithmetic] [ScalarText] {w w' : World} {dir : String} {settings : Settings}

/-- What a check makes of the texts of its two files. -/
def replay (weights vector : String) (settings : Settings) : Except Error Report := do
  let archive ← Archive.ofString weights
  let executor ← Executor.ofArchive archive
  let v ← TestVector.ofString vector
  verify executor v settings

/-- A bundle that was saved is in its two files. -/
theorem save_eq_ok {c : Network.Config} {bundle : Bundle}
    (h : (save dir c settings : ExceptT Error (StateM World) Bundle).run.run w = (.ok bundle, w')) :
    build c settings = .ok bundle ∧
      w'.store.read (below dir weightsFile) = .ok bundle.archive.toString ∧
      w'.store.read (below dir testCaseFile) = .ok bundle.vector.toString := by
  rw [save] at h
  obtain ⟨⟨⟩, w₁, -, h⟩ := World.run_bind_eq_ok.1 h
  obtain ⟨⟨⟩, w₂, -, h⟩ := World.run_bind_eq_ok.1 h
  obtain ⟨built, w₃, hbuild, h⟩ := World.run_bind_eq_ok.1 h
  obtain ⟨⟨⟩, w₄, hweights, h⟩ := World.run_bind_eq_ok.1 h
  obtain ⟨⟨⟩, w₅, hvector, h⟩ := World.run_bind_eq_ok.1 h
  obtain ⟨⟨⟩, w₆, hnote, h⟩ := World.run_bind_eq_ok.1 h
  rw [World.run_outcome] at hbuild
  rw [World.run_noteAll] at hnote
  cases h
  cases hnote
  obtain ⟨hstore, hok⟩ := World.run_writeText hweights
  obtain ⟨hstore', hok'⟩ := World.run_writeText hvector
  refine ⟨(Prod.mk.inj hbuild).1, ?_, ?_⟩
  · -- The weights are still there after the test case was written.
    show w₅.store.read _ = _
    rw [hstore] at hstore' hok'
    rw [hstore', Store.read_write_below (by decide) (by decide) rfl rfl (by decide) hok hok']
  · show w₅.store.read _ = _
    rw [hstore', Store.read_write hok']

/-- A check on a sound disk depends on the texts of its two files only. -/
theorem check_outcome {weights vector : String} (hsound : w.Sound)
    (hweights : w.store.read (below dir weightsFile) = .ok weights)
    (hvector : w.store.read (below dir testCaseFile) = .ok vector) :
    ((check dir settings : ExceptT Error (StateM World) Report).run.run w).1 =
      replay weights vector settings := by
  -- Step by step the check gives what the replay gives; between the steps it only notes.
  rw [check, World.run_bind_of_ok (World.run_readText hsound hweights), World.fst_run_bind_outcome,
    replay]
  refine congrArg _ (funext fun archive => ?_)
  rw [World.run_bind_of_ok (World.run_noteAll _ _), World.fst_run_bind_outcome]
  refine congrArg _ (funext fun executor => ?_)
  have hvector' := World.run_readText (w := (w.after w.store).noted (Journal.ofExecutor archive))
    (hsound.after w.store) hvector
  rw [World.run_bind_of_ok hvector', World.fst_run_bind_outcome]
  refine congrArg _ (funext fun v => ?_)
  rw [World.fst_run_bind_outcome]
  refine Eq.trans (congrArg _ (funext fun report => ?_)) (bind_pure _)
  rw [World.run_bind_of_ok (World.run_noteAll _ _)]
  rfl

/-! ## Building and replaying -/

/-- The scalars of a bundle, as they are written into its two files. -/
def scalars (b : Bundle) : List Float32 := b.archive.scalars ++ b.vector.scalars

omit [ScalarText] in
/-- A bundle is the export of a fresh network with a vector recorded from it. -/
theorem build_eq_ok {c : Network.Config} {bundle : Bundle} :
    build c settings = .ok bundle ↔ ∃ net v, Network.draw c settings.initSeed = .ok net ∧
      TestVector.record net settings.inputSeed settings.actions.toNat = .ok v ∧
      bundle = ⟨net.toArchive, v⟩ := by
  constructor
  · intro h
    obtain ⟨net, hnet, h⟩ := bind_eq_ok.1 h
    obtain ⟨v, hv, h⟩ := bind_eq_ok.1 h
    exact ⟨net, v, hnet, hv, (pure_eq_ok.1 h).symm⟩
  · rintro ⟨net, v, hnet, hv, rfl⟩
    exact bind_eq_ok.2 ⟨net, hnet, bind_eq_ok.2 ⟨v, hv, rfl⟩⟩

/-- A replay goes through both texts and the executor. -/
theorem replay_eq_ok {weights vector : String} {report : Report} :
    replay weights vector settings = .ok report ↔ ∃ archive e v,
      Archive.ofString weights = .ok archive ∧ Executor.ofArchive archive = .ok e ∧
      TestVector.ofString vector = .ok v ∧ verify e v settings = .ok report := by
  constructor
  · intro h
    obtain ⟨archive, harchive, h⟩ := bind_eq_ok.1 h
    obtain ⟨e, he, h⟩ := bind_eq_ok.1 h
    obtain ⟨v, hv, h⟩ := bind_eq_ok.1 h
    exact ⟨archive, e, v, harchive, he, hv, h⟩
  · rintro ⟨archive, e, v, harchive, he, hv, h⟩
    exact bind_eq_ok.2 ⟨archive, harchive, bind_eq_ok.2 ⟨e, he, bind_eq_ok.2 ⟨v, hv, h⟩⟩⟩

section

variable {c : Network.Config} {built : Settings} {bundle : Bundle}
  (h : build c built = .ok bundle) (hscalars : ScalarText.ReadsBack bundle.scalars)

include h hscalars

/-- A bundle that is replayed had an admissible epsilon, an embedding of actions and only finite
scalars, and the replay passes. -/
theorem passed_of_replay {report : Report}
    (hreport : replay bundle.archive.toString bundle.vector.toString settings = .ok report) :
    report.passed = true ∧ Scalar.Admissible c.epsilon ∧ 1 ≤ c.actionEmbed.toNat ∧
      ∀ x ∈ bundle.scalars, x.isFinite = true := by
  obtain ⟨net, v, hnet, hv, rfl⟩ := build_eq_ok.1 h
  obtain ⟨hwf, rfl⟩ := Network.draw_wellFormed hnet
  obtain ⟨state, batch, scored, hinputs, hscored, rfl⟩ := TestVector.record_eq_ok.1 hv
  obtain ⟨harchive, hvector⟩ := ScalarText.readsBack_append.1 hscalars
  obtain ⟨a, e, v, ha, he, hv, hverify⟩ := replay_eq_ok.1 hreport
  -- What was read is what was written, so the replay is one of the network that was drawn.
  obtain ⟨hfinite, -, rfl⟩ :=
    (Archive.ofString_toString_eq_ok net.get?_headerKey_toArchive harchive rfl).1 ha
  obtain ⟨hfinite', rfl⟩ := (TestVector.ofString_toString_eq_ok hvector).1 hv
  obtain ⟨hepsilon, hembed⟩ := hwf.exists_ofArchive_iff.1 ⟨e, he⟩
  refine ⟨?_, hepsilon, hembed, List.forall_mem_append.2 ⟨?_, ?_⟩⟩
  · rw [verify_ofScored settings (TestVector.allValid_of_drawInputs hinputs)
      (Network.length_scores hscored) ((hwf.score_ofArchive he state batch).trans hscored)] at hverify
    obtain rfl := Except.ok.inj hverify
    exact Report.passed_ofSelf settings (TestVector.nanFree_of_allFinite hfinite')
  · exact List.all_eq_true.1 hfinite
  · exact List.all_eq_true.1 hfinite'

/-- A bundle with an admissible epsilon, an embedding of actions and only finite scalars is
replayed. -/
theorem exists_replay (hepsilon : Scalar.Admissible c.epsilon)
    (hembed : 1 ≤ c.actionEmbed.toNat) (hfinite : ∀ x ∈ bundle.scalars, x.isFinite = true) :
    ∃ report, replay bundle.archive.toString bundle.vector.toString settings = .ok report := by
  obtain ⟨net, v, hnet, hv, rfl⟩ := build_eq_ok.1 h
  obtain ⟨hwf, rfl⟩ := Network.draw_wellFormed hnet
  obtain ⟨state, batch, scored, hinputs, hscored, rfl⟩ := TestVector.record_eq_ok.1 hv
  obtain ⟨harchive, hvector⟩ := ScalarText.readsBack_append.1 hscalars
  obtain ⟨hfinite, hfinite'⟩ := List.forall_mem_append.1 hfinite
  obtain ⟨e, he⟩ := hwf.exists_ofArchive_iff.2 ⟨hepsilon, hembed⟩
  have hreport := verify_ofScored settings (TestVector.allValid_of_drawInputs hinputs)
    (Network.length_scores hscored) ((hwf.score_ofArchive he state batch).trans hscored)
  refine ⟨_, replay_eq_ok.2 ⟨net.toArchive, e, _, ?_, he, ?_, hreport⟩⟩
  · exact (Archive.ofString_toString_eq_ok net.get?_headerKey_toArchive harchive rfl).2
      ⟨List.all_eq_true.2 hfinite, Network.validate_toArchive hepsilon, rfl⟩
  · exact (TestVector.ofString_toString_eq_ok hvector).2 ⟨List.all_eq_true.2 hfinite', rfl⟩

end

omit [ScalarText] in
/-- Inputs, a network and its outputs make a bundle if no width that is an input is zero. -/
theorem exists_build {c : Network.Config} (hc : c.Positive) (h : 0 < settings.actions.toNat) :
    ∃ bundle, build c settings = .ok bundle := by
  obtain ⟨net, hnet⟩ := Network.exists_draw hc settings.initSeed
  obtain ⟨state, batch, hinputs⟩ := TestVector.exists_generateInputs settings.inputSeed h
  obtain ⟨scored, hscored⟩ := (Network.draw_wellFormed hnet).1.exists_score state batch
  exact ⟨_, build_eq_ok.2 ⟨net, _, hnet,
    TestVector.record_eq_ok.2 ⟨state, batch, scored, hinputs, hscored, rfl⟩, rfl⟩⟩

omit [Arithmetic] [ScalarText] in
/-- What building notes changes the journal only. -/
theorem exists_run_noteBuild (c : Network.Config) (settings : Settings) (w : World) :
    ∃ entries, (noteBuild c settings : ExceptT Error (StateM World) Unit).run.run w =
      (.ok (), w.noted entries) := by
  unfold noteBuild
  split
  · exact ⟨_, World.run_noteAll _ w⟩
  · exact ⟨[], by rw [World.noted, List.append_nil]; rfl⟩

/-- Saving with the directory made and the bundle built: the two files are left to write. -/
theorem run_save_eq {c : Network.Config} {bundle : Bundle} {made : Store}
    (hmade : w.store.createDirectories dir w.failure = (made, .ok ()))
    (hbuild : build c settings = .ok bundle) :
    ∃ entries, (save dir c settings : ExceptT Error (StateM World) Bundle).run.run w =
      (do
        writeText (below dir weightsFile) bundle.archive.toString
        writeText (below dir testCaseFile) bundle.vector.toString
        noteAll [⟨.info, "wrote " ++ weightsFile ++ " and " ++ testCaseFile ++ " to " ++ dir⟩]
        return bundle : ExceptT Error (StateM World) Bundle).run.run
          ((w.after made).noted entries) := by
  obtain ⟨entries, hnote⟩ := exists_run_noteBuild c settings (w.after made)
  have hbuild' := (World.run_outcome (build c settings) ((w.after made).noted entries)).trans
    (by rw [hbuild])
  refine ⟨entries, ?_⟩
  rw [save, World.run_bind_of_ok (World.run_createDirectories hmade), World.run_bind_of_ok hnote,
    World.run_bind_of_ok hbuild']

/-- Saving ends as the write of its second file does, if all before that succeeds. -/
theorem run_save {c : Network.Config} {bundle : Bundle} {made written full : Store}
    {outcome : Except Error Unit}
    (hmade : w.store.createDirectories dir w.failure = (made, .ok ()))
    (hbuild : build c settings = .ok bundle)
    (hweights : made.write (below dir weightsFile) bundle.archive.toString (w.after made).failure =
      (written, .ok ()))
    (hvector : written.write (below dir testCaseFile) bundle.vector.toString
      ((w.after made).after written).failure = (full, outcome)) :
    ∃ w', (save dir c settings : ExceptT Error (StateM World) Bundle).run.run w =
      (outcome.map fun _ => bundle, w') ∧ w'.store = full := by
  obtain ⟨entries, hsave⟩ := run_save_eq hmade hbuild
  have hweights' := World.run_write (w := (w.after made).noted entries) hweights
  have hvector' := World.run_write (w := ((w.after made).noted entries).after written) hvector
  rw [hsave, World.run_bind_of_ok hweights']
  cases outcome with
  | error e => exact ⟨_, World.run_bind_of_error hvector', rfl⟩
  | ok =>
    rw [World.run_bind_of_ok hvector', World.run_bind_of_ok (World.run_noteAll _ _)]
    exact ⟨_, rfl, rfl⟩

/-- A bundle is saved if its directory can be made and its files can be written. -/
theorem save_of_writes {c : Network.Config} {bundle : Bundle} {made written : Store}
    (hmade : w.store.createDirectories dir w.failure = (made, .ok ()))
    (hbuild : build c settings = .ok bundle)
    (hweights : made.write (below dir weightsFile) bundle.archive.toString (w.after made).failure =
      (written, .ok ()))
    (hvector : (written.write (below dir testCaseFile) bundle.vector.toString
      ((w.after made).after written).failure).2 = .ok ()) :
    ∃ w', (save dir c settings : ExceptT Error (StateM World) Bundle).run.run w =
      (.ok bundle, w') := by
  rcases hfull : written.write (below dir testCaseFile) bundle.vector.toString
    ((w.after made).after written).failure with ⟨full, outcome⟩
  rw [hfull] at hvector
  obtain rfl : outcome = .ok () := hvector
  obtain ⟨w', hrun, -⟩ := run_save hmade hbuild hweights hfull
  exact ⟨w', hrun⟩

/-- The world of an empty directory on a sound disk. -/
def emptyWorld : World := ⟨.empty "home", [], []⟩

omit [Arithmetic] [ScalarText] in
/-- In an empty directory every two texts can be written as a bundle. -/
theorem exists_writes_emptyWorld (text text' : String) : ∃ made written,
    emptyWorld.store.createDirectories "bundle" none = (made, .ok ()) ∧
      made.write (below "bundle" weightsFile) text none = (written, .ok ()) ∧
      (written.write (below "bundle" testCaseFile) text' none).2 = .ok () :=
  ⟨⟨"home", [(["bundle", "home"], .directory), (["home"], .directory)]⟩, _, by decide, rfl, rfl⟩

/-- A bundle of every configuration with positive widths is saved in an empty directory. -/
theorem exists_save_emptyWorld {c : Network.Config} (hc : c.Positive) : ∃ bundle w',
    build c .default = .ok bundle ∧
    (save "bundle" c .default : ExceptT Error (StateM World) Bundle).run.run emptyWorld =
      (.ok bundle, w') := by
  obtain ⟨bundle, hbuild⟩ : ∃ bundle, build c .default = .ok bundle := exists_build hc (by decide)
  obtain ⟨made, written, hmade, hweights, hvector⟩ :=
    exists_writes_emptyWorld bundle.archive.toString bundle.vector.toString
  obtain ⟨w', hsave⟩ := save_of_writes hmade hbuild hweights hvector
  exact ⟨bundle, w', hbuild, hsave⟩

/-! ## Saving and checking -/

/-- **A bundle that was saved is checked exactly if it can be**: its epsilon is admissible, actions
have an embedding, and all its scalars are finite.  The check passes then, whatever its settings.  It
is made at any time when the files are those that were saved, on a disk that does not fail while they
are read. -/
theorem check_save_iff {c : Network.Config} {bundle : Bundle}
    (h : (save dir c settings : ExceptT Error (StateM World) Bundle).run.run w = (.ok bundle, w'))
    (hscalars : ScalarText.ReadsBack bundle.scalars) {later : World}
    (hstore : later.store = w'.store) (hsound : later.Sound) (settings' : Settings) :
    ((∃ report,
        ((check dir settings' : ExceptT Error (StateM World) Report).run.run later).1 = .ok report ∧
          report.passed = true) ↔
      Scalar.Admissible c.epsilon ∧ 1 ≤ c.actionEmbed.toNat ∧
        ∀ x ∈ bundle.scalars, x.isFinite = true) ∧
    ∀ report,
      ((check dir settings' : ExceptT Error (StateM World) Report).run.run later).1 = .ok report →
        report.passed = true := by
  obtain ⟨hbuild, hweights, hvector⟩ := save_eq_ok h
  rw [← hstore] at hweights hvector
  rw [check_outcome hsound hweights hvector]
  refine ⟨⟨?_, ?_⟩, fun report hreport => (passed_of_replay hbuild hscalars hreport).1⟩
  · rintro ⟨report, hreport, -⟩
    exact (passed_of_replay hbuild hscalars hreport).2
  · rintro ⟨hepsilon, hembed, hfinite⟩
    obtain ⟨report, hreport⟩ := exists_replay hbuild hscalars hepsilon hembed hfinite
    exact ⟨report, hreport, (passed_of_replay hbuild hscalars hreport).1⟩

end

/-- In an empty directory, a bundle of widths one is checked exactly if its scalars are finite. -/
theorem check_save_single : letI := ScalarText.guarded
    ∃ bundle w',
      (save "bundle" Network.Config.single .default :
        ExceptT Error (StateM World) Bundle).run.run emptyWorld = (.ok bundle, w') ∧
      ((∃ report,
        ((check "bundle" .default : ExceptT Error (StateM World) Report).run.run w'.repaired).1 =
          .ok report ∧ report.passed = true) ↔ ∀ x ∈ bundle.scalars, x.isFinite = true) := by
  let _ := ScalarText.guarded
  obtain ⟨bundle, w', -, hsave⟩ := exists_save_emptyWorld Network.Config.positive_single
  have hstore : w'.repaired.store = w'.store := rfl
  obtain ⟨hiff, -⟩ := check_save_iff hsave (ScalarText.readsBack_guarded bundle.scalars) hstore
    w'.sound_repaired .default
  refine ⟨bundle, w', hsave, hiff.trans ⟨fun h => h.2.2, fun h => ?_⟩⟩
  exact ⟨Network.Config.admissible_single, by decide, h⟩

/-- A bundle of a configuration is saved in an empty directory, and no check of it succeeds, also if
the disk does not fail. -/
def SavedAndRefused [Arithmetic] [ScalarText] (c : Network.Config) : Prop :=
  ∃ bundle w',
    (save "bundle" c .default : ExceptT Error (StateM World) Bundle).run.run emptyWorld =
      (.ok bundle, w') ∧
    ∀ report,
      ((check "bundle" .default : ExceptT Error (StateM World) Report).run.run w'.repaired).1 ≠
        .ok report

/-- Configurations that can be saved but not checked. -/
theorem SavedAndRefused.of_not [Arithmetic] [ScalarText] {c : Network.Config} (hc : c.Positive)
    (hreads : ∀ xs, ScalarText.ReadsBack xs)
    (h : ¬ (Scalar.Admissible c.epsilon ∧ 1 ≤ c.actionEmbed.toNat)) : SavedAndRefused c := by
  obtain ⟨bundle, w', hbuild, hsave⟩ := exists_save_emptyWorld hc
  obtain ⟨-, hweights, hvector⟩ := save_eq_ok hsave
  refine ⟨bundle, w', hsave, fun report hreport => h ?_⟩
  rw [check_outcome w'.sound_repaired hweights hvector] at hreport
  obtain ⟨-, hepsilon, hembed, -⟩ := passed_of_replay hbuild (hreads bundle.scalars) hreport
  exact ⟨hepsilon, hembed⟩

/-- Bundles without an embedding of actions, with a negative epsilon, and with an infinite one are
saved, and refused when they are checked, though every finite scalar is read back. -/
theorem savedAndRefused_corners : letI := ScalarText.guarded
    (∀ xs, ScalarText.ReadsBack xs) ∧ SavedAndRefused Network.Config.withoutAction ∧
      SavedAndRefused { Network.Config.single with epsilon := -Scalar.one } ∧
      SavedAndRefused { Network.Config.single with epsilon := Scalar.infinity } := by
  let _ := ScalarText.guarded
  have hsingle : ∀ epsilon, ({ Network.Config.single with epsilon := epsilon }).Positive :=
    have h := Network.Config.positive_single
    fun _ => ⟨h.stateHidden, h.stateEmbed, h.actionHidden, h.scorerHidden, h.valueHidden⟩
  refine ⟨ScalarText.readsBack_guarded,
    .of_not Network.Config.positive_withoutAction ScalarText.readsBack_guarded ?_,
    .of_not (hsingle _) ScalarText.readsBack_guarded ?_,
    .of_not (hsingle _) ScalarText.readsBack_guarded ?_⟩
  · exact fun h => absurd h.2 (by decide)
  · exact fun h => absurd h.1.2 (by decide +kernel)
  · exact fun h => absurd h.1.1 (by decide +kernel)

end Verification.Bundle

end PolicyValue
