import PolicyValue.Proofs.Bundle

/-!
# What saving a bundle leaves on disk

Saving makes the directory, builds the bundle, and writes the archive before the test vector.  Each
step can fail, the disk can fail in the middle of it, and none is taken back.

* `Store.Replaces`: of all files, a store has replaced some;
* `Store.Writes`: the ways in which the write of a file can end;
* `Store.exists_start?_below`: the files of a directory are found from one start;
* `Bundle.save_leaves`: the ways in which saving can end, of which two leave a new archive beside a
  test case that is old, missing or cut short;
* `Bundle.save_halfway`: one of them, on a disk that does not fail.
-/

namespace PolicyValue

open Verification (below weightsFile testCaseFile)

namespace Store

variable {s s' s'' : Store} {path text : String} {bytes : ByteArray} {l : Location}
  {failure : Option Failure}

/-! ## The files of a store -/

/-- The bytes of the file at a location. -/
def bytes? (s : Store) (l : Location) : Option ByteArray :=
  match s.node? l with
  | some (.file bytes) => some bytes
  | some .directory => none
  | none => none

/-- A store has all files of another one, but for some that were replaced. -/
def Replaces (s : Store) (files : List (Location × ByteArray)) (s' : Store) : Prop :=
  ∀ l, s'.bytes? l = (files.lookup l).or (s.bytes? l)

/-- Of files replaced one after the other, the later ones are found first. -/
theorem Replaces.trans {files files' : List (Location × ByteArray)} (h : s.Replaces files s')
    (h' : s'.Replaces files' s'') : s.Replaces (files' ++ files) s'' := by
  intro l
  rw [h' l, h l, List.lookup_append, Option.or_assoc]

/-- A file that is put at a location is the one file that is replaced. -/
theorem replaces_put_file (bytes : ByteArray) (hl : l ≠ []) :
    s.Replaces [(l, bytes)] (s.put l (.file bytes)) := by
  intro k
  rw [bytes?, node?_put s l k _ hl, bytes?, List.lookup_cons, List.lookup_nil]
  by_cases hk : k = l
  · rw [if_pos hk, hk, beq_self_eq_true]
    rfl
  · rw [if_neg hk, beq_eq_false_iff_ne.2 hk]
    rfl

/-- A directory that is put where nothing was replaces no file. -/
theorem replaces_put_directory (hl : l ≠ []) (hfree : s.node? l = none) :
    s.Replaces [] (s.put l .directory) := by
  intro k
  rw [bytes?, node?_put s l k _ hl, bytes?, List.lookup_nil, Option.none_or]
  by_cases hk : k = l
  · rw [if_pos hk, hk, hfree]
  · rw [if_neg hk]

/-- Creating directories replaces no file, whether it succeeds or not. -/
theorem replaces_createFrom (s : Store) (here : Location) (room : Option Nat) (steps : List Step) :
    s.Replaces [] (s.createFrom here room steps).1 := by
  induction steps generalizing s here room with
  | nil => exact fun _ => rfl
  | cons step rest ih =>
    cases step with
    | empty => exact ih s here room
    | here => exact ih s here room
    | up => exact ih s here.tail room
    | into name =>
      rw [createFrom]
      split
      next => exact ih s _ room
      next => exact fun _ => rfl
      next hfree =>
        split
        next => exact (replaces_put_directory (List.cons_ne_nil _ _) hfree).trans (ih _ _ _)
        next => exact fun _ => rfl

/-- Creating the directories of a path replaces no file. -/
theorem replaces_createDirectories (s : Store) (path : String) (failure : Option Failure) :
    s.Replaces [] (s.createDirectories path failure).1 := by
  unfold createDirectories
  split
  · exact replaces_createFrom s _ _ _
  · exact replaces_createFrom s _ _ _
  · exact fun _ => rfl

/-- Directories cannot be created because the disk failed, or on a sound one neither. -/
theorem createDirectories_eq_error {e : Error}
    (h : (s.createDirectories path failure).2 = .error e) :
    (failure ≠ none ∧ e = .file) ∨ (s.createDirectories path none).2 = .error e := by
  cases failure with
  | none => exact .inr h
  | some f =>
    refine .inl ⟨nofun, ?_⟩
    unfold createDirectories at h
    cases hstart : s.start? path with
    | none =>
      rw [hstart] at h
      cases h
      rfl
    | some start =>
      rw [hstart] at h
      cases h
      rfl

/-! ## Writing a file -/

/-- The error of a write that the disk stopped. -/
def IsStop (e : Error) : Prop := e = .file ∨ e = .json .unwritten

/-- The ways in which the write of a file can end: the store after it, and the outcome. -/
inductive Writes (s : Store) (path text : String) (failure : Option Failure) :
    Store → Except Error Unit → Prop
  /-- The file holds the text. -/
  | whole {l : Location} (hl : s.file? path = some l) (hdir : s.node? l ≠ some .directory)
      (hsound : failure = none) :
      Writes s path text failure (s.put l (.file text.toUTF8)) (.ok ())
  /-- The disk failed, and the file holds the first bytes of the text, or none. -/
  | part {l : Location} {e : Error} (done : Nat) (hl : s.file? path = some l)
      (hdir : s.node? l ≠ some .directory) (hfailed : failure ≠ none) (he : IsStop e) :
      Writes s path text failure (s.put l (.file (text.toUTF8.extract 0 done))) (.error e)
  /-- Nothing was done: the disk failed, or there is no such file and none can be created. -/
  | refused (hrefused : failure ≠ none ∨ ∀ l, s.file? path = some l →
      s.node? l = some .directory ∨ isName (l.headD "") = false) :
      Writes s path text failure s (.error .file)

/-- A write ends in one of these ways. -/
theorem writes_write (s : Store) (path text : String) (failure : Option Failure) :
    s.Writes path text failure (s.write path text failure).1 (s.write path text failure).2 := by
  unfold write
  split
  next l hl =>
    unfold writeAt
    split
    next hno =>
      refine .refused (.inr fun l' hl' => ?_)
      obtain rfl := Option.some.inj (hl.symm.trans hl')
      simpa using hno
    next hyes =>
      have hdir : s.node? l ≠ some .directory := fun hdir => hyes (by simp [hdir])
      rcases failure with _ | _ | ⟨done, flushing⟩
      · exact .whole hl hdir rfl
      · exact .refused (.inl nofun)
      · refine .part done hl hdir nofun ?_
        cases flushing with
        | false => exact .inr rfl
        | true => exact .inl rfl
  next hnone =>
    refine .refused (.inr fun l hl => ?_)
    rw [hnone] at hl
    cases hl

/-! ## Paths below a directory -/

/-- The files of a directory are found on the same way from the same start, each with its own name as
last step. -/
theorem exists_start?_below (s : Store) (dir : String) :
    ∃ (start : Location) (steps : List Step), ∀ name, '/' ∉ name.toList →
      Step.ofString name = .into name → isPath (below dir name) = true →
        s.start? (below dir name) = some (start, steps ++ [.into name]) := by
  obtain ⟨steps, hsteps⟩ := exists_stepsOf_below dir
  rcases steps with _ | ⟨step, rest⟩
  · refine ⟨[s.top], [], fun name hslash hname hpath => ?_⟩
    rw [start?, if_pos hpath, hsteps name hslash, hname]
    rfl
  cases step with
  | empty =>
    refine ⟨[], rest, fun name hslash hname hpath => ?_⟩
    rw [start?, if_pos hpath, hsteps name hslash, hname]
    cases rest <;> rfl
  | here =>
    refine ⟨[s.top], .here :: rest, fun name hslash hname hpath => ?_⟩
    rw [start?, if_pos hpath, hsteps name hslash, hname]
    rfl
  | up =>
    refine ⟨[s.top], .up :: rest, fun name hslash hname hpath => ?_⟩
    rw [start?, if_pos hpath, hsteps name hslash, hname]
    rfl
  | into first =>
    refine ⟨[s.top], .into first :: rest, fun name hslash hname hpath => ?_⟩
    rw [start?, if_pos hpath, hsteps name hslash, hname]
    rfl

/-- A path below a directory can be one if it can with a longer name. -/
theorem isPath_below {dir name other : String} (hpath : isPath (below dir name) = true)
    (hsize : other.utf8ByteSize ≤ name.utf8ByteSize) (hzero : Char.ofNat 0 ∉ other.toList) :
    isPath (below dir other) = true := by
  simp only [isPath, Bool.and_eq_true, decide_eq_true_eq, Bool.not_eq_true', List.contains_eq_mem,
    decide_eq_false_iff_not] at hpath ⊢
  unfold below at hpath ⊢
  split at hpath
  next hdir =>
    rw [if_pos hdir]
    simp only [String.utf8ByteSize_append, String.toList_append, List.mem_append, not_or] at hpath ⊢
    exact ⟨by omega, hpath.2.1, hzero⟩
  next hdir =>
    rw [if_neg hdir]
    simp only [String.utf8ByteSize_append, String.toList_append, List.mem_append, not_or] at hpath ⊢
    exact ⟨by omega, hpath.2.1, hzero⟩

/-- The two files of a directory lie beside each other in a place. -/
structure HoldsBundle (s : Store) (dir : String) (above : Location) : Prop where
  /-- The location of the archive. -/
  weights : s.file? (below dir weightsFile) = some (weightsFile :: above)
  /-- The location of the test case. -/
  testCase : s.file? (below dir testCaseFile) = some (testCaseFile :: above)

/-- Where the archive of a directory has a location, the test case has one beside it. -/
theorem exists_holdsBundle {dir : String} (h : s.file? (below dir weightsFile) = some l) :
    ∃ above, l = weightsFile :: above ∧ s.HoldsBundle dir above := by
  obtain ⟨start, steps, hbelow⟩ := s.exists_start?_below dir
  have hpath : isPath (below dir weightsFile) = true := by
    by_contra hno
    rw [file?, start?, if_neg hno] at h
    cases h
  have hpath' : isPath (below dir testCaseFile) = true :=
    isPath_below hpath (by decide) (by decide)
  have hweights := h
  rw [file?, hbelow weightsFile (by decide) rfl hpath] at hweights
  simp only [List.getLast?_concat, List.dropLast_concat] at hweights
  obtain ⟨above, hfollow, rfl⟩ := Option.map_eq_some_iff.1 hweights
  refine ⟨above, rfl, h, ?_⟩
  rw [file?, hbelow testCaseFile (by decide) rfl hpath']
  simp only [List.getLast?_concat, List.dropLast_concat, hfollow, Option.map_some]

/-- A file that is put where no directory is leaves a bundle in its place. -/
theorem HoldsBundle.put_file {dir : String} {above : Location} (h : s.HoldsBundle dir above)
    (bytes : ByteArray) (hl : l ≠ []) (hdir : s.node? l ≠ some .directory) :
    (s.put l (.file bytes)).HoldsBundle dir above :=
  ⟨(file?_put_file s l _ bytes hl hdir).trans h.weights,
    (file?_put_file s l _ bytes hl hdir).trans h.testCase⟩

/-- Putting a file for the archive or the test case, of which there is a place. -/
theorem HoldsBundle.replaces_put {dir name : String} {above : Location} {bytes : ByteArray}
    (h : s.HoldsBundle dir above) (hdir : s.node? (name :: above) ≠ some .directory) :
    s.Replaces [(name :: above, bytes)] (s.put (name :: above) (.file bytes)) ∧
      (s.put (name :: above) (.file bytes)).HoldsBundle dir above :=
  ⟨replaces_put_file bytes (List.cons_ne_nil _ _), h.put_file bytes (List.cons_ne_nil _ _) hdir⟩

end Store

namespace Verification.Bundle

open Store (IsStop)

/-! ## Saving -/

section

variable [Arithmetic] [ScalarText] {dir : String} {built : Except Error Bundle} {bundle : Bundle}
  {w : World}

/-- What can prevent saving from touching a file: what was built, the world before, the files after,
and the error. -/
inductive Prevents (dir : String) (built : Except Error Bundle) (w : World) (s : Store) (e : Error) :
    Prop
  /-- The disk failed. -/
  | disk (hfailed : ¬ w.Sound) (he : e = .file)
  /-- The directory cannot be made. -/
  | directory (hmake : (w.store.createDirectories dir none).2 = .error e)
  /-- The bundle cannot be built. -/
  | bundle (hbuilt : built = .error e)
  /-- There is no place for the archive but that of a directory. -/
  | archive (hplace : ∀ l, s.file? (below dir weightsFile) = some l → s.node? l = some .directory)
      (he : e = .file)

/-- The ways in which saving can end: what was built, the world before, the files after, and the
outcome.  The disk is sound if it fails none of the calls. -/
inductive Leaves (dir : String) (built : Except Error Bundle) (w : World) (s : Store) :
    Except Error Bundle → Prop
  /-- Both files are new. -/
  | saved {bundle : Bundle} {above : Location} (hbuilt : built = .ok bundle)
      (hplace : s.HoldsBundle dir above)
      (hfiles : w.store.Replaces [(testCaseFile :: above, bundle.vector.toString.toUTF8),
        (weightsFile :: above, bundle.archive.toString.toUTF8)] s) : Leaves dir built w s (.ok bundle)
  /-- No file is another one. -/
  | untouched {e : Error} (hcause : Prevents dir built w s e) (hfiles : w.store.Replaces [] s) :
      Leaves dir built w s (.error e)
  /-- The disk failed while the archive was written, and the archive is cut short. -/
  | archiveCut {bundle : Bundle} {above : Location} {e : Error} (done : Nat)
      (hbuilt : built = .ok bundle) (hplace : s.HoldsBundle dir above) (hfailed : ¬ w.Sound)
      (he : IsStop e) (hfiles : w.store.Replaces
        [(weightsFile :: above, bundle.archive.toString.toUTF8.extract 0 done)] s) :
      Leaves dir built w s (.error e)
  /-- The archive is new and the test case is the old one or missing: a directory has its name, or
  the disk refused it. -/
  | halfway {bundle : Bundle} {above : Location} (hbuilt : built = .ok bundle)
      (hplace : s.HoldsBundle dir above)
      (hrefused : s.node? (testCaseFile :: above) = some .directory ∨ ¬ w.Sound)
      (hfiles : w.store.Replaces [(weightsFile :: above, bundle.archive.toString.toUTF8)] s) :
      Leaves dir built w s (.error .file)
  /-- The archive is new; the disk failed while the test case was written, which is cut short. -/
  | testCaseCut {bundle : Bundle} {above : Location} {e : Error} (done : Nat)
      (hbuilt : built = .ok bundle) (hplace : s.HoldsBundle dir above) (hfailed : ¬ w.Sound)
      (he : IsStop e) (hfiles : w.store.Replaces
        [(testCaseFile :: above, bundle.vector.toString.toUTF8.extract 0 done),
          (weightsFile :: above, bundle.archive.toString.toUTF8)] s) : Leaves dir built w s (.error e)

omit [Arithmetic] in
/-- Once the archive is written, the rest depends on the write of the test case. -/
theorem Leaves.of_writes {written full : Store} {above : Location} {failure : Option Failure}
    {outcome : Except Error Unit} (hbuilt : built = .ok bundle)
    (hplace : written.HoldsBundle dir above)
    (hfiles : w.store.Replaces [(weightsFile :: above, bundle.archive.toString.toUTF8)] written)
    (hsound : w.Sound → failure = none)
    (h : written.Writes (below dir testCaseFile) bundle.vector.toString failure full outcome) :
    Leaves dir built w full (outcome.map fun _ => bundle) := by
  cases h with
  | whole hl hdir _ =>
    obtain rfl := Option.some.inj (hplace.testCase.symm.trans hl)
    obtain ⟨hnew, hplace'⟩ := hplace.replaces_put hdir
    exact .saved hbuilt hplace' (hfiles.trans hnew)
  | part done hl hdir hfailed he =>
    obtain rfl := Option.some.inj (hplace.testCase.symm.trans hl)
    obtain ⟨hnew, hplace'⟩ := hplace.replaces_put hdir
    exact .testCaseCut done hbuilt hplace' (fun h => hfailed (hsound h)) he (hfiles.trans hnew)
  | refused hrefused =>
    refine .halfway hbuilt hplace ?_ hfiles
    rcases hrefused with hfailed | hnone
    · exact .inr fun h => hfailed (hsound h)
    · rcases hnone _ hplace.testCase with hdir | hname
      · exact .inl hdir
      · exact absurd (show isName testCaseFile = false from hname) (by decide)

/-- Once the archive is written, saving ends in one of these ways. -/
theorem save_leaves_of_write {c : Network.Config} {settings : Settings} {made written : Store}
    {above : Location} (hmade : w.store.createDirectories dir w.failure = (made, .ok ()))
    (hbuilt : build c settings = .ok bundle)
    (hwrite : made.write (below dir weightsFile) bundle.archive.toString (w.after made).failure =
      (written, .ok ())) (hplace : written.HoldsBundle dir above)
    (hfiles : w.store.Replaces [(weightsFile :: above, bundle.archive.toString.toUTF8)] written) :
    ∃ outcome w', (save dir c settings : ExceptT Error (StateM World) Bundle).run.run w =
        (outcome, w') ∧ Leaves dir (build c settings) w w'.store outcome := by
  have hsound : w.Sound → ((w.after made).after written).failure = none :=
    fun h => ((h.after made).after written).failure_eq_none
  have hwrites := written.writes_write (below dir testCaseFile) bundle.vector.toString
    ((w.after made).after written).failure
  rcases hfull : written.write (below dir testCaseFile) bundle.vector.toString
    ((w.after made).after written).failure with ⟨full, outcome⟩
  rw [hfull] at hwrites
  obtain ⟨w', hrun, rfl⟩ := run_save hmade hbuilt hwrite hfull
  exact ⟨_, w', hrun, .of_writes hbuilt hplace hfiles hsound hwrites⟩

/-- **The ways in which saving a bundle can end.**  Both files are new; or no file is another one; or
the disk failed and the archive is cut short; or the archive is new, with a test case that is the old
one, missing or cut short.  On a disk that does not fail, the last needs a directory of the test
case's name, and both files are new if nothing else prevents it. -/
theorem save_leaves (dir : String) (c : Network.Config) (settings : Settings) (w : World) :
    ∃ outcome w', (save dir c settings : ExceptT Error (StateM World) Bundle).run.run w =
        (outcome, w') ∧ Leaves dir (build c settings) w w'.store outcome := by
  have hmade := w.store.replaces_createDirectories dir w.failure
  rcases hcreate : w.store.createDirectories dir w.failure with ⟨made, e | ⟨⟨⟩⟩⟩
  · have hcause : Prevents dir (build c settings) w made e := by
      rcases Store.createDirectories_eq_error (congrArg Prod.snd hcreate) with ⟨hfailed, he⟩ | hmake
      · exact .disk (fun h => hfailed h.failure_eq_none) he
      · exact .directory hmake
    rw [hcreate] at hmade
    exact ⟨_, _, World.run_bind_of_error (World.run_createDirectories hcreate),
      .untouched hcause hmade⟩
  rw [hcreate] at hmade
  cases hbuilt : build c settings with
  | error e =>
    obtain ⟨entries, hnote⟩ := exists_run_noteBuild c settings (w.after made)
    have hbuild := (World.run_outcome (build c settings) ((w.after made).noted entries)).trans
      (by rw [hbuilt])
    rw [save, World.run_bind_of_ok (World.run_createDirectories hcreate),
      World.run_bind_of_ok hnote]
    exact ⟨_, _, World.run_bind_of_error hbuild, .untouched (.bundle rfl) hmade⟩
  | ok bundle =>
    obtain ⟨entries, hsave⟩ := run_save_eq hcreate hbuilt
    have hsound : w.Sound → (w.after made).failure = none := fun h => (h.after made).failure_eq_none
    have hwrites := made.writes_write (below dir weightsFile) bundle.archive.toString
      (w.after made).failure
    rcases hwrite : made.write (below dir weightsFile) bundle.archive.toString
      (w.after made).failure with ⟨written, outcome⟩
    rw [hwrite] at hwrites
    have hrun := World.run_write (w := (w.after made).noted entries) hwrite
    cases hwrites with
    | refused hrefused =>
      rw [hsave]
      refine ⟨_, _, World.run_bind_of_error hrun, .untouched ?_ hmade⟩
      rcases hrefused with hfailed | hnone
      · exact .disk (fun h => hfailed (hsound h)) rfl
      · refine .archive (fun l hl => ?_) rfl
        obtain ⟨above, rfl, -⟩ := Store.exists_holdsBundle hl
        refine (hnone _ hl).resolve_right fun hname => ?_
        exact absurd (show isName weightsFile = false from hname) (by decide)
    | part done hl hdir hfailed he =>
      obtain ⟨above, rfl, hplace⟩ := Store.exists_holdsBundle hl
      obtain ⟨hnew, hplace'⟩ := hplace.replaces_put hdir
      rw [hsave]
      exact ⟨_, _, World.run_bind_of_error hrun,
        .archiveCut done rfl hplace' (fun h => hfailed (hsound h)) he (hmade.trans hnew)⟩
    | whole hl hdir _ =>
      obtain ⟨above, rfl, hplace⟩ := Store.exists_holdsBundle hl
      obtain ⟨hnew, hplace'⟩ := hplace.replaces_put hdir
      rw [← hbuilt]
      exact save_leaves_of_write hcreate hbuilt hwrite hplace' (hmade.trans hnew)

end

/-- A world with a directory in which a directory has the test case's name, on a sound disk. -/
def takenWorld : World :=
  ⟨⟨"home", [(["test_case.json", "bundle", "home"], .directory), (["bundle", "home"], .directory),
    (["home"], .directory)]⟩, [], []⟩

/-- **Saving can fail and leave a new archive**, where there was none, without a test case, on a disk
that does not fail. -/
theorem save_halfway : letI := ScalarText.guarded
    takenWorld.Sound ∧ ∃ bundle w', build Network.Config.single .default = .ok bundle ∧
      (save "bundle" Network.Config.single .default :
        ExceptT Error (StateM World) Bundle).run.run takenWorld = (.error .file, w') ∧
      takenWorld.store.read (below "bundle" weightsFile) = .error .file ∧
      w'.store.read (below "bundle" weightsFile) = .ok bundle.archive.toString := by
  let _ := ScalarText.guarded
  obtain ⟨bundle, hbuild⟩ : ∃ bundle, build Network.Config.single .default = .ok bundle :=
    exists_build Network.Config.positive_single (by decide)
  have hmade : takenWorld.store.createDirectories "bundle" none = (takenWorld.store, .ok ()) := by
    decide
  obtain ⟨w', hrun, hstore⟩ := run_save hmade hbuild rfl rfl
  have hwritten : (takenWorld.store.write (below "bundle" weightsFile) bundle.archive.toString
      none).2 = .ok () := rfl
  refine ⟨fun _ hf => (List.not_mem_nil hf).elim, bundle, w', hbuild, hrun, by decide, ?_⟩
  rw [hstore]
  exact Store.read_write hwritten

end Verification.Bundle

end PolicyValue
