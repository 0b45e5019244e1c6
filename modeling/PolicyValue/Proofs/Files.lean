import PolicyValue.Proofs.Basic
import PolicyValue.Verification.Bundle

/-!
# Files in a world

What the programs over a store and a journal do to them.  Notes leave the store as it is, so of a
program that succeeded only its writes count, and of one that reads only the texts it finds.

* `exists_stepsOf_below`: the names below a directory are found from the same place;
* `Store.read_write_below`: two files of different names in a directory hold their own texts;
* `World.run_bind_eq_ok`: a program succeeds exactly when its steps do;
* `World.run_noteAll`, `World.run_call`, `World.run_outcome`: the steps;
* `World.Sound`: a disk that fails no call to come.
-/

namespace PolicyValue

/-! ## Paths below a directory -/

open Verification (below)

/-- A name behind a slash is one more step. -/
theorem stepsOf_append_slash (dir name : String) (h : '/' ∉ name.toList) :
    stepsOf (dir ++ "/" ++ name) = stepsOf dir ++ [Step.ofString name] := by
  have hparts : (dir ++ "/" ++ name).toList.splitOn '/' =
      dir.toList.splitOn '/' ++ [name.toList] := by
    have htext : (dir ++ "/" ++ name).toList = dir.toList ++ '/' :: name.toList := by
      simp
    rw [htext, List.splitOn_append_cons_self, List.splitOn_eq_singleton h]
  rw [stepsOf, hparts, List.map_append, List.map_singleton, String.ofList_toList, stepsOf]

/-- The names below a directory are steps from the same place. -/
theorem exists_stepsOf_below (dir : String) : ∃ steps, ∀ name : String, '/' ∉ name.toList →
    stepsOf (below dir name) = steps ++ [Step.ofString name] := by
  rcases hlast : dir.toList.getLast? with _ | c
  · -- an empty directory adds nothing to the name
    refine ⟨[], fun name h => ?_⟩
    have hdir : dir = "" := String.toList_injective (List.getLast?_eq_none_iff.1 hlast)
    have hname : below dir name = name := by
      rw [below, hlast, if_pos (by rfl), hdir, String.empty_append]
    rw [hname, stepsOf, List.splitOn_eq_singleton h, List.map_singleton, String.ofList_toList,
      List.nil_append]
  by_cases hc : c = '/'
  · -- the slash at the end of the directory stands in front of the name
    obtain ⟨front, hfront⟩ := List.getLast?_eq_some_iff.1 hlast
    have hdir : dir = String.ofList front ++ "/" := by
      apply String.toList_injective
      rw [hfront, hc, String.toList_append, String.toList_ofList]
      rfl
    refine ⟨stepsOf (String.ofList front), fun name h => ?_⟩
    have hname : below dir name = String.ofList front ++ "/" ++ name := by
      rw [below, hlast, if_pos (by simp [hc]), hdir]
    rw [hname, stepsOf_append_slash _ _ h]
  · refine ⟨stepsOf dir, fun name h => ?_⟩
    have hname : below dir name = dir ++ "/" ++ name := by
      rw [below, hlast, if_neg (by simp [hc])]
    rw [hname, stepsOf_append_slash _ _ h]

/-- A path below a directory ends in the name it was made with. -/
theorem getLast?_stepsOf_below (dir name : String) (h : '/' ∉ name.toList) :
    (stepsOf (below dir name)).getLast? = some (Step.ofString name) := by
  obtain ⟨steps, hsteps⟩ := exists_stepsOf_below dir
  rw [hsteps name h, List.getLast?_concat]

namespace Store

variable {s : Store} {path other name text text' : String} {failure failure' : Option Failure}
  {l : Location}

/-- The steps from the start of a path end as the path does. -/
theorem getLast?_start? {start : Location} {steps : List Step}
    (h : s.start? path = some (start, steps)) : steps.getLast? = (stepsOf path).getLast? := by
  rw [start?] at h
  split at h
  · split at h
    next step rest hsteps =>
      cases h
      rw [hsteps, List.getLast?_cons_cons]
    next =>
      cases h
      rfl
  · cases h

/-- A file lies under the last name of its path. -/
theorem head?_file? (hlast : (stepsOf path).getLast? = some (.into name))
    (h : s.file? path = some l) : l.head? = some name := by
  rw [file?] at h
  split at h
  next start steps hstart =>
    split at h
    next last hsteps =>
      obtain ⟨above, -, rfl⟩ := Option.map_eq_some_iff.1 h
      rw [getLast?_start? hstart, hlast] at hsteps
      cases hsteps
      rfl
    next => cases h
  next => cases h

/-- A file keeps its text while one at another location is written. -/
theorem read_write_of_ne (hne : s.file? path ≠ s.file? other)
    (h : (s.write other text' failure').2 = .ok ()) :
    (s.write other text' failure').1.read path = s.read path := by
  obtain ⟨l', hl', hdir, hput⟩ := write_eq_ok h
  have hroot := ne_nil_of_file? hl'
  rw [hput, read, read, file?_put_file s l' path _ hroot hdir]
  cases hl : s.file? path with
  | none => rfl
  | some l =>
    have hother : l ≠ l' := fun heq => hne (by rw [hl, hl', heq])
    rw [Option.bind_some, Option.bind_some, node?_put s l' l _ hroot, if_neg hother]

/-- Two files of different names in one directory hold what was written into them. -/
theorem read_write_below {dir name' : String} (hslash : '/' ∉ name.toList)
    (hslash' : '/' ∉ name'.toList) (hname : Step.ofString name = .into name)
    (hname' : Step.ofString name' = .into name') (hne : name ≠ name')
    (h : (s.write (below dir name) text failure).2 = .ok ())
    (h' : ((s.write (below dir name) text failure).1.write (below dir name') text' failure').2 =
      .ok ()) :
    ((s.write (below dir name) text failure).1.write (below dir name') text' failure').1.read
      (below dir name) = .ok text := by
  rw [read_write_of_ne ?_ h', read_write h]
  -- If both were at one location, its last name would be both names.
  intro heq
  obtain ⟨l', hl', -, -⟩ := write_eq_ok h'
  have hlast := getLast?_stepsOf_below dir name hslash
  have hlast' := getLast?_stepsOf_below dir name' hslash'
  rw [hname] at hlast
  rw [hname'] at hlast'
  have hhead := head?_file? hlast (heq.trans hl')
  rw [head?_file? hlast' hl'] at hhead
  exact hne (Option.some.inj hhead).symm

end Store

/-! ## Programs over a world -/

namespace World

variable {α β : Type}

section

variable {x : ExceptT Error (StateM World) α} {f : α → ExceptT Error (StateM World) β}
  {w w' w'' : World}

/-- A program goes on where its first part succeeded. -/
theorem run_bind_of_ok {a : α} (h : x.run.run w = (.ok a, w')) :
    (x >>= f).run.run w = (f a).run.run w' := by
  show (ExceptT.bindCont f (x.run.run w).1).run (x.run.run w).2 = _
  rw [h]
  rfl

/-- A program ends where its first part failed. -/
theorem run_bind_of_error {e : Error} (h : x.run.run w = (.error e, w')) :
    (x >>= f).run.run w = (.error e, w') := by
  show (ExceptT.bindCont f (x.run.run w).1).run (x.run.run w).2 = _
  rw [h]
  rfl

/-- Two programs in a row succeed exactly when each does. -/
theorem run_bind_eq_ok {b : β} : (x >>= f).run.run w = (.ok b, w'') ↔
    ∃ a w', x.run.run w = (.ok a, w') ∧ (f a).run.run w' = (.ok b, w'') := by
  constructor
  · intro h
    rcases hx : x.run.run w with ⟨_ | a, w'⟩
    · rw [run_bind_of_error hx] at h
      cases h
    · exact ⟨a, w', rfl, by rwa [run_bind_of_ok hx] at h⟩
  · rintro ⟨a, w', hx, hf⟩
    rw [run_bind_of_ok hx, hf]

end

/-- A world with some more entries in its journal. -/
def noted (w : World) (entries : List Entry) : World := { w with journal := w.journal ++ entries }

/-- Notes change the journal only. -/
theorem run_noteAll (entries : List Entry) (w : World) :
    (noteAll entries : ExceptT Error (StateM World) Unit).run.run w = (.ok (), w.noted entries) := by
  have hrun : ∀ (entries : List Entry) (w : World),
      StateT.run (entries.forM note : StateM World PUnit) w = ((), w.noted entries) := by
    intro entries
    induction entries with
    | nil =>
      intro w
      rw [noted, List.append_nil]
      rfl
    | cons e entries ih =>
      intro w
      refine (ih (w.noted [e])).trans ?_
      rw [noted, noted, List.append_assoc, List.singleton_append]
      rfl
  exact congrArg (fun r => ((Except.ok r.1 : Except Error Unit), r.2)) (hrun entries w)

/-- A call gives what it gives on the store, under what the disk does to it. -/
theorem run_call {f : Option Failure → Store → Store × Except Error α} {w : World} {s : Store}
    {outcome : Except Error α} (h : f w.failure w.store = (s, outcome)) :
    (World.call f).run.run w = (outcome, w.after s) := by
  show ((f w.failure w.store).2, w.after (f w.failure w.store).1) = _
  rw [h]

/-- Creating directories does to a world what it does to its store. -/
theorem run_createDirectories {path : String} {w : World} {s : Store}
    {outcome : Except Error Unit} (h : w.store.createDirectories path w.failure = (s, outcome)) :
    (createDirectories path : ExceptT Error (StateM World) Unit).run.run w = (outcome, w.after s) :=
  run_call h

/-- Writing a file does to a world what it does to its store. -/
theorem run_write {path text : String} {w : World} {s : Store} {outcome : Except Error Unit}
    (h : w.store.write path text w.failure = (s, outcome)) :
    (writeText path text : ExceptT Error (StateM World) Unit).run.run w = (outcome, w.after s) :=
  run_call h

/-- A file that was written changed the store as writing does. -/
theorem run_writeText {path text : String} {w w' : World}
    (h : (writeText path text : ExceptT Error (StateM World) Unit).run.run w = (.ok (), w')) :
    w'.store = (w.store.write path text w.failure).1 ∧
      (w.store.write path text w.failure).2 = .ok () := by
  rw [run_write rfl] at h
  obtain ⟨houtcome, rfl⟩ := Prod.mk.inj h
  exact ⟨rfl, houtcome⟩

/-- The disk fails no call to come. -/
def Sound (w : World) : Prop := ∀ f ∈ w.failures, f = none

/-- A sound disk does not fail the next call. -/
theorem Sound.failure_eq_none {w : World} (h : w.Sound) : w.failure = none := by
  obtain ⟨store, journal, failures⟩ := w
  cases failures with
  | nil => rfl
  | cons f rest => exact h f (.head _)

/-- A sound disk stays sound. -/
theorem Sound.after {w : World} (h : w.Sound) (s : Store) : (w.after s).Sound :=
  fun f hf => h f (List.mem_of_mem_tail hf)

/-- The same files on a disk that fails no call. -/
def repaired (w : World) : World := { w with failures := [] }

/-- A repaired disk is sound. -/
theorem sound_repaired (w : World) : w.repaired.Sound := fun _ hf => nomatch hf

/-- A file that can be read is read from a sound disk, and stays. -/
theorem run_readText {path text : String} {w : World} (hsound : w.Sound)
    (h : w.store.read path = .ok text) :
    (readText path : ExceptT Error (StateM World) String).run.run w =
      (.ok text, w.after w.store) := by
  refine run_call ?_
  rw [hsound.failure_eq_none, h]
  rfl

/-- An outcome is given, and the world stays. -/
theorem run_outcome (x : Except Error α) (w : World) :
    (liftM x : ExceptT Error (StateM World) α).run.run w = (x, w) := by
  cases x <;> rfl

/-- The outcome of a program that begins with an outcome. -/
theorem fst_run_bind_outcome (x : Except Error α) (f : α → ExceptT Error (StateM World) β)
    (w : World) : ((liftM x >>= f).run.run w).1 = x >>= fun a => ((f a).run.run w).1 := by
  cases x <;> rfl

end World

end PolicyValue
