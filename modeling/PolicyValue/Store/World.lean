import PolicyValue.Journal
import PolicyValue.Store.Basic

/-!
# The outside world

`Outside m` is what a program in `m` may do beyond computing: create directories, read and write
text files, and make entries in the journal.  The instance for `StateM World` does this to a store
in memory, on a disk that may fail any of the calls.
-/

namespace PolicyValue

/-- Files and a journal. -/
class Outside (m : Type → Type) where
  /-- Creates a directory and those above it. -/
  createDirectories : String → ExceptT Error m Unit
  /-- The text of a file. -/
  readText : String → ExceptT Error m String
  /-- Writes a file. -/
  writeText : String → String → ExceptT Error m Unit
  /-- Makes an entry in the journal. -/
  note : Entry → m Unit

export Outside (createDirectories readText writeText note)

/-- Makes entries in the journal. -/
def noteAll {m : Type → Type} [Monad m] [Outside m] (entries : List Entry) :
    ExceptT Error m Unit :=
  ExceptT.lift (entries.forM note)

/-- A store, a journal and the disk. -/
structure World where
  /-- The files. -/
  store : Store
  /-- The entries, first one first. -/
  journal : List Entry
  /-- What the disk does to the calls to come, one after the other: it fails them or does not.  It
  fails no call beyond the list. -/
  failures : List (Option Failure)
deriving DecidableEq

namespace World

/-- How the disk fails the next call, if it does. -/
def failure (w : World) : Option Failure := w.failures.head?.join

/-- The world after a call that left some store. -/
def after (w : World) (store : Store) : World :=
  { w with store := store, failures := w.failures.tail }

/-- A call to the disk, as a program. -/
def call {α : Type} (f : Option Failure → Store → Store × Except Error α) :
    ExceptT Error (StateM World) α :=
  ExceptT.mk fun w =>
    let (store, outcome) := f w.failure w.store
    (outcome, w.after store)

end World

instance : Outside (StateM World) where
  createDirectories path := World.call fun failure s => s.createDirectories path failure
  readText path := World.call fun failure s =>
    (s, if failure.isSome then .error .file else s.read path)
  writeText path text := World.call fun failure s => s.write path text failure
  note e := fun w => ((), { w with journal := w.journal ++ [e] })

end PolicyValue
