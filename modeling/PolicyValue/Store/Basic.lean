import PolicyValue.Dict
import PolicyValue.Error
import PolicyValue.Store.Path

/-!
# A store of files

A `Store` is a tree of directories and files, held by the locations of its nodes.  One directory
below the root is the top: paths start there, unless a slash in front sends them to the root.

* `Store.createDirectories` creates a directory and those above it;
* `Store.write`, `Store.read`, `Store.remove` handle one file;
* `Store.names` lists a directory.

Every name that a path passes through must be a directory at that moment, also when the path goes
up again afterwards, and a path to a file ends in the file's name.

A `Failure` of the disk stops a call at any point of its work, and what was done stays: directories
that were created, a file that was made empty and its first bytes.  `read_write` says that a file
holds what was written last, and `follow_createFrom` that created directories can be followed.
-/

namespace PolicyValue

/-- What a location holds. -/
inductive Node where
  /-- A file with its bytes. -/
  | file (bytes : ByteArray)
  /-- A directory. -/
  | directory

instance : DecidableEq Node
  | .file x, .file y =>
    decidable_of_iff (x.data = y.data) (ByteArray.ext_iff.symm.trans (by rw [Node.file.injEq]))
  | .file _, .directory => isFalse nofun
  | .directory, .file _ => isFalse nofun
  | .directory, .directory => isTrue rfl

/-- A place in the tree: its own name, then the names of the directories above it up to the root,
whose location is empty. -/
abbrev Location := List String

/-- How the disk fails a call. -/
inductive Failure where
  /-- The call is refused. -/
  | refused
  /-- The call stops after some of its work: so many directories were created, or so many bytes of a
  file were written, the text being put together still or (`flushing`) already complete. -/
  | stopped (done : Nat) (flushing : Bool)
deriving DecidableEq

/-- The work a call does before it fails. -/
def Failure.done : Failure → Nat
  | .refused => 0
  | .stopped done _ => done

/-- Directories and files. -/
structure Store where
  /-- The name of the top directory. -/
  top : String
  /-- The nodes below the root. -/
  nodes : List (Location × Node)
deriving DecidableEq

namespace Store

/-- The store that holds an empty top directory and nothing else. -/
def empty (top : String) : Store := ⟨top, [([top], .directory)]⟩

/-! ## Nodes -/

/-- The node at a location, the root being a directory. -/
def node? (s : Store) : Location → Option Node
  | [] => some .directory
  | name :: above => s.nodes.lookup (name :: above)

/-- Puts a node at a location. -/
def put (s : Store) (l : Location) (node : Node) : Store :=
  { s with nodes := (l, node) :: s.nodes.filter fun e => !decide (e.1 = l) }

/-- Drops the node at a location. -/
def drop (s : Store) (l : Location) : Store :=
  { s with nodes := s.nodes.filter fun e => !decide (e.1 = l) }

/-- Looking up a location in nodes from which those of `l` were dropped. -/
theorem lookup_filter_ne (l k : Location) (nodes : List (Location × Node)) (h : k ≠ l) :
    (nodes.filter fun e => !decide (e.1 = l)).lookup k = nodes.lookup k := by
  induction nodes with
  | nil => rfl
  | cons e rest ih =>
    obtain ⟨m, node⟩ := e
    by_cases hm : m = l
    · have hk : (k == m) = false := beq_eq_false_iff_ne.2 (hm ▸ h)
      simp [hm, ih, List.lookup_cons, hm ▸ hk]
    · simp [hm, ih, List.lookup_cons]

/-- A node that was put is found there, and all others stay. -/
theorem node?_put (s : Store) (l k : Location) (node : Node) (h : l ≠ []) :
    (s.put l node).node? k = if k = l then some node else s.node? k := by
  cases k with
  | nil => rw [if_neg (Ne.symm h)]; rfl
  | cons name above =>
    simp only [node?, put, List.lookup_cons]
    by_cases hk : name :: above = l
    · simp [hk]
    · rw [if_neg hk, beq_eq_false_iff_ne.2 hk]
      exact lookup_filter_ne l _ s.nodes hk

/-! ## Following a path -/

/-- The start of a path and its steps from there; nothing if the text cannot be a path. -/
def start? (s : Store) (path : String) : Option (Location × List Step) :=
  if isPath path then
    match stepsOf path with
    | .empty :: step :: rest => some ([], step :: rest)
    | steps => some ([s.top], steps)
  else none

/-- The directory that steps lead to; each name on the way must be one. -/
def follow (s : Store) (here : Location) : List Step → Option Location
  | [] => some here
  | .empty :: rest => s.follow here rest
  | .here :: rest => s.follow here rest
  | .up :: rest => s.follow here.tail rest
  | .into name :: rest =>
    match s.node? (name :: here) with
    | some .directory => s.follow (name :: here) rest
    | _ => none

/-- The location of a directory. -/
def directory? (s : Store) (path : String) : Option Location :=
  match s.start? path with
  | some (start, steps) => s.follow start steps
  | none => none

/-- The location that a path gives to a file: it ends in a name below a directory. -/
def file? (s : Store) (path : String) : Option Location :=
  match s.start? path with
  | some (start, steps) =>
    match steps.getLast? with
    | some (.into name) => (s.follow start steps.dropLast).map (name :: ·)
    | _ => none
  | none => none

/-- A location of a file lies below the root. -/
theorem ne_nil_of_file? {s : Store} {path : String} {l : Location} (h : s.file? path = some l) :
    l ≠ [] := by
  rw [file?] at h
  split at h
  · split at h
    · obtain ⟨above, -, rfl⟩ := Option.map_eq_some_iff.1 h
      exact List.cons_ne_nil _ _
    · cases h
  · cases h

/-- Paths lead to the same places after a file was put where no directory is. -/
theorem follow_put_file (s : Store) (l here : Location) (bytes : ByteArray) (steps : List Step)
    (hl : l ≠ []) (hd : s.node? l ≠ some .directory) :
    (s.put l (.file bytes)).follow here steps = s.follow here steps := by
  induction steps generalizing here with
  | nil => rfl
  | cons step rest ih =>
    cases step with
    | empty => exact ih here
    | here => exact ih here
    | up => exact ih here.tail
    | into name =>
      rw [follow, follow, node?_put s l _ _ hl, ih]
      by_cases hk : name :: here = l
      · rw [if_pos hk, hk]
        cases hn : s.node? l with
        | none => rfl
        | some node =>
          cases node with
          | file _ => rfl
          | directory => exact absurd hn hd
      · rw [if_neg hk]

/-- A file keeps its location when it is put there. -/
theorem file?_put_file (s : Store) (l : Location) (path : String) (bytes : ByteArray) (hl : l ≠ [])
    (hd : s.node? l ≠ some .directory) : (s.put l (.file bytes)).file? path = s.file? path := by
  have hs : (s.put l (.file bytes)).start? path = s.start? path := rfl
  rw [file?, file?, hs]
  split
  · split
    · rw [follow_put_file s l _ _ _ hl hd]
    · rfl
  · rfl

/-! ## Directories -/

/-- Creates the directories that are missing on steps from `here`, as many as there is room for.  A
file in the way is an error, and so are a name that cannot be given and a missing directory with
only a dot behind it; what was created before the error stays. -/
def createFrom (s : Store) (here : Location) (room : Option Nat) :
    List Step → Store × Except Error Unit
  | [] => (s, .ok ())
  | .empty :: rest => s.createFrom here room rest
  | .here :: rest => s.createFrom here room rest
  | .up :: rest => s.createFrom here.tail room rest
  | .into name :: rest =>
    match s.node? (name :: here) with
    | some .directory => s.createFrom (name :: here) room rest
    | some (.file _) => (s, .error .file)
    | none =>
      if isName name && !endInDot rest && room != some 0 then
        (s.put (name :: here) .directory).createFrom (name :: here) (room.map (· - 1)) rest
      else (s, .error .file)

/-- Creates a directory and those above it. -/
def createDirectories (s : Store) (path : String) (failure : Option Failure) :
    Store × Except Error Unit :=
  match s.start? path, failure with
  | some (start, steps), none => s.createFrom start none steps
  | some (start, steps), some f => ((s.createFrom start (some f.done) steps).1, .error .file)
  | none, _ => (s, .error .file)

/-- Creating directories changes no node that was there. -/
theorem node?_createFrom {s : Store} {here l : Location} {room : Option Nat} {steps : List Step}
    {node : Node} (h : s.node? l = some node) :
    (s.createFrom here room steps).1.node? l = some node := by
  induction steps generalizing s here room with
  | nil => exact h
  | cons step rest ih =>
    cases step with
    | empty => exact ih h
    | here => exact ih h
    | up => exact ih h
    | into name =>
      rw [createFrom]
      split
      next => exact ih h
      next => exact h
      next hn =>
        split
        · have hk : l ≠ name :: here := fun e => by simp [e ▸ h] at hn
          refine ih ?_
          rw [node?_put s _ _ _ (List.cons_ne_nil _ _), if_neg hk, h]
        · exact h

/-- Steps whose directories were created can be followed. -/
theorem follow_createFrom {s : Store} {here : Location} {room : Option Nat} {steps : List Step}
    (h : (s.createFrom here room steps).2 = .ok ()) :
    ((s.createFrom here room steps).1.follow here steps).isSome = true := by
  induction steps generalizing s here room with
  | nil => rfl
  | cons step rest ih =>
    cases step with
    | empty => exact ih h
    | here => exact ih h
    | up => exact ih h
    | into name =>
      rw [createFrom] at h ⊢
      split at h
      next hn => rw [follow, node?_createFrom hn]; exact ih h
      next => cases h
      next hn =>
        split at h
        next hok =>
          have hp : (s.put (name :: here) .directory).node? (name :: here) = some .directory := by
            rw [node?_put s _ _ _ (List.cons_ne_nil _ _), if_pos rfl]
          rw [if_pos hok, follow, node?_createFrom hp]
          exact ih h
        next => cases h

/-! ## Files -/

/-- The text of a file, whose bytes must be one. -/
def read (s : Store) (path : String) : Except Error String :=
  match (s.file? path).bind s.node? with
  | some (.file bytes) =>
    match String.fromUTF8? bytes with
    | some text => .ok text
    | none => .error .file
  | _ => .error .file

/-- Writes a file at a location, unless a directory is there or its name cannot be given.  A file
that is not refused is empty before its first byte is written. -/
def writeAt (s : Store) (l : Location) (bytes : ByteArray) (failure : Option Failure) :
    Store × Except Error Unit :=
  if s.node? l = some .directory || !isName (l.headD "") then (s, .error .file)
  else
    match failure with
    | none => (s.put l (.file bytes), .ok ())
    | some .refused => (s, .error .file)
    | some (.stopped done flushing) =>
      (s.put l (.file (bytes.extract 0 done)), .error (if flushing then .file else .json .unwritten))

/-- Writes a file into a directory that is there. -/
def write (s : Store) (path text : String) (failure : Option Failure) : Store × Except Error Unit :=
  match s.file? path with
  | some l => s.writeAt l text.toUTF8 failure
  | none => (s, .error .file)

/-- Removes a file. -/
def remove (s : Store) (path : String) : Store × Except Error Unit :=
  match s.file? path with
  | some l =>
    match s.node? l with
    | some (.file _) => (s.drop l, .ok ())
    | _ => (s, .error .file)
  | none => (s, .error .file)

/-- The name of a location that lies directly in a directory. -/
def nameIn? (here : Location) : Location → Option String
  | name :: above => if above = here then some name else none
  | [] => none

/-- The names in a directory, in increasing order. -/
def names (s : Store) (path : String) : List String :=
  match s.directory? path with
  | some here =>
    let found := s.nodes.filterMap fun e => nameIn? here e.1
    (Dict.ofList (found.map fun name => (name, ()))).keys
  | none => []

/-- A write that fails on a disk that works changes nothing. -/
theorem write_eq_of_error {s : Store} {path text : String} {e : Error}
    (h : (s.write path text none).2 = .error e) : (s.write path text none).1 = s := by
  rw [write] at h ⊢
  split at h
  · unfold writeAt at h ⊢
    split at h
    next hd => rw [if_pos hd]
    next => cases h
  · rfl

/-- A write that succeeds puts the file at its location, where no directory is. -/
theorem write_eq_ok {s : Store} {path text : String} {failure : Option Failure}
    (h : (s.write path text failure).2 = .ok ()) : ∃ l, s.file? path = some l ∧
      s.node? l ≠ some .directory ∧
        (s.write path text failure).1 = s.put l (.file text.toUTF8) := by
  rw [write] at h ⊢
  split at h
  next l hl =>
    unfold writeAt at h ⊢
    split at h
    next => cases h
    next hd =>
      rw [if_neg hd]
      rcases failure with _ | _ | ⟨done, flushing⟩
      · exact ⟨l, hl, fun hdir => hd (by simp [hdir]), rfl⟩
      · cases h
      · cases h
  next => cases h

/-- A file holds what was written. -/
theorem read_write {s : Store} {path text : String} {failure : Option Failure}
    (h : (s.write path text failure).2 = .ok ()) :
    (s.write path text failure).1.read path = .ok text := by
  obtain ⟨l, hl, hdir, hput⟩ := write_eq_ok h
  have hroot := ne_nil_of_file? hl
  have htext : String.fromUTF8? text.toUTF8 = some text := dif_pos text.isValidUTF8
  rw [hput, read, file?_put_file s l path text.toUTF8 hroot hdir, hl, Option.bind_some,
    node?_put s l l _ hroot, if_pos rfl]
  simp only [htext]

end Store

end PolicyValue
