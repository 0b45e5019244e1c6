/-!
# Paths

A path is a text with slashes between its parts, and each part is a step through a tree of
directories.

* `Step.ofString` reads a part;
* `stepsOf` lists the steps of a path;
* `isPath` and `isName` say which texts can be paths and names of new nodes at all.
-/

namespace PolicyValue

/-- A part of a path, as a step from a directory. -/
inductive Step where
  /-- Nothing between two slashes, or behind the last one: no step at all. -/
  | empty
  /-- A dot: the directory itself. -/
  | here
  /-- Two dots: the directory above. -/
  | up
  /-- A name in the directory. -/
  | into (name : String)
deriving DecidableEq, Repr

namespace Step

/-- The step that a part of a path stands for. -/
def ofString : String → Step
  | "" => .empty
  | "." => .here
  | ".." => .up
  | name => .into name

/-- Whether a step stays in its directory. -/
def isStill : Step → Bool
  | .empty => true
  | .here => true
  | .up => false
  | .into _ => false

end Step

/-- The steps of a path, one for each part. -/
def stepsOf (path : String) : List Step :=
  (path.toList.splitOn '/').map fun part => Step.ofString (String.ofList part)

/-- Whether steps do nothing but end in a dot, so that a name in front of them must be there. -/
def endInDot (steps : List Step) : Bool := steps.contains .here && steps.all Step.isStill

/-- The greatest size of a path in bytes. -/
def maxPathSize : Nat := 4095

/-- The greatest size of a name in bytes. -/
def maxNameSize : Nat := 255

/-- Whether a text can be a path: it is not too long and holds no zero character. -/
def isPath (path : String) : Bool :=
  decide (path.utf8ByteSize ≤ maxPathSize) && !path.toList.contains (Char.ofNat 0)

/-- Whether a node of this name can be created. -/
def isName (name : String) : Bool := decide (name.utf8ByteSize ≤ maxNameSize)

end PolicyValue
