/-!
# Paths

A path is read as a sequence of steps, one for each piece between slashes; where slashes meet there
is none. A point that stands for the directory one is in matters only to someone who follows the
path, so the steps by which a path is named keep it at the front alone. The same reading serves
paths that are text and paths that are bytes, so it is written for both at once.

The last step, if it is a name, is the name of what the path leads to; a name is divided into a
stem and an extension at its last point, unless that point begins it.
-/

namespace CallAtlas

/-- The units that paths are written in, with the two that divide them. -/
class PathUnit (α : Type) where
  slash : α
  dot : α

instance : PathUnit Char := ⟨'/', '.'⟩

instance : PathUnit UInt8 := ⟨0x2F, 0x2E⟩

/-- One step of a path. -/
inductive Step (α : Type) where
  /-- To the root of all directories. -/
  | root
  /-- Nowhere: a point for the directory one is in. -/
  | here
  /-- To the directory above. -/
  | up
  /-- To an entry of the directory. -/
  | name (name : List α)
  deriving DecidableEq, Repr

namespace Path

variable {α : Type} [DecidableEq α] [PathUnit α]

/-- The units between the slashes of a path. -/
def pieces : List α → List (List α)
  | [] => [[]]
  | c :: rest =>
    if c = PathUnit.slash then [] :: pieces rest
    else
      match pieces rest with
      | [] => [[c]]
      | p :: ps => (c :: p) :: ps

/-- The step that a piece of a path makes. Where slashes meet there is none. -/
def step? (piece : List α) : Option (Step α) :=
  if piece = [] then none
  else if piece = [PathUnit.dot] then some .here
  else if piece = [PathUnit.dot, PathUnit.dot] then some .up
  else some (.name piece)

/-- The steps of a path as they are written, in order. -/
def allSteps (path : List α) : List (Step α) :=
  match pieces path with
  | [] => []
  | first :: rest =>
    let front : List (Step α) :=
      if first = [] then (if rest = [] then [] else [.root]) else (step? first).toList
    front ++ rest.filterMap step?

/-- The steps of a path, in order, without the points after its front. -/
def steps (path : List α) : List (Step α) :=
  match allSteps path with
  | [] => []
  | first :: rest => first :: rest.filter (· ≠ .here)

/-- The name that a sequence of steps ends in. -/
def lastName? (steps : List (Step α)) : Option (List α) :=
  match steps.getLast? with
  | some (.name name) => some name
  | _ => none

/-- The name of what a path leads to. -/
def fileName? (path : List α) : Option (List α) := lastName? (steps path)

/-- The name of the directory that a path's last step is taken in. -/
def parentName? (path : List α) : Option (List α) := lastName? (steps path).dropLast

/-- A name divided at its last point, unless there is none or it begins the name. -/
def splitName (name : List α) : List α × Option (List α) :=
  let after := (name.reverse.takeWhile (· ≠ PathUnit.dot)).reverse
  let before := (name.reverse.dropWhile (· ≠ PathUnit.dot)).tail.reverse
  if before = [] then (name, none) else (before, some after)

/-- A name without its extension. -/
def stem (name : List α) : List α := (splitName name).1

/-- What follows the last point of a name. -/
def extension? (name : List α) : Option (List α) := (splitName name).2

/-- A path and a name in the directory that it leads to. -/
def join (path name : List α) : List α :=
  if path = [] ∨ path.getLast? = some PathUnit.slash then path ++ name
  else path ++ PathUnit.slash :: name

end Path

end CallAtlas
