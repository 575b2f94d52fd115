import CallAtlas.Path

/-!
# Routes

A route is a path as one follows it: its steps, and whether a slash ends it. That slash is a claim
that the path leads to a directory. A link on the way is followed by putting the route of its
target in front of what is left.

The directories on the way to a path are themselves paths, each of them a beginning of its text.
-/

namespace CallAtlas

/-- The steps of a path, and whether it ends in a slash. -/
structure Route (α : Type) where
  steps : List (Step α)
  endsInSlash : Bool
  deriving DecidableEq, Repr

namespace Route

variable {α : Type}

/-- One route after another. A slash at the end of the first is the end of both when the second has
no step. -/
def append (first second : Route α) : Route α where
  steps := first.steps ++ second.steps
  endsInSlash := second.endsInSlash || (second.steps.isEmpty && first.endsInSlash)

instance : Append (Route α) := ⟨append⟩

end Route

namespace Path

variable {α : Type} [DecidableEq α] [PathUnit α]

/-- The route that a path describes. -/
def route (path : List α) : Route α := ⟨allSteps path, path.getLast? = some PathUnit.slash⟩

/-- Whether a piece after the front of a path leads nowhere. -/
def isIdle (piece : List α) : Bool := piece = [] || piece = [PathUnit.dot]

/-- The path whose pieces are `first` and then, from the last one back, `rest`. -/
def ofPieces (first : List α) (rest : List (List α)) : List α :=
  if first = [] ∧ rest = [] then [PathUnit.slash]
  else [PathUnit.slash].intercalate (first :: rest.reverse)

/-- The directories on the way to a path, given its first piece and, from the last one back, the
others. -/
def directoriesOf (first : List α) : List (List α) → List (List α)
  | [] => []
  | piece :: rest =>
    if isIdle piece then directoriesOf first rest
    else ofPieces first (rest.dropWhile isIdle) :: directoriesOf first rest

/-- The directories on the way to a path, innermost first. The one that a relative path begins in
is not among them. -/
def directories (path : List α) : List (List α) :=
  match pieces path with
  | [] => []
  | first :: rest => directoriesOf first rest.reverse

end Path

end CallAtlas
