import CallAtlas.Declaration
import CallAtlas.Definition

/-!
# Looking definitions up and resolving calls

The index remembers definitions in the order they are added. A look-up answers those with some
attributes, ordered by id.

A call is resolved in three tiers: the definitions of its name in the caller's file and scope, or
else those in the caller's file, or else the only one in the program. A qualifier that names a
container narrows all three; when that leaves nothing certain, the qualifier is most likely a
variable, and the plain tiers decide.
-/

namespace CallAtlas.Definition

/-- A list of definitions with one more of them, in the order of ids. Among definitions with the
same id the newcomer goes before the last. -/
def place (new : Definition) : List Definition → List Definition
  | [] => [new]
  | d :: rest =>
    let isLastWithId := d.id = new.id ∧ (rest.head?.map (·.id)) ≠ some new.id
    if new.id < d.id ∨ isLastWithId then new :: d :: rest else d :: place new rest

/-- Definitions that are added one by one, in the order of ids. -/
def arrange (definitions : List Definition) : List Definition :=
  definitions.foldl (fun placed d => place d placed) []

/-- The definitions of a program. -/
structure Index where
  /-- In the order in which they were added. -/
  definitions : List Definition := []

namespace Index

/-- One more definition. -/
def add (index : Index) (d : Definition) : Index := ⟨index.definitions ++ [d]⟩

/-- How many definitions were added. -/
def size (index : Index) : Nat := index.definitions.length

/-- Every definition with a name. -/
def named (index : Index) (name : String) : List Definition :=
  arrange (index.definitions.filter (·.name = name))

/-- The definitions with a name in one file. -/
def inFile (index : Index) (file name : String) : List Definition :=
  arrange (index.definitions.filter fun d => d.file = file ∧ d.name = name)

/-- The definitions with a name in one scope of one file. -/
def inScope (index : Index) (file : String) (scope : Option String) (name : String) :
    List Definition :=
  arrange (index.definitions.filter fun d => d.file = file ∧ d.scope = scope ∧ d.name = name)

/-- Where a call is made from. -/
structure Place where
  file : String
  scope : Option String
  deriving DecidableEq, Repr

/-- The targets of a call among the definitions that `keep` admits, by the three tiers. A failure
carries the number of all definitions with the name. -/
def resolveAmong (index : Index) (caller : Place) (name : String) (keep : Definition → Bool) :
    Except Nat (List String) :=
  let ids (definitions : List Definition) := (definitions.filter keep).map (·.id)
  let sameScope := ids (index.inScope caller.file caller.scope name)
  let sameFile := ids (index.inFile caller.file name)
  let everywhere := ids (index.named name)
  if sameScope ≠ [] then .ok sameScope
  else if sameFile ≠ [] then .ok sameFile
  else if everywhere.length = 1 then .ok everywhere
  else .error (index.named name).length

/-- Qualifiers that mean the caller's own type or module, and so name no other container. -/
def ownQualifiers : List String := ["this", "self", "Self", "cls", "super"]

/-- The ids of the functions that a call means. A failure carries the number of definitions with
its name: none, or several of which the tiers prefer none. -/
def resolve (index : Index) (caller : Place) (ref : CallRef) : Except Nat (List String) :=
  let plain := index.resolveAmong caller ref.name fun _ => true
  match ref.qualifier with
  | none => plain
  | some q =>
    if q ∈ ownQualifiers then plain
    else
      match index.resolveAmong caller ref.name (·.matchesQualifier q) with
      | .ok ids => .ok ids
      | .error _ => plain

end Index

end CallAtlas.Definition
