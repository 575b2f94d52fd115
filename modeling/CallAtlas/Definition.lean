import CallAtlas.Path
import CallAtlas.Text.Segment

/-!
# Definitions that a call may mean

A definition is what the resolution of calls needs to know of a declared function: its id, its
name, and where it stands. The qualifier of a call may name the innermost scope of a definition,
the file it is in, or the directory of that file.
-/

namespace CallAtlas

/-- A declared function as a possible target of calls. -/
structure Definition where
  id : String
  name : String
  file : String
  scope : Option String
  deriving DecidableEq, Repr

namespace Definition

/-- Whether a qualifier names what holds a definition, in any case of its letters. Only the last
segment of the qualifier counts. -/
def matchesQualifier (definition : Definition) (qualifier : String) : Bool :=
  let tail := Text.lastSegment qualifier.toList
  let names (container : Option (List Char)) := container.any (Text.sameIgnoringCase · tail)
  let path := definition.file.toList
  !tail.isEmpty
    && (names (definition.scope.map fun scope => Text.afterLast '.' scope.toList)
      || names ((Path.fileName? path).map Path.stem)
      || names (Path.parentName? path))

end Definition

end CallAtlas
