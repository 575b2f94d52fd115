import CallAtlas.Ordered

/-!
# Declared functions and the calls inside them

A source file is summed up as an outline: its declared functions in source order, each with the
references to other functions that its body makes. A reference is the name called and what is
written in front of it; which function it means is decided later, when all files are known.
-/

namespace CallAtlas

/-- A call as written: the name called, and the qualifier in front of it if there is one. -/
structure CallRef where
  name : String
  qualifier : Option String := none
  deriving DecidableEq, Repr

namespace CallRef

/-- References are ordered by name; of one name, the unqualified one comes first. -/
instance : Ord CallRef := ⟨compareLex (compareOn name) (compareOn qualifier)⟩

instance : Std.TransOrd CallRef :=
  inferInstanceAs (Std.TransCmp (compareLex (compareOn name) (compareOn qualifier)))

/-- How a reference is written in a warning. -/
def display (ref : CallRef) : String :=
  match ref.qualifier with
  | some q => s!"{q}.{ref.name}"
  | none => ref.name

end CallRef

/-- A set of references, kept in their order. -/
structure CallSet where
  refs : List CallRef
  increasing : Ordered.Increasing id refs

namespace CallSet

/-- The references of a list, each once. -/
def ofList (refs : List CallRef) : CallSet :=
  ⟨Ordered.ofList id refs, Ordered.increasing_ofList id refs⟩

/-- No references. -/
def empty : CallSet := ofList []

end CallSet

/-- One declared function or method. -/
structure Declaration where
  name : String
  /-- The names of what encloses it, outermost first, with points between them. -/
  scope : Option String
  signature : String
  params : String
  startLine : Nat
  endLine : Nat
  /-- The bytes of the file that the declaration covers: the first one, and the one after the last. -/
  byteRange : Nat × Nat
  code : String
  /-- References to functions that are expected to be declared in the program. -/
  calls : CallSet
  /-- References whose bare name the language's library has too. -/
  builtinCalls : CallSet

/-- The declared functions of one file, in source order. -/
structure Outline where
  /-- The path of the file below the root of the run. -/
  file : String
  declarations : List Declaration

end CallAtlas
