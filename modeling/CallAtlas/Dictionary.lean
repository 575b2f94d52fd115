import CallAtlas.Ordered

/-!
# Dictionaries

Values under names, in the order of the names, each name once. The order is part of the type, so
two dictionaries with the same values under the same names are equal.
-/

namespace CallAtlas

/-- Values under distinct names. -/
structure Dictionary (α : Type) where
  entries : List (String × α)
  increasing : Ordered.Increasing Prod.fst entries

namespace Dictionary

variable {α : Type}

/-- The values of a list; of several under one name the last. -/
def ofList (entries : List (String × α)) : Dictionary α :=
  ⟨Ordered.ofList Prod.fst entries.reverse, Ordered.increasing_ofList _ _⟩

/-- The names, in order. -/
def names (d : Dictionary α) : List String := d.entries.map Prod.fst

end Dictionary

end CallAtlas
