import CallAtlas.Dictionary
import CallAtlas.Json

/-!
# Types with a JSON form

A type with a JSON form is written by `encode` and read by `decode?`, which refuses values of
another shape. Reading is more lenient than writing: a record may also be given as an array of its
fields in their order, fields of other names are passed over, and some fields may be left out.

Numbers keep their kind. A natural number is read from an integer that fits into a word and never
from a float, while a float is also read from an integer.
-/

namespace CallAtlas

/-- A type whose values are written as JSON and read from it. -/
class Codec (α : Type) where
  encode : α → Json
  decode? : Json → Option α

export Codec (encode decode?)

namespace Codec

instance : Codec Json := ⟨id, some⟩

instance : Codec String where
  encode := .str
  decode?
    | .str text => some text
    | _ => none

instance : Codec Bool where
  encode := .bool
  decode?
    | .bool value => some value
    | _ => none

/-- A count is an integer that fits into a word of 64 bits. -/
instance : Codec Nat where
  encode n := .int n
  decode?
    | .int n => if 0 ≤ n ∧ n.toNat ≤ Json.maxInt then some n.toNat else none
    | _ => none

/-- Only finite floats are numbers of the format; the others are written as null, which is not
read back. -/
instance : Codec Float where
  encode x := if x.isFinite then .float x else .null
  decode?
    | .float x => if x.isFinite then some x else none
    | .int n =>
      let x := Float.ofInt n
      if x.isFinite then some x else none
    | _ => none

instance {α : Type} [Codec α] : Codec (List α) where
  encode items := .arr (items.map encode)
  decode?
    | .arr items => items.mapM decode?
    | _ => none

instance {α β : Type} [Codec α] [Codec β] : Codec (α × β) where
  encode pair := .arr [encode pair.1, encode pair.2]
  decode?
    | .arr [a, b] => do return (← decode? a, ← decode? b)
    | _ => none

instance {α : Type} [Codec α] : Codec (Dictionary α) where
  encode d := .obj (d.entries.map fun (name, value) => (name, encode value))
  decode?
    | .obj fields =>
      let entries : Option (List (String × α)) :=
        fields.mapM fun field => (decode? field.2).map (field.1, ·)
      entries.map Dictionary.ofList
    | _ => none

/-- An optional value, null when it is absent. -/
def encodeOption {α : Type} [Codec α] : Option α → Json
  | some value => encode value
  | none => .null

/-- The form of a type whose values are known by their names. A value may also be given as an
object with the name as its only field and null under it. -/
@[reducible]
def ofNames {α : Type} (all : List α) (name : α → String) : Codec α where
  encode value := .str (name value)
  decode?
    | .str text => all.find? (name · == text)
    | .obj [(text, .null)] => all.find? (name · == text)
    | _ => none

end Codec

/-- What a record holds for one of its fields. -/
inductive Slot where
  /-- The record names its fields, and not this one. -/
  | absent
  /-- The record lists its fields by position and ends before this one. -/
  | beyond
  | value (json : Json)

namespace Slot

variable {α : Type} [Codec α]

/-- A field that has to be given. -/
def required : Slot → Option α
  | value json => decode? json
  | _ => none

/-- A field that may be null, or absent from a record that names its fields. -/
def optional : Slot → Option (Option α)
  | absent | value .null => some none
  | beyond => none
  | value json => (decode? json).map some

/-- A field that may be left out in either way. -/
def orDefault (default : α) : Slot → Option α
  | value json => decode? json
  | _ => some default

end Slot

namespace Json

/-- What a record with some field names holds for each of them. Neither a list with more items
than there are names nor a value that is no list and no object is a record. -/
def record? (names : List String) : Json → Option (String → Slot)
  | obj fields => some fun name =>
    match fields.lookup name with
    | some json => .value json
    | none => .absent
  | arr items =>
    if names.length < items.length then none
    else some fun name =>
      match items[names.idxOf name]? with
      | some json => .value json
      | none => .beyond
  | _ => none

end Json

end CallAtlas
