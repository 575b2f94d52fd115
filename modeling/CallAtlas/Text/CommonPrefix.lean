import CallAtlas.Text.Utf8

/-!
# The common beginning of texts

Texts are compared by their bytes. Two texts can part inside a character, where the bytes that they
share are no text, so the cut goes back to the place where this character begins.
-/

namespace CallAtlas.Text

/-- How many of the first `len` bytes of a text are the beginning of another one too. -/
def agreeing (first : Bytes) (len : Nat) (other : Bytes) : Nat :=
  let len := min len other.length
  match (first.zip other).findIdx? fun pair => pair.1 != pair.2 with
  | some place => min len place
  | none => len

/-- The number of bytes that a text shares with all the others. -/
def sharedLength (first : String) (rest : List String) : Nat :=
  let bytes := Utf8.encode first
  (rest.map Utf8.encode).foldl (agreeing bytes) bytes.length

/-- The last place between two characters of a text, or at an end of it, up to a number of bytes. -/
def lastBoundary (text : String) : Nat → Nat
  | 0 => 0
  | place + 1 =>
    if String.Pos.Raw.isValid text ⟨place + 1⟩ then place + 1 else lastBoundary text place

/-- The number of bytes in the whole characters that a text shares with all the others. -/
def cut (first : String) (rest : List String) : Nat :=
  lastBoundary first (sharedLength first rest)

/-- The text before a place that is counted in bytes, if no character stands across it. -/
def before? (text : String) (place : Nat) : Option String :=
  (text.pos? ⟨place⟩).map fun pos => (text.sliceTo pos).copy

/-- The longest common beginning of all the texts of a list, empty for the empty list. -/
def commonPrefix? : List String → Option String
  | [] => some ""
  | first :: rest => before? first (cut first rest)

end CallAtlas.Text
