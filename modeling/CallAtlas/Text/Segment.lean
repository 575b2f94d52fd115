/-!
# Segments of a dotted name

Scopes, qualifiers and paths are written as segments with a separator between each two. What is
asked of them is mostly the last segment.

Everything here is on lists of characters, so that each function is a recursion on its text.
-/

namespace CallAtlas.Text

/-- What follows the last `sep`, or the whole text when there is none. -/
def afterLast (sep : Char) (cs : List Char) : List Char :=
  (cs.reverse.takeWhile (· != sep)).reverse

/-- What follows the last place where `sep` stands twice in a row, if there is such a place. -/
def afterLastPair? (sep : Char) : List Char → Option (List Char)
  | [] => none
  | [_] => none
  | c :: d :: rest =>
    match afterLastPair? sep (d :: rest) with
    | some tail => some tail
    | none => if c == sep && d == sep then some rest else none

/-- The last segment of a name whose segments are divided by `::` or by `.`, as written. -/
def lastSegment (cs : List Char) : List Char :=
  afterLast '.' ((afterLastPair? ':' cs).getD cs)

/-- What precedes the last `sep`, if there is one. -/
def beforeLast? (sep : Char) (cs : List Char) : Option (List Char) :=
  match cs.reverse.dropWhile (· != sep) with
  | [] => none
  | _ :: before => some before.reverse

/-- The pieces of a text between the occurrences of `sep`: one more than there are occurrences. -/
def pieces (sep : Char) : List Char → List (List Char)
  | [] => [[]]
  | c :: rest =>
    if c == sep then [] :: pieces sep rest
    else
      match pieces sep rest with
      | [] => [[c]]
      | p :: ps => (c :: p) :: ps

/-- A character with ASCII capitals made small. -/
def lowerAscii (c : Char) : Char :=
  if 'A' ≤ c && c ≤ 'Z' then Char.ofNat (c.toNat + 32) else c

/-- Equality of texts up to the case of ASCII letters. -/
def sameIgnoringCase (a b : List Char) : Bool :=
  a.map lowerAscii == b.map lowerAscii

end CallAtlas.Text
