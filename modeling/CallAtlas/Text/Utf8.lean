/-!
# Bytes read as text

Source files and file names are bytes. Most of them are UTF-8, and where they are not, a reader
either refuses the whole (`decode?`) or puts U+FFFD for each piece that is no character (`decode`).

Both readers see the same division of the bytes: `pieces` yields a character for each well-formed
sequence and `none` for each longest piece that begins one without completing it.
-/

namespace CallAtlas

/-- A sequence of bytes: the content of a file, or the name of one. -/
abbrev Bytes := List UInt8

namespace Text.Utf8

/-- A continuation byte. -/
def isTail (b : UInt8) : Bool := 0x80 ≤ b && b ≤ 0xBF

/-- The second byte that may follow the first byte `lead` of a sequence of three or four. -/
def isSecond (lead b : UInt8) : Bool :=
  if lead == 0xE0 then 0xA0 ≤ b && b ≤ 0xBF
  else if lead == 0xED then 0x80 ≤ b && b ≤ 0x9F
  else if lead == 0xF0 then 0x90 ≤ b && b ≤ 0xBF
  else if lead == 0xF4 then 0x80 ≤ b && b ≤ 0x8F
  else isTail b

/-- The number of bytes that a first byte announces, zero for a byte that begins no character. -/
def announced (lead : UInt8) : Nat :=
  if lead ≤ 0x7F then 1
  else if 0xC2 ≤ lead && lead ≤ 0xDF then 2
  else if 0xE0 ≤ lead && lead ≤ 0xEF then 3
  else if 0xF0 ≤ lead && lead ≤ 0xF4 then 4
  else 0

/-- The number that six payload bits are appended to. -/
def push (n : Nat) (b : UInt8) : Nat := n * 64 + (b.toNat - 0x80)

/-- The first piece of a non-empty sequence and the number of bytes after its first byte. -/
def piece (lead : UInt8) (rest : Bytes) : Option Char × Nat :=
  match announced lead, rest with
  | 1, _ => (some (Char.ofNat lead.toNat), 0)
  | 2, b :: _ =>
    if isTail b then (some (Char.ofNat (push (lead.toNat - 0xC0) b)), 1) else (none, 0)
  | 3, b :: c :: _ =>
    if isSecond lead b then
      if isTail c then (some (Char.ofNat (push (push (lead.toNat - 0xE0) b) c)), 2) else (none, 1)
    else (none, 0)
  | 3, [b] => (none, if isSecond lead b then 1 else 0)
  | 4, b :: c :: d :: _ =>
    if isSecond lead b then
      if isTail c then
        if isTail d then
          (some (Char.ofNat (push (push (push (lead.toNat - 0xF0) b) c) d)), 3)
        else (none, 2)
      else (none, 1)
    else (none, 0)
  | 4, [b, c] => (none, if isSecond lead b then if isTail c then 2 else 1 else 0)
  | 4, [b] => (none, if isSecond lead b then 1 else 0)
  | _, _ => (none, 0)

/-- The pieces of a sequence of bytes: its characters, and `none` for what is not one. -/
def pieces : Bytes → List (Option Char)
  | [] => []
  | lead :: rest =>
    let (char, more) := piece lead rest
    char :: pieces (rest.drop more)
  termination_by bytes => bytes.length
  decreasing_by simp only [List.length_drop, List.length_cons]; omega

/-- The text of well-formed bytes. -/
def decode? (bytes : Bytes) : Option String :=
  ((pieces bytes).mapM id).map String.ofList

/-- The text of any bytes, with U+FFFD for each piece that is no character. -/
def decode (bytes : Bytes) : String :=
  String.ofList ((pieces bytes).map (·.getD (Char.ofNat 0xFFFD)))

/-- The bytes of a text. -/
def encode (text : String) : Bytes := text.toUTF8.toList

end Text.Utf8

end CallAtlas
