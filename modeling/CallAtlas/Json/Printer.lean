import CallAtlas.Decimal.Shortest
import CallAtlas.Json

/-!
# JSON as text

Values are printed over several lines, two blanks deeper for each level, with the fields of an
object in the order in which it holds them. Characters are written as they are except quotes,
backslashes and control characters. A float keeps a point or an exponent, so that it is read back
as a float. It is written positionally while its point stands at most sixteen places right of its
first digit or five left of it, and otherwise with an exponent, which shows its sign.
-/

namespace CallAtlas.Json

/-- A lower-case hexadecimal digit. -/
def hexDigit (n : Nat) : Char := Nat.digitChar n

/-- A character as it stands between quotes. -/
def escape (c : Char) : List Char :=
  if c = '"' then ['\\', '"']
  else if c = '\\' then ['\\', '\\']
  else if c = '\x08' then ['\\', 'b']
  else if c = '\t' then ['\\', 't']
  else if c = '\n' then ['\\', 'n']
  else if c = '\x0c' then ['\\', 'f']
  else if c = '\r' then ['\\', 'r']
  else if c.toNat < 0x20 then
    ['\\', 'u', '0', '0', hexDigit (c.toNat / 16), hexDigit (c.toNat % 16)]
  else [c]

/-- A text between quotes. -/
def quote (text : String) : String :=
  String.ofList ('"' :: text.toList.flatMap escape ++ ['"'])

/-- An exponent with its sign, whichever it has. -/
def exponentText (n : Int) : List Char :=
  (if 0 ≤ n then '+' else '-') :: Nat.toDigits 10 n.natAbs

/-- A decimal as a float is written: positional or with an exponent, never like an integer. -/
def decimalText (d : Decimal.Scientific) : String :=
  let digits := Nat.toDigits 10 d.digits
  let zeros (n : Int) := List.replicate n.toNat '0'
  /- How far right of the first digit the point stands. -/
  let point : Int := digits.length + d.exponent
  let chars : List Char :=
    if 0 ≤ d.exponent ∧ point ≤ 16 then digits ++ zeros d.exponent ++ ['.', '0']
    else if 0 < point ∧ point ≤ 16 then
      digits.take point.toNat ++ ['.'] ++ digits.drop point.toNat
    else if -5 < point ∧ point ≤ 0 then ['0', '.'] ++ zeros (-point) ++ digits
    else
      let tail := digits.drop 1
      digits.take 1 ++ (if tail.isEmpty then [] else '.' :: tail)
        ++ 'e' :: exponentText (point - 1)
  String.ofList chars

/-- A float as a number. There is no number for infinities and for what is not a number. -/
def floatText (x : Float) : String :=
  if !x.isFinite then "null"
  else
    let bits := x.toBits.toNat
    let magnitude :=
      if x == 0.0 then "0.0" else decimalText (Decimal.shortest (Decimal.Binary.ofBits bits))
    if bits.testBit 63 then "-" ++ magnitude else magnitude

/-- The start of a line at a depth. -/
def newLine (depth : Nat) : String := String.ofList ('\n' :: List.replicate (2 * depth) ' ')

/-- Texts between two brackets, each on a line of its own. -/
def enclose (opener closer : String) (depth : Nat) (items : List String) : String :=
  if items.isEmpty then opener ++ closer
  else
    opener ++ ",".intercalate (items.map (newLine (depth + 1) ++ ·)) ++ newLine depth ++ closer

mutual

/-- A value that begins at some depth of a text. -/
def renderAt (depth : Nat) : Json → String
  | null => "null"
  | bool true => "true"
  | bool false => "false"
  | int n => toString n
  | float x => floatText x
  | str text => quote text
  | arr items => enclose "[" "]" depth (renderItems (depth + 1) items)
  | obj fields => enclose "\x7b" "\x7d" depth (renderFields (depth + 1) fields)

/-- The items of an array. -/
def renderItems (depth : Nat) : List Json → List String
  | [] => []
  | item :: rest => renderAt depth item :: renderItems depth rest

/-- The fields of an object. -/
def renderFields (depth : Nat) : List (String × Json) → List String
  | [] => []
  | (name, value) :: rest =>
    (quote name ++ ": " ++ renderAt depth value) :: renderFields depth rest

end

/-- The text of a value. -/
def render (value : Json) : String := renderAt 0 value

end CallAtlas.Json
