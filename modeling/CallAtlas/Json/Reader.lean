import CallAtlas.Decimal.Numeral
import CallAtlas.Json
import CallAtlas.Ordered

/-!
# JSON read from text

The reader takes one value and nothing after it but blanks. The fields of an object come in the
order of their names; when a name is given twice, the later value counts.

Every step of the reader consumes a character, so the length of the text bounds their number; the
bound is an argument of the functions below and does not show in `read?`.
-/

namespace CallAtlas.Json

/-- A character between the words of the format. -/
def isSpace (c : Char) : Bool := c == ' ' || c == '\t' || c == '\n' || c == '\r'

/-- A text without the blanks at its front. -/
def skip (cs : List Char) : List Char := cs.dropWhile isSpace

/-- The value of a hexadecimal digit. -/
def hexValue? (c : Char) : Option Nat :=
  if c.isDigit then some (c.toNat - '0'.toNat)
  else if 'a' ≤ c ∧ c ≤ 'f' then some (c.toNat - 'a'.toNat + 10)
  else if 'A' ≤ c ∧ c ≤ 'F' then some (c.toNat - 'A'.toNat + 10)
  else none

/-- The value of four hexadecimal digits. -/
def hexFour? (a b c d : Char) : Option Nat := do
  return (((← hexValue? a) * 16 + (← hexValue? b)) * 16 + (← hexValue? c)) * 16 + (← hexValue? d)

/-- The character that a letter after a backslash stands for. -/
def unescape? (c : Char) : Option Char :=
  if c = '"' ∨ c = '\\' ∨ c = '/' then some c
  else if c = 'b' then some '\x08'
  else if c = 'f' then some '\x0c'
  else if c = 'n' then some '\n'
  else if c = 'r' then some '\r'
  else if c = 't' then some '\t'
  else none

/-- The number of a character beyond the first plane, from the two numbers that stand for it. -/
def joinPair? (high low : Nat) : Option Nat :=
  if 0xD800 ≤ high ∧ high < 0xDC00 ∧ 0xDC00 ≤ low ∧ low < 0xE000 then
    some (0x10000 + (high - 0xD800) * 0x400 + (low - 0xDC00))
  else none

/-- The character with a number, unless the number is one of a pair. -/
def charOf? (n : Nat) : Option Char :=
  if n.isValidChar then some (Char.ofNat n) else none

/-- The text up to the next quote, after the characters `acc` in reverse, and what follows. -/
def readText? (acc : List Char) : List Char → Option (String × List Char)
  | [] => none
  | '"' :: rest => some (String.ofList acc.reverse, rest)
  | '\\' :: 'u' :: a :: b :: c :: d :: '\\' :: 'u' :: a' :: b' :: c' :: d' :: rest =>
    match hexFour? a b c d, hexFour? a' b' c' d' with
    | some high, some low =>
      match joinPair? high low with
      | some n => readText? (Char.ofNat n :: acc) rest
      | none =>
        match charOf? high with
        | some char => readText? (char :: acc) ('\\' :: 'u' :: a' :: b' :: c' :: d' :: rest)
        | none => none
    | _, _ => none
  | '\\' :: 'u' :: a :: b :: c :: d :: rest =>
    match (hexFour? a b c d).bind charOf? with
    | some char => readText? (char :: acc) rest
    | none => none
  | '\\' :: c :: rest =>
    match unescape? c with
    | some char => readText? (char :: acc) rest
    | none => none
  | c :: rest => if c.toNat < 0x20 then none else readText? (c :: acc) rest

/-- Whether the parts of a number are as the format wants them: some digits before the point and
no needless zero, and digits after the point and in the exponent if these are begun. -/
def isNumber (n : Decimal.Numeral) : Bool :=
  !n.whole.isEmpty && (n.whole.length == 1 || n.whole.head? != some '0')
    && n.fraction.all (!·.isEmpty) && n.hasPower

/-- The value of a number: an integer if it is written as one and fits into a word, or else the
estimate from the digits that do. -/
def number? (negative : Bool) (n : Decimal.Numeral) : Option Json :=
  let digits := Decimal.ofDigits n.whole
  let limit := if negative then minIntMagnitude else maxInt
  let isInt := n.fraction.isNone && n.exponent.isNone && digits ≤ limit
  if !isNumber n then none
  else if isInt && !(negative && digits == 0) then
    some (.int (if negative then -digits else digits))
  else (n.estimate? maxInt).map fun x => .float (if negative then -x else x)

/-- The number at the front of a text. -/
def readNumber? (cs : List Char) : Option (Json × List Char) :=
  let (negative, cs) : Bool × List Char :=
    match cs with
    | '-' :: rest => (true, rest)
    | _ => (false, cs)
  let (n, rest) := Decimal.Numeral.scan cs
  (number? negative n).map (·, rest)

/-- The object with some fields: ordered by name, the last of each name. -/
def ofFields (fields : List (String × Json)) : Json :=
  obj (Ordered.ofList Prod.fst fields.reverse)

mutual

/-- The value at the front of a text. -/
def readValue? (fuel : Nat) (cs : List Char) : Option (Json × List Char) :=
  match fuel with
  | 0 => none
  | fuel + 1 =>
    match skip cs with
    | 'n' :: 'u' :: 'l' :: 'l' :: rest => some (null, rest)
    | 't' :: 'r' :: 'u' :: 'e' :: rest => some (bool true, rest)
    | 'f' :: 'a' :: 'l' :: 's' :: 'e' :: rest => some (bool false, rest)
    | '"' :: rest => (readText? [] rest).map fun (text, rest) => (str text, rest)
    | '[' :: rest =>
      match skip rest with
      | ']' :: rest => some (arr [], rest)
      | rest => (readItems? fuel [] rest).map fun (items, rest) => (arr items, rest)
    | '\x7b' :: rest =>
      match skip rest with
      | '\x7d' :: rest => some (obj [], rest)
      | rest => (readFields? fuel [] rest).map fun (fields, rest) => (ofFields fields, rest)
    | rest => readNumber? rest

/-- The items of an array after those of `acc` in reverse, up to its bracket. -/
def readItems? (fuel : Nat) (acc : List Json) (cs : List Char) :
    Option (List Json × List Char) :=
  match fuel with
  | 0 => none
  | fuel + 1 => do
    let (item, rest) ← readValue? fuel cs
    match skip rest with
    | ']' :: rest => some ((item :: acc).reverse, rest)
    | ',' :: rest => readItems? fuel (item :: acc) rest
    | _ => none

/-- The fields of an object after those of `acc` in reverse, up to its brace. -/
def readFields? (fuel : Nat) (acc : List (String × Json)) (cs : List Char) :
    Option (List (String × Json) × List Char) :=
  match fuel with
  | 0 => none
  | fuel + 1 =>
    match skip cs with
    | '"' :: rest => do
      let (name, rest) ← readText? [] rest
      match skip rest with
      | ':' :: rest =>
        let (value, rest) ← readValue? fuel rest
        match skip rest with
        | '\x7d' :: rest => some (((name, value) :: acc).reverse, rest)
        | ',' :: rest => readFields? fuel ((name, value) :: acc) rest
        | _ => none
      | _ => none
    | _ => none

end

/-- The value that a text writes. -/
def read? (text : String) : Option Json :=
  let cs := text.toList
  match readValue? (cs.length + 1) cs with
  | some (value, rest) => if (skip rest).isEmpty then some value else none
  | none => none

end CallAtlas.Json
