import CallAtlas.Grammar

/-!
# Lexemes of Python

A source is cut into words, numbers, strings, signs and comments, with blanks between them. Every
byte is looked at on its own: one that is not ASCII counts as a letter, and a word has to be
well-formed text.

A line inside brackets is no line of its own. A string is one lexeme, with its quotes and escape
sequences below it. Strings with embedded expressions are not read.
-/

namespace CallAtlas.Grammar.Python

/-- What stands between two lexemes. -/
structure Gap where
  width : Nat
  /-- Whether a line ends in it. -/
  endsLine : Bool
  /-- How far the line that it ends in is indented. -/
  indent : Nat

/-- The blanks in front of a text. A tabulator counts as eight spaces. -/
def gap (before : Gap) : List Char → Gap
  | ' ' :: rest => gap ⟨before.width + 1, before.endsLine, before.indent + 1⟩ rest
  | '\t' :: rest => gap ⟨before.width + 1, before.endsLine, before.indent + 8⟩ rest
  | '\r' :: rest => gap ⟨before.width + 1, before.endsLine, 0⟩ rest
  | '\x0c' :: rest => gap ⟨before.width + 1, before.endsLine, 0⟩ rest
  | '\n' :: rest => gap ⟨before.width + 1, true, 0⟩ rest
  | _ => before

/-- Whether a byte can begin a word. -/
def isLetter (c : Char) : Bool := c.isAlpha || c = '_' || 0x80 ≤ c.toNat

/-- Whether a byte can stand in a word. -/
def isWordPart (c : Char) : Bool := isLetter c || c.isDigit

/-- Words that are no names. -/
def reserved : List String :=
  ["and", "as", "assert", "async", "await", "break", "class", "continue", "def", "del", "elif",
   "else", "except", "finally", "for", "from", "global", "if", "import", "in", "is", "lambda",
   "nonlocal", "not", "or", "pass", "raise", "return", "try", "while", "with", "yield"]

/-- Words that are values. -/
def constants : List (String × String) := [("True", "true"), ("False", "false"), ("None", "none")]

/-- Signs, those that begin with another one before it. -/
def signs : List String :=
  ["**=", "//=", ">>=", "<<=", "->", ":=", "==", "!=", "<=", ">=", "<>", "**", "//", "<<", ">>",
   "+=", "-=", "*=", "/=", "%=", "&=", "|=", "^=", "@=", "(", ")", "[", "]", "\x7b", "\x7d", ",",
   ":", ";", ".", "=", "+", "-", "*", "/", "%", "&", "|", "^", "~", "<", ">", "@"]

/-- One lexeme of the source, before its place in the layout is known. -/
structure Piece where
  key : String
  tree : SyntaxTree
  isExtra : Bool := false

/-- The length of a number at the front of a text, and whether it is no integer. -/
def number (text : List Char) : Nat × Bool :=
  let digits (cs : List Char) := (cs.takeWhile fun c => c.isDigit || c = '_').length
  let base := text.take 2
  if base ∈ [['0', 'x'], ['0', 'X'], ['0', 'o'], ['0', 'O'], ['0', 'b'], ['0', 'B']] then
    (2 + ((text.drop 2).takeWhile fun c => c.isAlphanum || c = '_').length, false)
  else
    let whole := digits text
    let fraction :=
      match text.drop whole with
      | '.' :: rest => 1 + digits rest
      | _ => 0
    let mantissa := whole + fraction
    let exponent :=
      match text.drop mantissa with
      | e :: rest =>
        let sign := (rest.takeWhile fun c => c = '+' || c = '-').length
        let power := digits (rest.drop sign)
        if (e = 'e' || e = 'E') && sign ≤ 1 && 0 < power then 1 + sign + power else 0
      | [] => 0
    let length := mantissa + exponent
    match text.drop length with
    | 'j' :: _ | 'J' :: _ => (length + 1, 0 < fraction || 0 < exponent)
    | _ => (length, 0 < fraction || 0 < exponent)

/-- Whether a character is a hexadecimal digit. -/
def isHex (c : Char) : Bool := c.isDigit || ('a' ≤ c.toLower && c.toLower ≤ 'f')

/-- The length of the escape sequence at the front of a text, if it begins with one. -/
def escapeLength? : List Char → Option Nat
  | '\\' :: c :: rest =>
    let hex (n : Nat) :=
      if ((rest.take n).filter isHex).length = n then some (n + 2) else none
    if c = 'u' then hex 4
    else if c = 'U' then hex 8
    else if c = 'x' then hex 2
    else if c.isDigit then some (2 + ((rest.take 2).takeWhile Char.isDigit).length)
    else if c = '\r' then (if rest.head? = some '\n' then some 3 else none)
    else if c ∈ ['\n', '\'', '"', 'a', 'b', 'f', 'r', 'n', 't', 'v', '\\'] then some 2
    else none
  | _ => none

/-- The escape sequences of a text, after so many characters that are passed over. -/
def escapes (start : Nat) : Nat → List Char → List SyntaxTree
  | _, [] => []
  | passed + 1, _ :: rest => escapes (start + 1) passed rest
  | 0, c :: rest =>
    match escapeLength? (c :: rest) with
    | some length =>
      leaf "escape_sequence" true start (start + length) :: escapes (start + 1) (length - 1) rest
    | none => escapes (start + 1) 0 rest

/-- The number of characters of a text before the quotes that end a string. A backslash hides the
character after it. Only a string in three quotes may hold a line's end. -/
def contentLength? (quotes : List Char) : List Char → Option Nat
  | [] => none
  | '\\' :: _ :: rest => (contentLength? quotes rest).map (· + 2)
  | c :: rest =>
    if quotes.isPrefixOf (c :: rest) then some 0
    else if c = '\n' && quotes.length = 1 then none
    else (contentLength? quotes rest).map (· + 1)

/-- The string at the front of a text that begins with so many letters and a quote. -/
def string? (start letters : Nat) (text : List Char) : Option Piece := do
  let marks := text.take letters
  let body := text.drop letters
  let quote ← body.head?
  let quotes := if body.take 3 = [quote, quote, quote] then [quote, quote, quote] else [quote]
  let opening := letters + quotes.length
  let length ← contentLength? quotes (text.drop opening)
  let content := (text.drop opening).take length
  let isRaw := marks.any fun c => c = 'r' || c = 'R'
  guard !(marks.any (fun c => c = 'f' || c = 'F')
    && content.any fun c => c = '\x7b' || c = '\x7d')
  let first := start + opening
  let last := first + length
  let inner :=
    if length = 0 then []
    else [branch "string_content" true first last [] (if isRaw then [] else escapes first 0 content)]
  return ⟨"string", branch "string" true start (last + quotes.length) []
    (leaf "string_start" true start first :: inner
      ++ [leaf "string_end" true last (last + quotes.length)]), false⟩

/-- The word at the front of a text, or the string that it begins. -/
def word? (start : Nat) (text : List Char) : Option Piece :=
  let letters := text.takeWhile isWordPart
  let word := String.ofList letters
  let stop := start + letters.length
  let isMark (c : Char) := ['r', 'b', 'u', 'f'].contains c.toLower
  let next := (text.drop letters.length).head?
  if letters.length ≤ 2 && letters.all isMark && (next = some '"' || next = some '\'') then
    string? start letters.length text
  else if (Text.Utf8.decode? (letters.map fun c => UInt8.ofNat c.toNat)).isNone then none
  else if reserved.contains word then some ⟨word, leaf word false start stop, false⟩
  else
    let kind := (constants.lookup word).getD "identifier"
    some ⟨kind, leaf kind true start stop, false⟩

/-- The lexeme at the front of a text that begins with no blank. -/
def piece? (start : Nat) (text : List Char) : Option Piece :=
  match text with
  | [] => none
  | '#' :: rest =>
    let length := 1 + (rest.takeWhile (· ≠ '\n')).length
    some ⟨"comment", leaf "comment" true start (start + length), true⟩
  | '\\' :: '\n' :: _ =>
    some ⟨"line_continuation", leaf "line_continuation" true start (start + 2), true⟩
  | '\\' :: '\r' :: '\n' :: _ =>
    some ⟨"line_continuation", leaf "line_continuation" true start (start + 3), true⟩
  | '.' :: '.' :: '.' :: _ => some ⟨"...", leaf "ellipsis" true start (start + 3), false⟩
  | c :: rest =>
    if isLetter c then word? start text
    else if c = '"' || c = '\'' then string? start 0 text
    else if c.isDigit || (c = '.' && rest.head?.any Char.isDigit) then
      let (length, isFloat) := number text
      let kind := if isFloat then "float" else "integer"
      some ⟨kind, leaf kind true start (start + length), false⟩
    else do
      let sign ← signs.find? fun sign => sign.toList.isPrefixOf text
      return ⟨sign, leaf sign false start (start + sign.length), false⟩

/-- How many brackets are open after a lexeme. -/
def depthAfter (key : String) (depth : Nat) : Nat :=
  if ["(", "[", "\x7b"].contains key then depth + 1
  else if [")", "]", "\x7d"].contains key then depth - 1
  else depth

/-- The lexemes of a text that begins at a byte, inside so many brackets, if all of it can be read.
The number bounds how many there are. -/
def lexemesFrom? : Nat → Nat → Nat → List Char → Option (List Lexeme)
  | 0, _, _, _ => none
  | bound + 1, start, depth, text => do
    let gap := gap ⟨0, start = 0, 0⟩ text
    match text.drop gap.width with
    | [] => return []
    | text =>
      let piece ← piece? (start + gap.width) text
      let stop := piece.tree.label.stop
      let rest ← lexemesFrom? bound stop (depthAfter piece.key depth)
        (text.drop (stop - (start + gap.width)))
      let opensLine := gap.endsLine && depth = 0
      return ⟨piece.key, piece.tree, piece.isExtra, opensLine, gap.indent⟩ :: rest

/-- The lexemes of a source. -/
def lexemes? (source : Bytes) : Option (List Lexeme) :=
  lexemesFrom? (source.length + 1) 0 0 (source.map fun byte => Char.ofNat byte.toNat)

end CallAtlas.Grammar.Python
