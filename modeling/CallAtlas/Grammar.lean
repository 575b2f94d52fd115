import CallAtlas.Syntax.Tree

/-!
# Grammars

A grammar is data: a phrase for each of its rules. A phrase says which lexemes follow one another,
in what alternatives, and which nodes and fields of a syntax tree they make. Alternatives are tried
in order and the first that fits is taken.

Where lines and their indentation carry meaning, a phrase asks for the end of a line, or for a step
to deeper or shallower indentation, like for a lexeme. A lexeme that opens a line is out of reach
until one of these has been asked for.

Comments may stand anywhere. They belong to the innermost node that has a lexeme on either side of
them, so a node never begins with one.
-/

namespace CallAtlas.Grammar

/-- A node without errors. -/
def branch (kind : String) (named : Bool) (start stop : Nat) (fields : List (String × Nat))
    (children : List SyntaxTree) : SyntaxTree :=
  .node ⟨kind, named, false, false, false, start, stop, fields⟩ children

/-- A node without errors and children. -/
def leaf (kind : String) (named : Bool) (start stop : Nat) : SyntaxTree :=
  branch kind named start stop [] []

/-- One word, sign or comment of a source. -/
structure Lexeme where
  /-- What a grammar calls it. -/
  key : String
  /-- What it becomes in a syntax tree. -/
  tree : SyntaxTree
  /-- Whether it may stand anywhere, as a comment may. -/
  isExtra : Bool
  /-- Whether it is the first of its line. -/
  opensLine : Bool
  /-- The indentation of its line, if it is the first. -/
  indent : Nat

/-- A step that lines and their indentation make. -/
inductive Layout where
  /-- A line has ended. -/
  | line
  /-- The next line is indented more than the lines around it. -/
  | indent
  /-- The next line is indented less than the lines before it. -/
  | dedent
  deriving DecidableEq, Repr

/-- What a grammar says of one place, for rules with names in `ρ`. -/
inductive Phrase (ρ : Type) where
  /-- One lexeme. -/
  | word (key : String)
  /-- A step of the layout. -/
  | layout (step : Layout)
  /-- What a rule says. -/
  | rule (name : ρ)
  /-- Nothing. -/
  | empty
  /-- What has been read already and waits for its node. -/
  | held
  /-- One after the other. -/
  | seq (first second : Phrase ρ)
  /-- The one or, if it does not fit, the other. -/
  | alt (first second : Phrase ρ)
  /-- As often as it fits. -/
  | many (phrase : Phrase ρ)
  /-- A node with what the phrase reads below it. -/
  | node (kind : String) (phrase : Phrase ρ)
  /-- A named child of the node around it. -/
  | field (name : String) (phrase : Phrase ρ)
  /-- The second phrase, which holds what the first one reads. -/
  | onto (first second : Phrase ρ)
  /-- The first phrase and then the second as often as it fits, each time holding all that was read
  before. -/
  | grow (first second : Phrase ρ)

/-- A tree on its way to become a child. -/
structure Item where
  tree : SyntaxTree
  field : Option String
  isExtra : Bool

/-- What is still to be read. -/
structure Cursor where
  rest : List Lexeme
  /-- The indentations of the open blocks, innermost first. -/
  indents : List Nat
  /-- Where the last lexeme that was read ends. -/
  stop : Nat
  /-- Whether the next lexeme may open a line. -/
  fresh : Bool

namespace Lexeme

/-- A lexeme as a child. -/
def item (lexeme : Lexeme) : Item := ⟨lexeme.tree, none, lexeme.isExtra⟩

/-- The indentation of the first lexeme that is no comment; none when the source ends. -/
def nextIndent (lexemes : List Lexeme) : Nat :=
  match lexemes.find? (!·.isExtra) with
  | some lexeme => lexeme.indent
  | none => 0

end Lexeme

namespace Cursor

/-- The cursor after a lexeme. -/
def past (cursor : Cursor) (lexeme : Lexeme) (rest : List Lexeme) : Cursor :=
  { cursor with rest, stop := lexeme.tree.label.stop }

/-- The comments of the current line, and what follows them. -/
def trailing (cursor : Cursor) : List Lexeme → List Item × Cursor
  | [] => ([], { cursor with rest := [] })
  | lexeme :: rest =>
    if lexeme.isExtra && !lexeme.opensLine then
      let (items, cursor) := (cursor.past lexeme rest).trailing rest
      (lexeme.item :: items, cursor)
    else ([], { cursor with rest := lexeme :: rest })

/-- Whether a lexeme may follow. One that opens a line may if a line was to end before it, and only
as long as its line belongs to the innermost block. -/
def admits (cursor : Cursor) (lexeme : Lexeme) : Bool :=
  !lexeme.opensLine ||
    (cursor.fresh && (lexeme.isExtra || cursor.indents.head?.getD 0 ≤ lexeme.indent))

/-- A lexeme with a key, and the comments before it. -/
def take (cursor : Cursor) (key : String) : List Lexeme → Option (List Item × Cursor)
  | [] => none
  | lexeme :: rest =>
    if !cursor.admits lexeme then none
    else if lexeme.isExtra then do
      let (items, cursor) ← (cursor.past lexeme rest).take key rest
      return (lexeme.item :: items, cursor)
    else if lexeme.key = key then
      some ([lexeme.item], { cursor.past lexeme rest with fresh := false })
    else none

/-- The end of a block. Comments that are indented like the block still belong to it. -/
def dedent (cursor : Cursor) : List Lexeme → Option (List Item × Cursor)
  | [] =>
    match cursor.indents with
    | [] => none
    | _ :: outer => some ([], { cursor with rest := [], indents := outer, fresh := true })
  | lexeme :: rest =>
    match cursor.indents with
    | [] => none
    | inner :: outer =>
      if inner ≤ Lexeme.nextIndent (lexeme :: rest) || !lexeme.opensLine then none
      else if lexeme.isExtra && inner ≤ lexeme.indent then do
        let (items, cursor) ← (cursor.past lexeme rest).dedent rest
        return (lexeme.item :: items, cursor)
      else some ([], { cursor with rest := lexeme :: rest, indents := outer, fresh := true })

/-- Whether the current line has ended. -/
def isAtLine (cursor : Cursor) : Bool :=
  match cursor.rest with
  | [] => true
  | lexeme :: _ => lexeme.opensLine

/-- A step of the layout, and the comments before it. -/
def follow (cursor : Cursor) : Layout → Option (List Item × Cursor)
  | .line =>
    let (items, cursor) := cursor.trailing cursor.rest
    if cursor.isAtLine then some (items, { cursor with fresh := true }) else none
  | .indent =>
    let (items, cursor) := cursor.trailing cursor.rest
    let indent := Lexeme.nextIndent cursor.rest
    if cursor.isAtLine && cursor.indents.head?.getD 0 < indent then
      some (items, { cursor with indents := indent :: cursor.indents, fresh := true })
    else none
  | .dedent => cursor.dedent cursor.rest

end Cursor

namespace Item

/-- The fields among some items, with their positions from `index` on. -/
def fieldsFrom (index : Nat) : List Item → List (String × Nat)
  | [] => []
  | item :: rest =>
    match item.field with
    | some name => (name, index) :: fieldsFrom (index + 1) rest
    | none => fieldsFrom (index + 1) rest

/-- A node over some items that ends at `stop` if there are none. Comments in front of it stay
outside. -/
def close (kind : String) (stop : Nat) (items : List Item) : List Item :=
  let inner := items.dropWhile (·.isExtra)
  let children := inner.map (·.tree)
  let first := (children.head?.map (·.label.start)).getD stop
  let last := (children.getLast?.map (·.label.stop)).getD stop
  items.takeWhile (·.isExtra) ++
    [⟨branch kind true first last (fieldsFrom 0 inner) children, none, false⟩]

/-- Items with a field name on those that are no comments. -/
def name (field : String) (items : List Item) : List Item :=
  items.map fun item => if item.isExtra then item else { item with field := some field }

end Item

namespace Phrase

variable {ρ : Type}

/-- What a phrase reads from a cursor on, holding some items, and the cursor after it. The number
bounds how deep phrases may be nested. -/
def read? (rules : ρ → Phrase ρ) :
    Nat → Phrase ρ → List Item → Cursor → Option (List Item × Cursor)
  | 0, _, _, _ => none
  | _ + 1, word key, _, cursor => cursor.take key cursor.rest
  | _ + 1, layout step, _, cursor => cursor.follow step
  | depth + 1, rule name, _, cursor => read? rules depth (rules name) [] cursor
  | _ + 1, empty, _, cursor => some ([], cursor)
  | _ + 1, held, items, cursor => some (items, cursor)
  | depth + 1, seq first second, items, cursor => do
    let (before, cursor) ← read? rules depth first items cursor
    let (after, cursor) ← read? rules depth second items cursor
    return (before ++ after, cursor)
  | depth + 1, alt first second, items, cursor =>
    match read? rules depth first items cursor with
    | some result => some result
    | none => read? rules depth second items cursor
  | depth + 1, many phrase, items, cursor =>
    match read? rules depth phrase items cursor with
    | none => some ([], cursor)
    | some (before, cursor) => do
      let (after, cursor) ← read? rules depth (many phrase) items cursor
      return (before ++ after, cursor)
  | depth + 1, node kind phrase, items, cursor => do
    let (inner, cursor) ← read? rules depth phrase items cursor
    return (Item.close kind cursor.stop inner, cursor)
  | depth + 1, field name phrase, items, cursor => do
    let (inner, cursor) ← read? rules depth phrase items cursor
    return (Item.name name inner, cursor)
  | depth + 1, onto first second, items, cursor => do
    let (before, cursor) ← read? rules depth first items cursor
    read? rules depth second before cursor
  | depth + 1, grow first second, items, cursor => do
    let (before, cursor) ← read? rules depth first items cursor
    match read? rules depth second before cursor with
    | none => return (before, cursor)
    | some (all, cursor) => read? rules depth (grow held second) all cursor

/-- Some phrases in a row. -/
def all : List (Phrase ρ) → Phrase ρ
  | [] => empty
  | [phrase] => phrase
  | phrase :: rest => seq phrase (all rest)

/-- The first of some phrases that fits. -/
def one : List (Phrase ρ) → Phrase ρ
  | [] => empty
  | [phrase] => phrase
  | phrase :: rest => alt phrase (one rest)

/-- A phrase or nothing. -/
def opt (phrase : Phrase ρ) : Phrase ρ := alt phrase empty

/-- A phrase once or more often, with a lexeme between. -/
def separated (key : String) (phrase : Phrase ρ) : Phrase ρ :=
  seq phrase (many (seq (word key) phrase))

/-- A phrase once or more often, with commas between and perhaps one more at the end. -/
def listed (phrase : Phrase ρ) : Phrase ρ := seq (separated "," phrase) (opt (word ","))

/-- How deep phrases may be nested when so many lexemes are read. -/
def depthFor (lexemes : Nat) : Nat := 400 * (lexemes + 2)

/-- The syntax tree of a whole source, with a node of some kind on top. -/
def parse? (rules : ρ → Phrase ρ) (start : ρ) (kind : String) (size : Nat)
    (lexemes : List Lexeme) : Option SyntaxTree := do
  let cursor : Cursor := ⟨lexemes, [0], 0, true⟩
  let (items, cursor) ← read? rules (depthFor lexemes.length) (rule start) [] cursor
  guard (cursor.rest.all (·.isExtra))
  let items := items ++ cursor.rest.map Lexeme.item
  let children := items.map (·.tree)
  return branch kind true ((children.head?.map (·.label.start)).getD size) size
    (Item.fieldsFrom 0 items) children

end Phrase

end CallAtlas.Grammar
