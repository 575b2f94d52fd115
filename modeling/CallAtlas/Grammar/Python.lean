import CallAtlas.Grammar.Python.Lexeme

/-!
# The grammar of Python

The rules of well-formed sources: statements with their blocks, and expressions by how tightly
their operators bind. A source that does not follow them has no tree here. Left out are `match`
statements, type aliases and strings with embedded expressions.
-/

namespace CallAtlas.Grammar.Python

open Phrase

/-- The rules that others refer to. -/
inductive Rule where
  | source
  | statement
  | simple
  | suite
  | expression
  | inversion
  | unary
  | primary
  | target
  | parameter
  | type
  deriving DecidableEq, Repr

/-- One lexeme. -/
def w (key : String) : Phrase Rule := word key

/-- A name. -/
def name : Phrase Rule := w "identifier"

/-- What the rule for expressions says. -/
def expression : Phrase Rule := rule .expression

/-- A node between brackets. -/
def bracketed (kind opener closer : String) (phrase : Phrase Rule) : Phrase Rule :=
  node kind (all [w opener, phrase, w closer])

/-- Operands with operators of equal strength between them, the first two together. -/
def binary (kind : String) (operators : List (Phrase Rule)) (operand : Phrase Rule) : Phrase Rule :=
  grow operand (node kind (all [field "left" held, field "operator" (one operators),
    field "right" operand]))

/-- A starred value of a list. -/
def splat : Phrase Rule := node "list_splat" (all [w "*", expression])

/-- A starred dictionary. -/
def dictionarySplat : Phrase Rule := node "dictionary_splat" (all [w "**", expression])

/-- A `yield` and its values. -/
def yielded : Phrase Rule :=
  node "yield" (all [w "yield", opt (one [all [w "from", expression],
    onto expression (one [node "expression_list" (all [held, w ",", opt (listed expression)]),
      held])])])

/-- One element of a list, a set or a tuple. -/
def element : Phrase Rule := one [yielded, splat, expression]

/-- Some expressions, with a node of their own if there are commas. -/
def expressions : Phrase Rule :=
  onto (one [splat, expression])
    (one [node "expression_list" (all [held, w ",", opt (listed (one [splat, expression]))]), held])

/-- One assignment target or several of them. -/
def targets : Phrase Rule :=
  onto (rule .target)
    (one [node "pattern_list" (all [held, w ",", opt (listed (rule .target))]), held])

/-- An expression without `and`, `or` and `if`. -/
def inversion : Phrase Rule :=
  let product := binary "binary_operator" (["*", "@", "/", "%", "//"].map w) (rule .unary)
  let sum := binary "binary_operator" [w "+", w "-"] product
  let shift := binary "binary_operator" [w "<<", w ">>"] sum
  let conjunct := binary "binary_operator" [w "&"] shift
  let exclusive := binary "binary_operator" [w "^"] conjunct
  let bits := binary "binary_operator" [w "|"] exclusive
  let relation := one (["<", "<=", "==", "!=", ">=", ">", "<>", "in"].map w ++
    [all [w "not", w "in"], all [w "is", opt (w "not")]])
  let comparison := onto bits (one [node "comparison_operator"
    (all [held, relation, bits, many (seq relation bits)]), held])
  one [node "not_operator" (all [w "not", field "argument" (rule .inversion)]), comparison]

/-- An expression without `if`. -/
def disjunction : Phrase Rule :=
  binary "boolean_operator" [w "or"] (binary "boolean_operator" [w "and"] (rule .inversion))

/-- What repeats the body of a comprehension. -/
def clauses : Phrase Rule :=
  let forClause := node "for_in_clause" (all [opt (w "async"), w "for", field "left" targets,
    w "in", field "right" (separated "," disjunction), opt (w ",")])
  let ifClause := node "if_clause" (all [w "if", disjunction])
  all [forClause, many (one [forClause, ifClause])]

/-- One argument of a call. -/
def argument : Phrase Rule :=
  one [node "keyword_argument" (all [field "name" name, w "=", field "value" expression]),
    splat, dictionarySplat, expression]

/-- The arguments of a call, in brackets. -/
def arguments : Phrase Rule :=
  onto (all [w "(", opt argument]) (one [
    node "generator_expression" (all [held, clauses, w ")"]),
    node "argument_list" (all [held, many (seq (w ",") argument), opt (w ","), w ")"])])

/-- One index of a subscript. -/
def index : Phrase Rule :=
  let bounds := all [w ":", opt expression, opt (all [w ":", opt expression])]
  one [node "slice" bounds, onto (one [splat, expression])
    (one [node "slice" (all [held, bounds]), held])]

/-- A value that no operator joins to another. -/
def atom : Phrase Rule :=
  let more := all [many (seq (w ",") element), opt (w ",")]
  let pair := node "pair" (all [field "key" expression, w ":", field "value" expression])
  let entry := one [dictionarySplat, pair]
  one ([name, w "integer", w "float", w "true", w "false", w "none", w "..."] ++ [
    onto (w "string") (one [node "concatenated_string"
      (all [held, w "string", many (w "string")]), held]),
    bracketed "tuple" "(" ")" empty,
    onto (all [w "(", element]) (one [
      node "parenthesized_expression" (all [held, w ")"]),
      node "generator_expression" (all [held, clauses, w ")"]),
      node "tuple" (all [held, more, w ")"])]),
    bracketed "list" "[" "]" empty,
    onto (all [w "[", element]) (one [
      node "list_comprehension" (all [held, clauses, w "]"]),
      node "list" (all [held, more, w "]"])]),
    bracketed "dictionary" "\x7b" "\x7d" empty,
    onto (all [w "\x7b", entry]) (one [
      node "dictionary_comprehension" (all [held, clauses, w "\x7d"]),
      node "dictionary" (all [held, many (seq (w ",") entry), opt (w ","), w "\x7d"])]),
    onto (all [w "\x7b", element]) (one [
      node "set_comprehension" (all [held, clauses, w "\x7d"]),
      node "set" (all [held, more, w "\x7d"])])])

/-- A value with its attributes, subscripts and calls. -/
def primary : Phrase Rule :=
  grow atom (one [
    node "attribute" (all [field "object" held, w ".", field "attribute" name]),
    node "subscript" (all [field "value" held, w "[", field "subscript" (separated "," index),
      opt (w ","), w "]"]),
    node "call" (all [field "function" held, field "arguments" arguments])])

/-- An operand with the signs before it and the power after it. -/
def unary : Phrase Rule :=
  let base := one [node "await" (all [w "await", rule .primary]), rule .primary]
  one [node "unary_operator" (all [field "operator" (one [w "+", w "-", w "~"]),
      field "argument" (rule .unary)]),
    onto base (one [node "binary_operator" (all [field "left" held, field "operator" (w "**"),
      field "right" (rule .unary)]), held])]

/-- The parameters of a `lambda`. -/
def lambdaParameter : Phrase Rule :=
  one [node "default_parameter" (all [field "name" name, w "=", field "value" expression]), name,
    node "list_splat_pattern" (all [w "*", name]),
    node "dictionary_splat_pattern" (all [w "**", name]),
    node "keyword_separator" (w "*"), node "positional_separator" (w "/")]

/-- An expression. -/
def anyExpression : Phrase Rule :=
  one [node "lambda" (all [w "lambda",
      opt (field "parameters" (node "lambda_parameters" (listed lambdaParameter))), w ":",
      field "body" expression]),
    node "named_expression" (all [field "name" name, w ":=", field "value" expression]),
    grow disjunction (node "conditional_expression"
      (all [held, w "if", disjunction, w "else", expression]))]

/-- What a value may be assigned to. -/
def target : Phrase Rule :=
  one [node "list_splat_pattern" (all [w "*", rule .target]),
    bracketed "tuple_pattern" "(" ")" (opt (listed (rule .target))),
    bracketed "list_pattern" "[" "]" (opt (listed (rule .target))), rule .primary]

/-- A type that is written with others in brackets. -/
def genericType : Phrase Rule :=
  node "generic_type" (all [name, bracketed "type_parameter" "[" "]" (listed (rule .type))])

/-- A type. -/
def anyType : Phrase Rule :=
  onto (node "type" genericType) (one [
    node "type" (node "union_type" (all [held, w "|", rule .type])), held])

/-- The types that a definition is general in. -/
def typeParameters : Phrase Rule :=
  bracketed "type_parameter" "[" "]" (listed (onto (rule .type) (one [
    node "type" (node "constrained_type" (all [held, w ":", rule .type])), held])))

/-- A parameter of a function. -/
def parameter : Phrase Rule :=
  let typed := all [w ":", field "type" (rule .type)]
  let star := node "list_splat_pattern" (all [w "*", name])
  let stars := node "dictionary_splat_pattern" (all [w "**", name])
  one [
    node "typed_default_parameter" (all [field "name" name, typed, w "=",
      field "value" expression]),
    node "typed_parameter" (all [one [name, star, stars], typed]),
    node "default_parameter" (all [field "name" name, w "=", field "value" expression]),
    name, star, stars,
    bracketed "tuple_pattern" "(" ")" (listed (rule .target)),
    node "keyword_separator" (w "*"), node "positional_separator" (w "/")]

/-- A statement that assigns to some targets. -/
def assignment (left : Phrase Rule) : Phrase Rule :=
  let more := grow (one [yielded, expressions]) (node "assignment"
    (all [field "left" held, w "=", field "right" (one [yielded, expressions])]))
  let signs := ["+=", "-=", "*=", "/=", "@=", "//=", "%=", "**=", ">>=", "<<=", "&=", "^=", "|="]
  one [
    node "assignment" (all [field "left" left, w ":", field "type" (rule .type),
      opt (all [w "=", field "right" more])]),
    node "assignment" (all [field "left" left, w "=", field "right" more]),
    node "augmented_assignment" (all [field "left" left, field "operator" (one (signs.map w)),
      field "right" more])]

/-- A module's name. -/
def dottedName : Phrase Rule := node "dotted_name" (separated "." name)

/-- The names that an `import` brings in. -/
def imported : Phrase Rule :=
  separated "," (one [
    field "name" (node "aliased_import"
      (all [field "name" dottedName, w "as", field "alias" name])),
    field "name" dottedName])

/-- A statement on one line. -/
def simple : Phrase Rule :=
  let keyword (key : String) := node (key ++ "_statement") (w key)
  let origin := one [dottedName, node "relative_import"
    (all [node "import_prefix" (all [w ".", many (w ".")]), opt dottedName])]
  one [
    keyword "pass", keyword "break", keyword "continue",
    node "return_statement" (all [w "return", opt expressions]),
    node "delete_statement" (all [w "del", expressions]),
    node "raise_statement" (all [w "raise", opt expressions,
      opt (all [w "from", field "cause" expression])]),
    node "assert_statement" (all [w "assert", separated "," expression]),
    node "global_statement" (all [w "global", separated "," name]),
    node "nonlocal_statement" (all [w "nonlocal", separated "," name]),
    node "import_statement" (all [w "import", imported]),
    node "import_from_statement" (all [w "from", field "module_name" origin, w "import",
      one [node "wildcard_import" (w "*"), imported, all [w "(", imported, opt (w ","), w ")"]]]),
    node "expression_statement" (one [assignment targets, assignment (rule .primary), yielded,
      listed (one [splat, expression])])]

/-- The statements of one line. -/
def line : Phrase Rule :=
  all [rule .simple, many (seq (w ";") (rule .simple)), opt (w ";"), layout .line]

/-- The body of a statement: on its line, indented below it, or missing. -/
def suite : Phrase Rule :=
  one [node "block" line,
    all [layout .indent, node "block" (all [many (rule .statement), layout .dedent])],
    node "block" (layout .line)]

/-- A colon and the body after it. -/
def body : Phrase Rule := all [w ":", field "body" (rule .suite)]

/-- A function or a class. -/
def definition : Phrase Rule :=
  one [
    node "function_definition" (all [opt (w "async"), w "def", field "name" name,
      opt (field "type_parameters" typeParameters),
      field "parameters" (bracketed "parameters" "(" ")" (opt (listed (rule .parameter)))),
      opt (all [w "->", field "return_type" (rule .type)]), body]),
    node "class_definition" (all [w "class", field "name" name,
      opt (field "type_parameters" typeParameters), opt (field "superclasses" arguments), body])]

/-- A statement that holds others, or a line of statements. -/
def statement : Phrase Rule :=
  let condition := all [field "condition" expression, w ":", field "consequence" (rule .suite)]
  let otherwise := field "alternative" (node "else_clause" (all [w "else", body]))
  let elseIf := field "alternative" (node "elif_clause" (all [w "elif", condition]))
  let named := onto expression (one [node "as_pattern"
    (all [held, w "as", field "alias" (node "as_pattern_target" (rule .primary))]), held])
  let handler := node "except_clause" (all [w "except", opt (w "*"), opt named, w ":",
    rule .suite])
  let finalizer := node "finally_clause" (all [w "finally", w ":", rule .suite])
  let item := node "with_item" (field "value" named)
  let decorator := node "decorator" (all [w "@", expression, layout .line])
  one [
    definition,
    node "decorated_definition" (all [decorator, many decorator, field "definition" definition]),
    node "if_statement" (all [w "if", condition, many elseIf, opt otherwise]),
    node "for_statement" (all [opt (w "async"), w "for", field "left" targets, w "in",
      field "right" expressions, body, opt otherwise]),
    node "while_statement" (all [w "while", field "condition" expression, body, opt otherwise]),
    node "try_statement" (all [w "try", body, many handler, opt (node "else_clause"
      (all [w "else", body])), opt finalizer]),
    node "with_statement" (all [opt (w "async"), w "with",
      node "with_clause" (one [all [separated "," item, opt (w ",")],
        all [w "(", listed item, w ")"]]), body]),
    line]

/-- What each rule says. -/
def rules : Rule → Phrase Rule
  | .source => many (rule .statement)
  | .statement => statement
  | .simple => simple
  | .suite => suite
  | .expression => anyExpression
  | .inversion => inversion
  | .unary => unary
  | .primary => primary
  | .target => target
  | .parameter => parameter
  | .type => one [anyType, node "type" expression]

/-- The syntax tree of a well-formed source. -/
def parse? (source : Bytes) : Option SyntaxTree := do
  Phrase.parse? rules .source "module" source.length (← lexemes? source)

end CallAtlas.Grammar.Python
