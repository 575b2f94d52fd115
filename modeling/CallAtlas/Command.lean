import CallAtlas.Command.Arguments
import CallAtlas.Config
import CallAtlas.Decimal.Numeral

/-!
# Commands

One command analyses a source tree and writes a report; the other shows whom a change to one
function concerns. A list of arguments that is no command is refused as a whole.
-/

namespace CallAtlas

/-- What is asked for on the command line. -/
inductive Command where
  /-- Analyse a tree and write the report, at a path if one is named. -/
  | analyze (config : Config) (output : Option String)
  /-- Show the callers of a function, after new code for it from a file if one is named. -/
  | impact (config : Config) (node : String) (codeFile : Option String) (depth : Nat) (json : Bool)

namespace Command

/-- The options of the first command. -/
def analyzeOptions : List OptionSpec :=
  [{ name := "language", letter := some 'l' }, { name := "output", letter := some 'o' },
    { name := "resolution" }, { name := "max-cluster-size" },
    { name := "exclude", repeatable := true }, { name := "verbose", takesValue := false },
    { name := "quiet", takesValue := false }]

/-- The options of the second command. -/
def impactOptions : List OptionSpec :=
  [{ name := "node", letter := some 'n' }, { name := "language", letter := some 'l' },
    { name := "code-file" }, { name := "depth" }, { name := "json", takesValue := false }]

/-- The largest count, the largest word of 64 bits. -/
def maxCount : Nat := 18446744073709551615

/-- A count: digits, after a plus sign if there is one, of a number that fits into a word. -/
def count? (text : String) : Option Nat :=
  let digits :=
    match text.toList with
    | '+' :: rest => rest
    | cs => cs
  if digits.isEmpty || !digits.all Char.isDigit then none
  else
    let n := Decimal.ofDigits digits
    if n ≤ maxCount then some n else none

/-- A path, which is not empty. -/
def path? (text : String) : Option String := if text.isEmpty then none else some text

/-- The value of an option as it is read by `parse`, or a default when it is not given. -/
def optionOr? {α : Type} (given : Given) (name : String) (parse : String → Option α) (default : α) :
    Option α :=
  match given.value? name with
  | some text => parse text
  | none => some default

/-- The path given for an option, if one is. -/
def optionPath? (given : Given) (name : String) : Option (Option String) :=
  optionOr? given name (fun text => (path? text).map some) none

/-- The only operand, a path. -/
def operand? (given : Given) : Option String :=
  match given.operands with
  | [root] => path? root
  | _ => none

/-- The first command, from its arguments. -/
def ofAnalyzeArgs? (args : List String) : Option Command := do
  let given ← readOnce? analyzeOptions args
  let default : Config := { root := ← operand? given }
  let config : Config :=
    { default with
      language := (given.value? "language").getD default.language
      resolution := ← optionOr? given "resolution" Decimal.ofText? default.resolution
      maxClusterSize := ← optionOr? given "max-cluster-size" count? default.maxClusterSize
      excludePatterns := given.values "exclude"
      verbose := given.has "verbose"
      quiet := given.has "quiet" }
  return analyze config (← optionPath? given "output")

/-- The second command, from its arguments. -/
def ofImpactArgs? (args : List String) : Option Command := do
  let given ← readOnce? impactOptions args
  let default : Config := { root := ← operand? given }
  let config := { default with language := (given.value? "language").getD default.language }
  return impact config (← given.value? "node") (← optionPath? given "code-file")
    (← optionOr? given "depth" count? 1) (given.has "json")

/-- The command that a list of arguments gives. -/
def ofArgs? : List String → Option Command
  | "analyze" :: args => ofAnalyzeArgs? args
  | "impact" :: args => ofImpactArgs? args
  | _ => none

end Command

end CallAtlas
