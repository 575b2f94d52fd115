/-!
# Reading a list of arguments

A command has operands and options. An option is written with its long name after two dashes or
its letter after one; its value is the next argument, or it is attached, after an equals sign or
directly after the letter. A value that is an argument of its own does not begin with a dash, the
single dash apart. After a bare double dash there are operands only.
-/

namespace CallAtlas.Command

/-- An option of a command. -/
structure OptionSpec where
  name : String
  letter : Option Char := none
  takesValue : Bool := true
  /-- Whether it may be given more than once. -/
  repeatable : Bool := false
  deriving DecidableEq, Repr

/-- What a list of arguments gives. -/
structure Given where
  operands : List String := []
  /-- The options in order, with their values; a value that none was asked for is empty. -/
  options : List (String × String) := []
  deriving DecidableEq, Repr

namespace Given

/-- The values given for an option. -/
def values (given : Given) (name : String) : List String :=
  (given.options.filter (·.1 = name)).map (·.2)

/-- The value given for an option that is not repeated. -/
def value? (given : Given) (name : String) : Option String := (given.values name).head?

/-- Whether an option was given. -/
def has (given : Given) (name : String) : Bool := !(given.values name).isEmpty

end Given

/-- An argument as it is seen by its first characters. -/
inductive Form where
  /-- The bare double dash. -/
  | endOfOptions
  /-- A long name, and the value after an equals sign. -/
  | long (name : String) (attached : Option String)
  /-- A letter, and what is attached to it, if anything is. -/
  | short (letter : Char) (attached : Option String)
  | plain
  deriving DecidableEq, Repr

namespace Form

/-- A text divided at its first equals sign. -/
def atEquals (cs : List Char) : String × Option String :=
  let name := String.ofList (cs.takeWhile (· ≠ '='))
  match cs.dropWhile (· ≠ '=') with
  | [] => (name, none)
  | _ :: value => (name, some (String.ofList value))

/-- The form of an argument. -/
def ofArg (arg : String) : Form :=
  match arg.toList with
  | ['-', '-'] => endOfOptions
  | '-' :: '-' :: rest =>
    let (name, attached) := atEquals rest
    long name attached
  | ['-'] => plain
  | ['-', letter] => short letter none
  | '-' :: letter :: '=' :: rest => short letter (some (String.ofList rest))
  | '-' :: letter :: rest => short letter (some (String.ofList rest))
  | _ => plain

end Form

/-- The option that an argument names, and the value attached to it. -/
def named? (specs : List OptionSpec) : Form → Option (OptionSpec × Option String)
  | .long name attached => (specs.find? (·.name = name)).map (·, attached)
  | .short letter attached => (specs.find? (·.letter = some letter)).map (·, attached)
  | _ => none

/-- What arguments give, unless one of them is no option, or an option has no value or one too
many. -/
def read? (specs : List OptionSpec) (args : List String) : Option Given :=
  match args with
  | [] => some {}
  | arg :: rest =>
    match Form.ofArg arg with
    | .endOfOptions => some { operands := rest }
    | .plain => do
      let given ← read? specs rest
      return { given with operands := arg :: given.operands }
    | form => do
      let (spec, attached) ← named? specs form
      let add (value : String) (given : Given) : Given :=
        { given with options := (spec.name, value) :: given.options }
      if !spec.takesValue then
        if attached.isSome then none else (read? specs rest).map (add "")
      else
        match attached with
        | some value => (read? specs rest).map (add value)
        | none =>
          match rest with
          | value :: rest =>
            if Form.ofArg value = .plain then (read? specs rest).map (add value) else none
          | [] => none
  termination_by args.length

/-- What arguments give when only repeatable options are repeated. -/
def readOnce? (specs : List OptionSpec) (args : List String) : Option Given := do
  let given ← read? specs args
  if specs.all fun spec => spec.repeatable || (given.values spec.name).length ≤ 1 then
    return given
  else none

end CallAtlas.Command
