import CallAtlas.Command
import CallAtlas.Decimal.Fixed
import CallAtlas.Report.Codec
import CallAtlas.Session

/-!
# Carrying commands out

A command is carried out by a session of its own. What it prints, and the file system it leaves,
are its outcome. An error ends it: the cause is printed to the error output and the status is one.
Arguments that are no command give the status two. There is no outcome when the run does not end.
-/

namespace CallAtlas.Command

/-- What a command leaves behind. -/
structure Outcome where
  status : Nat
  output : String := ""
  errors : String := ""
  fs : FileSystem
  /-- The path and the text of the report that was written. -/
  written : Option (String × String) := none

/-- What a command is carried out with. -/
structure Surroundings where
  fs : FileSystem
  timings : Timings
  stamp : Stamp

/-- Lines, each with its end. -/
def lines (texts : List String) : String := String.join (texts.map (· ++ "\n"))

/-- A text filled up with blanks to a width. -/
def padded (width : Nat) (text : String) : String :=
  text ++ String.ofList (List.replicate (width - text.length) ' ')

/-- A value after its name, the values below one another. -/
def labelled (name value : String) : String := padded 14 name ++ " " ++ value

/-- A number of milliseconds. -/
def milliseconds (x : Float) : String := Decimal.tenthsText x ++ "ms"

/-- The end of a command that met an error. -/
def failed (fs : FileSystem) (context message : String) : Outcome :=
  { status := 1, errors := lines [s!"error: {context}: {message}"], fs }

/-- A run of a new session. -/
def runOf (s : Surroundings) (config : Config) : Session.Outcome :=
  ({} : Session).analyze s.fs s.timings s.stamp config fun _ => []

/-- What is printed of a run beside its figures when all is to be told. -/
def detailLines (summary : Summary) : List String :=
  let timings := summary.phaseTimings.entries.map fun (phase, seconds) =>
    "    " ++ labelled phase (milliseconds (seconds * 1000.0))
  let warnings := summary.warnings.map fun warning => "    " ++ warning.message
  ["", "  Phase Timings:"] ++ timings
    ++ if warnings.isEmpty then [] else ["", "  Warnings:"] ++ warnings

/-- What is printed of a run whose report was written to a path. -/
def summaryLines (name path : String) (verbose : Bool) (summary : Summary) : List String :=
  ["", s!"✓  Codearc Analysis: {name}",
    "  " ++ labelled "Files:" (toString summary.fileCount),
    "  " ++ labelled "Functions:" (toString summary.nodeCount),
    "  " ++ labelled "Calls:" (toString summary.edgeCount),
    "  " ++ labelled "Clusters:" (toString summary.clusterCount),
    "  " ++ labelled "Warnings:" (toString summary.warnings.length),
    "  " ++ labelled "Duration:" (milliseconds summary.durationMs)]
    ++ (if verbose then detailLines summary else [])
    ++ ["", s!"  Output written to: {path}"]

/-- An analysis is made, and its report written. -/
def runAnalyze (s : Surroundings) (config : Config) (output : Option String) : Option Outcome := do
  let path := output.getD (Report.defaultPath s.fs config.root)
  let name := (s.fs.canonicalName? config.root).getD config.root
  let run := runOf s config
  match ← run.result, run.session.report? s.fs s.stamp with
  | .error e, _ => return failed s.fs "analysis failed" e.message
  | .ok _, none => return failed s.fs "analysis failed" "no snapshot was published"
  | .ok summary, some report =>
    match report.write s.fs path with
    | .error e => return failed s.fs "writing output" e.message
    | .ok fs =>
      let output := if config.quiet then "" else lines (summaryLines name path config.verbose summary)
      return { status := 0, output, fs, written := some (path, report.text) }

/-- The direct callers of a function, whose code is replaced first if a file with code is named. -/
def callersOf (s : Surroundings) (session : Session) (node : String) (codeFile : Option String) :
    Except (String × String) (List String × Session) :=
  match codeFile with
  | none =>
    match session.withGraph (·.callers node) with
    | .ok callers => .ok (callers, session)
    | .error e => .error ("lookup failed", e.message)
  | some path =>
    match s.fs.readText (Text.Utf8.encode path) with
    | .error e => .error (s!"reading {path}", e.message)
    | .ok code =>
      match session.updateCode node code with
      | (.ok ripple, session) => .ok (ripple.affected, session)
      | (.error e, _) => .error ("update failed", e.message)

/-- Who reaches a function within a number of calls, if that is more than one. -/
def radiusOf (session : Session) (node : String) (depth : Nat) :
    Except (String × String) (Option (List (String × Nat))) :=
  if depth ≤ 1 then .ok none
  else
    match session.withGraph (·.radius node depth) with
    | .ok radius => .ok (some radius)
    | .error e => .error ("lookup failed", e.message)

/-- An impact as JSON. -/
def impactJson (node : String) (callers : List String) (radius : Option (List (String × Nat))) :
    Json :=
  .obj
    [("affected_nodes", encode callers),
      ("impact_radius", Codec.encodeOption (radius.map Dictionary.ofList)),
      ("node", encode node)]

/-- An impact in words. -/
def impactLines (node : String) (callers : List String) (depth : Nat)
    (radius : Option (List (String × Nat))) : List String :=
  let reached (radius : List (String × Nat)) : List String :=
    ["", s!"  Within {depth} hops: {radius.length}"]
      ++ radius.map fun (id, hops) => "    " ++ padded 3 (toString hops) ++ " " ++ id
  ["", s!"✓  Impact of {node}", "  " ++ labelled "Direct callers:" (toString callers.length)]
    ++ callers.map ("    " ++ ·) ++ (radius.map reached).getD []

/-- A tree is analysed and the impact of a change shown. -/
def runImpact (s : Surroundings) (config : Config) (node : String) (codeFile : Option String)
    (depth : Nat) (json : Bool) : Option Outcome := do
  let run := runOf s config
  let result ← run.result
  let shown : Except (String × String) String := do
    let _ ← result.mapError fun e => ("analysis failed", e.message)
    let (callers, session) ← callersOf s run.session node codeFile
    let radius ← radiusOf session node depth
    if json then
      return lines [(impactJson node callers radius).render]
    else
      return lines (impactLines node callers depth radius)
  match shown with
  | .ok output => return { status := 0, output, fs := s.fs }
  | .error (context, message) => return failed s.fs context message

/-- A command is carried out. -/
def run (s : Surroundings) : Command → Option Outcome
  | analyze config output => runAnalyze s config output
  | impact config node codeFile depth json => runImpact s config node codeFile depth json

/-- Arguments are carried out, if they are a command. -/
def runArgs (s : Surroundings) (args : List String) : Option Outcome :=
  match ofArgs? args with
  | some command => command.run s
  | none =>
    some
      { status := 2
        errors := lines ["usage: codearc analyze PATH [OPTIONS]",
          "       codearc impact PATH --node ID [OPTIONS]"]
        fs := s.fs }

end CallAtlas.Command
