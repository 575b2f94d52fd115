import CallAtlas.CallGraph.Linking
import CallAtlas.Cluster
import CallAtlas.Dictionary
import CallAtlas.SourceFile

/-!
# Runs

A run goes through four phases: it scans for source files, reads their outlines, links them into a
call graph and divides the graph into clusters. Before each phase it tells an observer, and it
asks the observer whether it was cancelled. A cancelled run ends without a result.

An observer is any state with a reaction to a phase and a test for cancellation, so that the same
run serves a plain log, a session that is queried meanwhile, and every other caller.

The clusters may take forever, since nothing bounds the search for a resolution. A run that waits
for them does not end, and its observer is not asked any more.
-/

namespace CallAtlas

/-- The phases of a run. -/
inductive Phase where
  | scan
  | parsing
  | calls
  | communities
  deriving DecidableEq, Repr

namespace Phase

/-- Every phase, in order. -/
def all : List Phase := [scan, parsing, calls, communities]

/-- The name under which a phase is timed. -/
def name : Phase → String
  | scan => "scan"
  | parsing => "parsing"
  | calls => "calls"
  | communities => "communities"

/-- What a phase does, in words. -/
def label : Phase → String
  | scan => "Scanning source files"
  | parsing => "Parsing source files"
  | calls => "Building call graph"
  | communities => "Detecting clusters"

end Phase

/-- How long a run took. -/
structure Timings where
  /-- The seconds of each phase. -/
  seconds : Phase → Float
  /-- The milliseconds of the whole run. -/
  total : Float

/-- What is told of a run beside its result. -/
structure Summary where
  fileCount : Nat
  nodeCount : Nat
  edgeCount : Nat
  clusterCount : Nat
  warnings : List Warning
  phaseTimings : Dictionary Float
  durationMs : Float

/-- The result of a run. -/
structure Analysis where
  graph : CallGraph
  clusters : List Cluster
  summary : Summary

/-- Who watches a run: what a phase does to its state, and when its state calls the run off. -/
structure Observer (σ : Type) where
  notify : Phase → σ → σ
  cancelled : σ → Bool

/-- What is done under the eyes of an observer in a state of `σ`: it gives a value, fails, or does
not end. -/
abbrev Watched (σ : Type) : Type → Type := ExceptT Error (OptionT (StateM σ))

namespace Watched

variable {σ α : Type}

/-- What comes of it, none if it does not end, and the state that the observer is left in. -/
def outcome (x : Watched σ α) (s : σ) : Option (Except Error α) × σ := x.run.run.run s

/-- A result that needs no observer. -/
def ofExcept : Except Error α → Watched σ α
  | .ok value => return value
  | .error e => throw e

/-- A value that is waited for, forever when there is none. -/
def await : Option α → Watched σ α
  | some value => return value
  | none => liftM (OptionT.fail : OptionT (StateM σ) α)

end Watched

namespace Observer

variable {σ : Type}

/-- A run that was cancelled ends here. -/
def check (observer : Observer σ) : Watched σ Unit := do
  if observer.cancelled (← get) then throw .cancelled

/-- A phase begins, unless the run was cancelled before it. The answer says whether the observer
cancels it now. -/
def enter (observer : Observer σ) (phase : Phase) : Watched σ Bool := do
  observer.check
  modify (observer.notify phase)
  return observer.cancelled (← get)

/-- Source files are read one by one, each unless the run was cancelled before it. -/
def readings (observer : Observer σ) (fs : FileSystem) (config : Config) (language : Language)
    (files : List SourceFile) : Watched σ (List SourceFile.Reading) :=
  files.mapM fun file => return file.reading fs config language (observer.cancelled (← get))

end Observer

namespace Analysis

/-- The result of a run with some files, warnings about them, and clusters of its graph. -/
def summed (timings : Timings) (files : List SourceFile) (warnings : List Warning)
    (clusters : List Cluster) (graph : CallGraph) : Analysis where
  graph := graph
  clusters := clusters
  summary :=
    { fileCount := files.length
      nodeCount := graph.nodeCount
      edgeCount := graph.edgeCount
      clusterCount := clusters.length
      warnings := warnings
      phaseTimings := .ofList (Phase.all.map fun phase => (phase.name, timings.seconds phase))
      durationMs := timings.total }

/-- A run over the files of a file system, watched by an observer. -/
def run {σ : Type} (fs : FileSystem) (timings : Timings) (config : Config)
    (observer : Observer σ) : Watched σ Analysis := do
  let stopped ← observer.enter .scan
  let scanned ← .ofExcept (SourceFile.scan fs config stopped)
  let language ← .ofExcept config.chosenLanguage
  let _ ← observer.enter .parsing
  let readings ← observer.readings fs config language scanned.files
  observer.check
  let _ ← observer.enter .calls
  let (graph, unresolved) := CallGraph.link (readings.filterMap SourceFile.Reading.outline?)
  let _ ← observer.enter .communities
  let (clusters, graph) ← .await (graph.cluster? config.maxClusterSize config.resolution)
  observer.check
  let failed := readings.filterMap SourceFile.Reading.warning?
  return summed timings scanned.files (scanned.warnings ++ failed ++ unresolved) clusters graph

end Analysis

end CallAtlas
