import CallAtlas.CallGraph.Impact
import CallAtlas.Report

/-!
# Sessions

A session makes one run at a time and keeps the result of the last one that succeeded. That result
is replaced as a whole, so whatever a reader fetches belongs together. A failed run leaves its
message, a cancelled one leaves everything as it was.

While a run is going, its observer may make requests of the session. They are served at once:
a second run is refused, a cancellation takes effect when the run next looks, and a query is
answered from what was published before. A run that does not end leaves its session processing.
-/

namespace CallAtlas

/-- What a session is doing. -/
inductive RunState where
  | idle
  | processing
  | ready
  | error
  deriving DecidableEq, Repr

namespace RunState

/-- Every state. -/
def all : List RunState := [idle, processing, ready, error]

/-- The name of a state. -/
def name : RunState → String
  | idle => "IDLE"
  | processing => "PROCESSING"
  | ready => "READY"
  | error => "ERROR"

end RunState

instance : Codec RunState := Codec.ofNames RunState.all RunState.name

/-- The result of a successful run, with the configuration it was made for. -/
structure Publication where
  config : Config
  analysis : Analysis

/-- The state of a session. A new one has made no run. -/
structure Session where
  state : RunState := .idle
  published : Option Publication := none
  /-- The message of the last run, if that failed. -/
  lastError : Option String := none
  /-- Whether the run that is going was cancelled, if one is going. -/
  active : Option Bool := none

/-- What is asked of a session. -/
inductive Request where
  /-- Call off the run that is going. -/
  | cancel
  /-- Make a run. -/
  | start (config : Config)
  /-- Replace the code of a function. -/
  | update (id code : String)
  | graph
  | clusters
  | summary
  | report
  | callers (id : String)
  | callees (id : String)
  | radius (id : String) (depth : Nat)

/-- What a session answers. -/
inductive Reply where
  /-- Whether there was a run to call off. -/
  | cancelled (wasRunning : Bool)
  /-- Why a run cannot be made now, if it cannot. -/
  | refusal (error : Option Error)
  | updated (result : Except Error CallGraph.Ripple)
  | graph (view : GraphView)
  | clusters (views : List ClusterView)
  | summary (summary : Option Summary)
  | report (report : Option Report)
  | functions (result : Except Error (List String))
  | radius (result : Except Error (List (String × Nat)))

namespace Session

/-- The answer when nothing was published. -/
def nothingYet : Error := .invalidState "no analysis has completed yet"

/-- Why a run cannot be made now. -/
def refusal? (session : Session) : Option Error :=
  if session.state = .processing then some .alreadyProcessing else none

/-- An answer from the published graph. -/
def withGraph {α : Type} (session : Session) (f : CallGraph → Except Error α) : Except Error α :=
  match session.published with
  | some publication => f publication.analysis.graph
  | none => .error nothingYet

/-- The run that is going, if there is one, called off. -/
def cancel (session : Session) : Bool × Session :=
  match session.active with
  | some _ => (true, { session with active := some true })
  | none => (false, session)

/-- A session whose published graph has other code for a function, and whom that concerns. -/
def updateCode (session : Session) (id code : String) :
    Except Error CallGraph.Ripple × Session :=
  match session.published with
  | none => (.error nothingYet, session)
  | some publication =>
    match publication.analysis.graph.updateCode id code with
    | .error e => (.error e, session)
    | .ok (graph, ripple) =>
      let analysis := { publication.analysis with graph }
      (.ok ripple, { session with published := some { publication with analysis } })

/-- The published graph, empty when there is none. -/
def graphView (session : Session) : GraphView :=
  match session.published with
  | some publication => publication.analysis.graph.view
  | none => {}

/-- The published clusters. -/
def clusterViews (session : Session) : List ClusterView :=
  match session.published with
  | some publication => ClusterView.ofClusters publication.analysis.clusters
  | none => []

/-- The summary of the published run. -/
def summary? (session : Session) : Option Summary :=
  session.published.map (·.analysis.summary)

/-- The report of the published run. -/
def report? (session : Session) (fs : FileSystem) (stamp : Stamp) : Option Report :=
  session.published.map fun publication =>
    Report.make fs stamp publication.config publication.analysis

/-- The answer to a request, and the session after it. A run is not made here: the answer only
says whether it may be. -/
def serve (session : Session) (fs : FileSystem) (stamp : Stamp) : Request → Reply × Session
  | .cancel =>
    let (wasRunning, session) := session.cancel
    (.cancelled wasRunning, session)
  | .start _ => (.refusal session.refusal?, session)
  | .update id code =>
    let (result, session) := session.updateCode id code
    (.updated result, session)
  | .graph => (.graph session.graphView, session)
  | .clusters => (.clusters session.clusterViews, session)
  | .summary => (.summary session.summary?, session)
  | .report => (.report (session.report? fs stamp), session)
  | .callers id => (.functions (session.withGraph (·.callers id)), session)
  | .callees id => (.functions (session.withGraph (·.callees id)), session)
  | .radius id depth => (.radius (session.withGraph (·.radius id depth)), session)

/-- The answers to requests that are made one after another. -/
def serveAll (session : Session) (fs : FileSystem) (stamp : Stamp) :
    List Request → List Reply × Session
  | [] => ([], session)
  | request :: rest =>
    let (reply, session) := session.serve fs stamp request
    let (replies, session) := session.serveAll fs stamp rest
    (reply :: replies, session)

/-- What the observer of a run saw at the beginning of a phase. -/
structure Notice where
  phase : Phase
  state : RunState
  replies : List Reply

/-- The observer that makes some requests of the session at the beginning of each phase, and notes
the answers. -/
def observer (fs : FileSystem) (stamp : Stamp) (requests : Phase → List Request) :
    Observer (Session × List Notice) where
  notify phase seen :=
    let (replies, session) := seen.1.serveAll fs stamp (requests phase)
    (session, seen.2 ++ [⟨phase, seen.1.state, replies⟩])
  cancelled seen := seen.1.active = some true

/-- A session after a run that went on from the state `previous`. -/
def finish (session : Session) (previous : RunState) (config : Config) :
    Except Error Analysis → Session
  | .ok analysis =>
    { state := .ready, published := some ⟨config, analysis⟩, lastError := none, active := none }
  | .error .cancelled => { session with state := previous, active := none }
  | .error e => { session with state := .error, lastError := some e.message, active := none }

/-- What came of asking for a run. -/
structure Outcome where
  /-- There is none when the run does not end. -/
  result : Option (Except Error Summary)
  /-- What the observer saw, in order. -/
  notices : List Notice
  /-- The session after the run, or as the run keeps it. -/
  session : Session

/-- A run, during which its observer makes some requests at the beginning of each phase. -/
def analyze (session : Session) (fs : FileSystem) (timings : Timings) (stamp : Stamp)
    (config : Config) (requests : Phase → List Request) : Outcome :=
  match session.refusal? with
  | some e => ⟨some (.error e), [], session⟩
  | none =>
    let begun : Session := { session with state := .processing, active := some false }
    match (Analysis.run fs timings config (observer fs stamp requests)).outcome (begun, []) with
    | (some result, seen) =>
      ⟨some (result.map Analysis.summary), seen.2, seen.1.finish session.state config result⟩
    | (none, seen) => ⟨none, seen.2, seen.1⟩

end Session

end CallAtlas
