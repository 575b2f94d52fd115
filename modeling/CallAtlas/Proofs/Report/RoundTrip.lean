import CallAtlas.Analysis.Codec
import CallAtlas.Cluster.Codec
import CallAtlas.Config.Codec
import CallAtlas.Declaration.Codec
import CallAtlas.Proofs.Dialect.Attribution
import CallAtlas.Proofs.Json.Lawful
import CallAtlas.Report.Codec

/-!
# Reading back what was written

Every record that is written as JSON is read back. For each of them `Fits` says which of its numbers
have to be small or finite, and the form is lawful: each field that is written under a name is read
under the same name by the form of its own type. A field that may be left out has a default that
fits, an option is never written like an absent one, and sets and dictionaries are in order when they are
written, so making them again changes nothing.
-/

namespace CallAtlas

open LawfulCodec

/-! ### Configurations -/

/-- The numbers of a configuration can be written. -/
structure Config.Fits (config : Config) : Prop where
  resolution : config.resolution.isFinite = true
  maxClusterSize : config.maxClusterSize ≤ Json.maxInt
  maxFileSize : config.maxFileSize ≤ Json.maxInt

theorem Config.fits_default (root : String) : Config.Fits { root } :=
  ⟨(by decide : (1.0 : Float).isFinite = true), (by decide : 50 ≤ Json.maxInt),
    (by decide : 1000000 ≤ Json.maxInt)⟩

instance : LawfulCodec Config where
  Fits := Config.Fits
  restored {config} h := by
    -- Only the form of the record itself is opened. Those of its fields stay closed.
    delta instCodecConfig
    simp [h.resolution, h.maxClusterSize, h.maxFileSize]
  fits {json config} read := by
    delta instCodecConfig at read
    simp only [Option.bind_eq_bind, Option.bind_eq_some_iff, Option.pure_def,
      Option.some.injEq] at read
    obtain ⟨field, -, root, -, language, -, resolution, hresolution, clusterSize, hclusterSize,
      patterns, -, fileSize, hfileSize, tolerant, -, verbose, -, quiet, -, rfl⟩ := read
    have default := Config.fits_default root
    exact ⟨Slot.fits_of_orDefault hresolution default.resolution,
      Slot.fits_of_orDefault hclusterSize default.maxClusterSize,
      Slot.fits_of_orDefault hfileSize default.maxFileSize⟩

/-! ### Declarations -/

instance : LawfulCodec CallRef where
  Fits _ := True
  restored _ := by
    delta instCodecCallRef
    simp
  fits _ := trivial

@[simp] theorem CallRef.fits (ref : CallRef) : Fits ref := trivial

/-- A set is made again from its references. -/
theorem CallSet.ofList_refs (set : CallSet) : CallSet.ofList set.refs = set := by
  cases set with
  | mk refs increasing =>
      simp only [ofList, Ordered.ofList_eq_of_perm increasing (List.Perm.refl refs)]

instance : LawfulCodec CallSet where
  Fits _ := True
  restored {set} _ := by
    have read : decode? (encode set.refs) = some set.refs := restored fun ref _ => ref.fits
    exact (congrArg (Option.map CallSet.ofList) read).trans (congrArg some set.ofList_refs)
  fits _ := trivial

@[simp] theorem CallSet.fits (set : CallSet) : Fits set := trivial

/-- The numbers of a declaration can be written. -/
structure Declaration.Fits (d : Declaration) : Prop where
  startLine : d.startLine ≤ Json.maxInt
  endLine : d.endLine ≤ Json.maxInt
  byteRange : d.byteRange.1 ≤ Json.maxInt ∧ d.byteRange.2 ≤ Json.maxInt

instance : LawfulCodec Declaration where
  Fits := Declaration.Fits
  restored {d} h := by
    delta instCodecDeclaration
    simp [h.startLine, h.endLine, h.byteRange]
  fits {json d} read := by
    delta instCodecDeclaration at read
    simp only [Option.bind_eq_bind, Option.bind_eq_some_iff, Option.pure_def,
      Option.some.injEq] at read
    obtain ⟨field, -, name, -, scope, -, signature, -, params, -, startLine, hstart, endLine, hend,
      byteRange, hrange, code, -, calls, -, builtinCalls, -, rfl⟩ := read
    exact ⟨Slot.fits_of_required hstart, Slot.fits_of_required hend, Slot.fits_of_required hrange⟩

/-- The numbers of an outline can be written. -/
def Outline.Fits (outline : Outline) : Prop := ∀ d ∈ outline.declarations, d.Fits

instance : LawfulCodec Outline where
  Fits := Outline.Fits
  restored {outline} h := by
    have declarations : Fits outline.declarations := h
    delta instCodecOutline
    simp [declarations]
  fits {json outline} read := by
    delta instCodecOutline at read
    simp only [Option.bind_eq_bind, Option.bind_eq_some_iff, Option.pure_def,
      Option.some.injEq] at read
    obtain ⟨field, -, file, -, declarations, hdeclarations, rfl⟩ := read
    exact Slot.fits_of_required hdeclarations

/-! ### Functions, calls and clusters -/

/-- The numbers of a function can be written. -/
structure FunctionNode.Fits (node : FunctionNode) : Prop where
  startLine : node.startLine ≤ Json.maxInt
  endLine : node.endLine ≤ Json.maxInt
  cluster : ∀ id ∈ node.cluster, id ≤ Json.maxInt

instance : LawfulCodec FunctionNode where
  Fits := FunctionNode.Fits
  restored {node} h := by
    have cluster := Slot.optional_encodeOption_nat h.cluster
    delta instCodecFunctionNode
    simp [h.startLine, h.endLine, cluster]
  fits {json node} read := by
    delta instCodecFunctionNode at read
    simp only [Option.bind_eq_bind, Option.bind_eq_some_iff, Option.pure_def,
      Option.some.injEq] at read
    obtain ⟨field, -, id, -, name, -, file, -, scope, -, signature, -, startLine, hstart,
      endLine, hend, code, -, cluster, hcluster, rfl⟩ := read
    exact ⟨Slot.fits_of_required hstart, Slot.fits_of_required hend, Slot.fits_of_optional hcluster⟩

instance : LawfulCodec Call where
  Fits _ := True
  restored _ := by
    delta instCodecCall
    simp
  fits _ := trivial

@[simp] theorem Call.fits (call : Call) : Fits call := trivial

instance : LawfulCodec CallGraph.Ripple where
  Fits _ := True
  restored _ := by
    delta instCodecRipple
    simp
  fits _ := trivial

/-- The numbers of a cluster can be written. -/
structure Cluster.Fits (cluster : Cluster) : Prop where
  id : cluster.id ≤ Json.maxInt
  cohesion : cluster.cohesion.isFinite = true

instance : LawfulCodec Cluster where
  Fits := Cluster.Fits
  restored {cluster} h := by
    delta instCodecCluster
    simp [h.id, h.cohesion]
  fits {json cluster} read := by
    delta instCodecCluster at read
    simp only [Option.bind_eq_bind, Option.bind_eq_some_iff, Option.pure_def,
      Option.some.injEq] at read
    obtain ⟨field, -, id, hid, label, -, members, -, cohesion, hcohesion, rfl⟩ := read
    exact ⟨Slot.fits_of_required hid, Slot.fits_of_required hcohesion⟩

/-! ### Warnings and summaries -/

/-- The number of a warning can be written. -/
def Warning.Fits : Warning → Prop
  | parseFailure _ _ | skippedEntry _ _ => True
  | unresolvedReference _ _ candidates => candidates ≤ Json.maxInt

/-- Whatever the kind, a warning that is read has a number that fits. -/
theorem Warning.fits_of_ofKind? {kind : String} {body : Json} {warning : Warning}
    (read : Warning.ofKind? kind body = some warning) : warning.Fits := by
  rw [ofKind?] at read
  split at read
  · simp only [Option.bind_eq_bind, Option.bind_eq_some_iff, Option.pure_def,
      Option.some.injEq] at read
    obtain ⟨field, -, file, -, reason, -, rfl⟩ := read
    trivial
  split at read
  · simp only [Option.bind_eq_bind, Option.bind_eq_some_iff, Option.pure_def,
      Option.some.injEq] at read
    obtain ⟨field, -, path, -, reason, -, rfl⟩ := read
    trivial
  split at read
  · simp only [Option.bind_eq_bind, Option.bind_eq_some_iff, Option.pure_def,
      Option.some.injEq] at read
    obtain ⟨field, -, caller, -, callee, -, candidates, hcandidates, rfl⟩ := read
    exact Slot.fits_of_required hcandidates
  · cases read

instance : LawfulCodec Warning where
  Fits := Warning.Fits
  restored {warning} h := by
    delta instCodecWarning
    cases warning with
    | parseFailure file reason => simp [Warning.ofKind?]
    | skippedEntry path reason => simp [Warning.ofKind?]
    | unresolvedReference caller callee candidates =>
        have small : candidates ≤ Json.maxInt := h
        simp [Warning.ofKind?, small]
  fits {json warning} read := by
    delta instCodecWarning at read
    dsimp only at read
    split at read
    · exact Warning.fits_of_ofKind? read
    · split at read
      · exact Warning.fits_of_ofKind? read
      · cases read
    · cases read

/-- The numbers of a summary can be written. -/
structure Summary.Fits (summary : Summary) : Prop where
  fileCount : summary.fileCount ≤ Json.maxInt
  nodeCount : summary.nodeCount ≤ Json.maxInt
  edgeCount : summary.edgeCount ≤ Json.maxInt
  clusterCount : summary.clusterCount ≤ Json.maxInt
  warnings : ∀ warning ∈ summary.warnings, warning.Fits
  phaseTimings : ∀ timing ∈ summary.phaseTimings.entries, timing.2.isFinite = true
  durationMs : summary.durationMs.isFinite = true

instance : LawfulCodec Summary where
  Fits := Summary.Fits
  restored {summary} h := by
    have warnings : Fits summary.warnings := h.warnings
    have phaseTimings : Fits summary.phaseTimings := h.phaseTimings
    delta instCodecSummary
    simp [h.fileCount, h.nodeCount, h.edgeCount, h.clusterCount, h.durationMs, warnings,
      phaseTimings]
  fits {json summary} read := by
    delta instCodecSummary at read
    simp only [Option.bind_eq_bind, Option.bind_eq_some_iff, Option.pure_def,
      Option.some.injEq] at read
    obtain ⟨field, -, fileCount, hfiles, nodeCount, hnodes, edgeCount, hedges, clusterCount,
      hclusters, warnings, hwarnings, phaseTimings, htimings, durationMs, hduration, rfl⟩ := read
    exact ⟨Slot.fits_of_required hfiles, Slot.fits_of_required hnodes, Slot.fits_of_required hedges,
      Slot.fits_of_required hclusters, Slot.fits_of_required hwarnings,
      Slot.fits_of_required htimings, Slot.fits_of_required hduration⟩

/-! ### Reports -/

/-- The numbers of a graph can be written. -/
def GraphView.Fits (view : GraphView) : Prop := ∀ node ∈ view.nodes, node.Fits

instance : LawfulCodec GraphView where
  Fits := GraphView.Fits
  restored {view} h := by
    have nodes : Fits view.nodes := h
    delta instCodecGraphView
    simp [nodes]
  fits {json view} read := by
    delta instCodecGraphView at read
    simp only [Option.bind_eq_bind, Option.bind_eq_some_iff, Option.pure_def,
      Option.some.injEq] at read
    obtain ⟨field, -, nodes, hnodes, links, -, rfl⟩ := read
    exact Slot.fits_of_required hnodes

/-- The numbers of a cluster can be written as a reader sees it. -/
structure ClusterView.Fits (view : ClusterView) : Prop where
  id : view.id ≤ Json.maxInt
  nodeCount : view.nodeCount ≤ Json.maxInt
  cohesion : view.cohesion.isFinite = true

instance : LawfulCodec ClusterView where
  Fits := ClusterView.Fits
  restored {view} h := by
    delta instCodecClusterView
    simp [h.id, h.nodeCount, h.cohesion]
  fits {json view} read := by
    delta instCodecClusterView at read
    simp only [Option.bind_eq_bind, Option.bind_eq_some_iff, Option.pure_def,
      Option.some.injEq] at read
    obtain ⟨field, -, id, hid, label, -, members, -, nodeCount, hcount, cohesion, hcohesion, rfl⟩ :=
      read
    exact ⟨Slot.fits_of_required hid, Slot.fits_of_required hcount,
      Slot.fits_of_required hcohesion⟩

/-- The numbers of the functions and clusters of a report can be written. Its other entries are of
any form. -/
structure Report.Fits (report : Report) : Prop where
  nodes : ∀ node ∈ report.nodes, node.Fits
  clusters : ∀ view ∈ report.clusters, view.Fits

instance : LawfulCodec Report where
  Fits := Report.Fits
  restored {report} h := by
    have nodes : Fits report.nodes := h.nodes
    have clusters : Fits report.clusters := h.clusters
    delta instCodecReport
    simp [nodes, clusters]
  fits {json report} read := by
    delta instCodecReport at read
    simp only [Option.bind_eq_bind, Option.bind_eq_some_iff, Option.pure_def,
      Option.some.injEq] at read
    obtain ⟨field, -, version, -, metadata, -, stats, -, nodes, hnodes, links, -, clusters,
      hclusters, rfl⟩ := read
    exact ⟨Slot.fits_of_required hnodes, Slot.fits_of_required hclusters⟩

/-! ### All of them -/

/-- Values that fit are read back after they were written, and so is whatever was read before. -/
structure RoundTrips {α : Type} [Codec α] (Fits : α → Prop) : Prop where
  restored : ∀ value, Fits value → decode? (encode value) = some value
  stable : ∀ json (value : α), decode? json = some value → decode? (encode value) = some value

theorem roundTrips {α : Type} [Codec α] [LawfulCodec α] : RoundTrips (Fits : α → Prop) where
  restored _ h := restored h
  stable _ _ read := stable read

/-- Reading undoes writing for every record. -/
theorem records_round_trip :
    RoundTrips Config.Fits ∧ RoundTrips (fun _ : CallRef => True) ∧ RoundTrips Declaration.Fits ∧
    RoundTrips Outline.Fits ∧ RoundTrips FunctionNode.Fits ∧ RoundTrips Cluster.Fits ∧
    RoundTrips ClusterView.Fits ∧ RoundTrips GraphView.Fits ∧ RoundTrips Summary.Fits ∧
    RoundTrips (fun _ : CallGraph.Ripple => True) ∧ RoundTrips Warning.Fits ∧
    RoundTrips Report.Fits :=
  ⟨roundTrips, roundTrips, roundTrips, roundTrips, roundTrips, roundTrips, roundTrips, roundTrips,
    roundTrips, roundTrips, roundTrips, roundTrips⟩

/-- A function without a scope that calls two others and one of the library. -/
def sampleDeclaration : Declaration where
  name := "main"
  scope := none
  signature := "def main()"
  params := "()"
  startLine := 1
  endLine := 3
  byteRange := (0, 42)
  code := ""
  calls := .ofList [⟨"run", some "job"⟩, ⟨"load", none⟩]
  builtinCalls := .ofList [⟨"print", none⟩]

/-- A report with an absent commit and with values inside values. -/
def sampleReport : Report where
  version := "1.0"
  metadata := .ofList
    [("phase_timings", .obj [("scan", .float 0.25)]), ("commit_hash", .null),
      ("tags", .arr [.bool true, .int (-1)])]
  stats := .ofList []
  nodes := [⟨"a.py::main()", "main", "a.py", none, "def main()", 1, 3, "", some 0⟩]
  links := [⟨"a.py::main()", "a.py::main()"⟩]
  clusters := [⟨0, "main", ["a.py::main()"], 1, 0.125⟩]

theorem records_round_trip_samples :
    (sampleDeclaration.Fits ∧ decode? (encode sampleDeclaration) = some sampleDeclaration) ∧
    (sampleReport.Fits ∧ decode? (encode sampleReport) = some sampleReport) ∧
    ((Warning.unresolvedReference "a" "b" Json.maxInt).Fits ∧
      decode? (encode (Warning.unresolvedReference "a" "b" Json.maxInt)) =
        some (Warning.unresolvedReference "a" "b" Json.maxInt)) ∧
    (decode? (.obj [("name", .str "run")]) = some (⟨"run", none⟩ : CallRef) ∧
      decode? (encode (⟨"run", none⟩ : CallRef)) = some (⟨"run", none⟩ : CallRef)) := by
  obtain ⟨-, reference, declaration, -, -, -, -, -, -, -, warning, report⟩ := records_round_trip
  have fitsDeclaration : sampleDeclaration.Fits := ⟨by decide, by decide, by decide⟩
  have fitsReport : sampleReport.Fits := by
    refine ⟨List.forall_mem_singleton.mpr ⟨by decide, by decide, by decide⟩,
      List.forall_mem_singleton.mpr ⟨by decide, by decide, by decide⟩⟩
  have fitsWarning : (Warning.unresolvedReference "a" "b" Json.maxInt).Fits := Nat.le_refl _
  have read : decode? (.obj [("name", .str "run")]) = some (⟨"run", none⟩ : CallRef) := rfl
  exact ⟨⟨fitsDeclaration, declaration.restored _ fitsDeclaration⟩,
    ⟨fitsReport, report.restored _ fitsReport⟩, ⟨fitsWarning, warning.restored _ fitsWarning⟩,
    ⟨read, reference.stable _ _ read⟩⟩

end CallAtlas
