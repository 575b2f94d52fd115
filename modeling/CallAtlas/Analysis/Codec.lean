import CallAtlas.Analysis
import CallAtlas.Error.Codec

/-!
# The JSON form of a summary
-/

namespace CallAtlas

/-- The fields of a summary, in the order of a record that lists them by position. -/
def Summary.fieldNames : List String :=
  ["file_count", "node_count", "edge_count", "cluster_count", "warnings", "phase_timings",
    "duration_ms"]

instance : Codec Summary where
  encode summary := .obj
    [("file_count", encode summary.fileCount), ("node_count", encode summary.nodeCount),
      ("edge_count", encode summary.edgeCount), ("cluster_count", encode summary.clusterCount),
      ("warnings", encode summary.warnings), ("phase_timings", encode summary.phaseTimings),
      ("duration_ms", encode summary.durationMs)]
  decode? json := do
    let field ← json.record? Summary.fieldNames
    return {
      fileCount := ← (field "file_count").required
      nodeCount := ← (field "node_count").required
      edgeCount := ← (field "edge_count").required
      clusterCount := ← (field "cluster_count").required
      warnings := ← (field "warnings").required
      phaseTimings := ← (field "phase_timings").required
      durationMs := ← (field "duration_ms").required }

end CallAtlas
