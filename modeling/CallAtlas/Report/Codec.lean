import CallAtlas.CallGraph.Codec
import CallAtlas.Json.Printer
import CallAtlas.Report

/-!
# The JSON form of reports, and writing them
-/

namespace CallAtlas

instance : Codec GraphView where
  encode view := .obj [("nodes", encode view.nodes), ("links", encode view.links)]
  decode? json := do
    let field ← json.record? ["nodes", "links"]
    return { nodes := ← (field "nodes").required, links := ← (field "links").required }

instance : Codec ClusterView where
  encode view := .obj
    [("id", encode view.id), ("label", encode view.label), ("members", encode view.members),
      ("node_count", encode view.nodeCount), ("cohesion", encode view.cohesion)]
  decode? json := do
    let field ← json.record? ["id", "label", "members", "node_count", "cohesion"]
    return {
      id := ← (field "id").required
      label := ← (field "label").required
      members := ← (field "members").required
      nodeCount := ← (field "node_count").required
      cohesion := ← (field "cohesion").required }

/-- The fields of a report, in the order in which they are written. -/
def Report.fieldNames : List String :=
  ["version", "metadata", "stats", "nodes", "links", "clusters"]

instance : Codec Report where
  encode report := .obj
    [("version", encode report.version), ("metadata", encode report.metadata),
      ("stats", encode report.stats), ("nodes", encode report.nodes),
      ("links", encode report.links), ("clusters", encode report.clusters)]
  decode? json := do
    let field ← json.record? Report.fieldNames
    return {
      version := ← (field "version").required
      metadata := ← (field "metadata").required
      stats := ← (field "stats").required
      nodes := ← (field "nodes").required
      links := ← (field "links").required
      clusters := ← (field "clusters").required }

namespace Report

/-- A report as it is written into a file. -/
def text (report : Report) : String := (encode report).render

/-- A file system in which a report is written at a path, whose directory is made if needed. -/
def write (report : Report) (fs : FileSystem) (path : String) : Except FileError FileSystem :=
  fs.writeMaking (Text.Utf8.encode path) { bytes := Text.Utf8.encode report.text }

end Report

end CallAtlas
