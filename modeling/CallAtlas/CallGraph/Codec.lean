import CallAtlas.CallGraph.Impact
import CallAtlas.Json.Codec

/-!
# The JSON form of functions, calls and impacts
-/

namespace CallAtlas

/-- The fields of a function, in the order of a record that lists them by position. -/
def FunctionNode.fieldNames : List String :=
  ["id", "name", "file", "scope", "signature", "start_line", "end_line", "code", "cluster"]

instance : Codec FunctionNode where
  encode node := .obj
    [("id", encode node.id), ("name", encode node.name), ("file", encode node.file),
      ("scope", Codec.encodeOption node.scope), ("signature", encode node.signature),
      ("start_line", encode node.startLine), ("end_line", encode node.endLine),
      ("code", encode node.code), ("cluster", Codec.encodeOption node.cluster)]
  decode? json := do
    let field ← json.record? FunctionNode.fieldNames
    return {
      id := ← (field "id").required
      name := ← (field "name").required
      file := ← (field "file").required
      scope := ← (field "scope").optional
      signature := ← (field "signature").required
      startLine := ← (field "start_line").required
      endLine := ← (field "end_line").required
      code := ← (field "code").required
      cluster := ← (field "cluster").optional }

/-- A call is a link from its caller to its callee. -/
instance : Codec Call where
  encode call := .obj [("source", encode call.caller), ("target", encode call.callee)]
  decode? json := do
    let field ← json.record? ["source", "target"]
    return { caller := ← (field "source").required, callee := ← (field "target").required }

instance : Codec CallGraph.Ripple where
  encode ripple := .obj
    [("node_id", encode ripple.node), ("affected_nodes", encode ripple.affected)]
  decode? json := do
    let field ← json.record? ["node_id", "affected_nodes"]
    return { node := ← (field "node_id").required, affected := ← (field "affected_nodes").required }

end CallAtlas
