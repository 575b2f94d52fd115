import CallAtlas.Cluster
import CallAtlas.Json.Codec

/-!
# The JSON form of clusters
-/

namespace CallAtlas

instance : Codec Cluster where
  encode cluster := .obj
    [("id", encode cluster.id), ("label", encode cluster.label),
      ("members", encode cluster.members), ("cohesion", encode cluster.cohesion)]
  decode? json := do
    let field ← json.record? ["id", "label", "members", "cohesion"]
    return {
      id := ← (field "id").required
      label := ← (field "label").required
      members := ← (field "members").required
      cohesion := ← (field "cohesion").required }

end CallAtlas
