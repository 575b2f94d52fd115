import CallAtlas.Config
import CallAtlas.Json.Codec

/-!
# The JSON form of a configuration

Every field but the root may be left out and then has its default.
-/

namespace CallAtlas

/-- The fields of a configuration, in the order of a record that lists them by position. -/
def Config.fieldNames : List String :=
  ["root", "language", "resolution", "max_cluster_size", "exclude_patterns", "max_file_size",
    "tolerate_syntax_errors", "verbose", "quiet"]

instance : Codec Config where
  encode config := .obj
    [("root", encode config.root), ("language", encode config.language),
      ("resolution", encode config.resolution),
      ("max_cluster_size", encode config.maxClusterSize),
      ("exclude_patterns", encode config.excludePatterns),
      ("max_file_size", encode config.maxFileSize),
      ("tolerate_syntax_errors", encode config.tolerateSyntaxErrors),
      ("verbose", encode config.verbose), ("quiet", encode config.quiet)]
  decode? json := do
    let field ← json.record? Config.fieldNames
    let default : Config := { root := ← (field "root").required }
    return {
      root := default.root
      language := ← (field "language").orDefault default.language
      resolution := ← (field "resolution").orDefault default.resolution
      maxClusterSize := ← (field "max_cluster_size").orDefault default.maxClusterSize
      excludePatterns := ← (field "exclude_patterns").orDefault default.excludePatterns
      maxFileSize := ← (field "max_file_size").orDefault default.maxFileSize
      tolerateSyntaxErrors :=
        ← (field "tolerate_syntax_errors").orDefault default.tolerateSyntaxErrors
      verbose := ← (field "verbose").orDefault default.verbose
      quiet := ← (field "quiet").orDefault default.quiet }

end CallAtlas
