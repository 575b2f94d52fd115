import CallAtlas.Declaration
import CallAtlas.Json.Codec
import CallAtlas.Language

/-!
# The JSON form of languages and outlines

References are written with their two parts and sets of them as arrays in order. Only the
references to the library may be left out of a declaration.
-/

namespace CallAtlas

instance : Codec Language := Codec.ofNames Language.all Language.name

instance : Codec CallRef where
  encode ref := .obj
    [("name", encode ref.name), ("qualifier", Codec.encodeOption ref.qualifier)]
  decode? json := do
    let field ← json.record? ["name", "qualifier"]
    return { name := ← (field "name").required, qualifier := ← (field "qualifier").optional }

instance : Codec CallSet where
  encode set := encode set.refs
  decode? json := (decode? json).map CallSet.ofList

/-- The fields of a declaration, in the order of a record that lists them by position. -/
def Declaration.fieldNames : List String :=
  ["name", "scope", "signature", "params", "start_line", "end_line", "byte_range", "code", "calls",
    "builtin_calls"]

instance : Codec Declaration where
  encode d := .obj
    [("name", encode d.name), ("scope", Codec.encodeOption d.scope),
      ("signature", encode d.signature), ("params", encode d.params),
      ("start_line", encode d.startLine), ("end_line", encode d.endLine),
      ("byte_range", encode d.byteRange), ("code", encode d.code), ("calls", encode d.calls),
      ("builtin_calls", encode d.builtinCalls)]
  decode? json := do
    let field ← json.record? Declaration.fieldNames
    return {
      name := ← (field "name").required
      scope := ← (field "scope").optional
      signature := ← (field "signature").required
      params := ← (field "params").required
      startLine := ← (field "start_line").required
      endLine := ← (field "end_line").required
      byteRange := ← (field "byte_range").required
      code := ← (field "code").required
      calls := ← (field "calls").required
      builtinCalls := ← (field "builtin_calls").orDefault CallSet.empty }

instance : Codec Outline where
  encode outline := .obj
    [("file", encode outline.file), ("functions", encode outline.declarations)]
  decode? json := do
    let field ← json.record? ["file", "functions"]
    return { file := ← (field "file").required, declarations := ← (field "functions").required }

end CallAtlas
