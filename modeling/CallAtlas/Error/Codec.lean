import CallAtlas.Error
import CallAtlas.Json.Codec

/-!
# The JSON form of warnings

A warning names its kind, in a field of its own or, in an array, as the first item. The fields of
the kind follow.
-/

namespace CallAtlas

namespace Warning

/-- The warning of a kind that a record of its other fields gives. -/
def ofKind? (kind : String) (body : Json) : Option Warning :=
  if kind = "parse_failure" then do
    let field ← body.record? ["file", "reason"]
    return parseFailure (← (field "file").required) (← (field "reason").required)
  else if kind = "skipped_entry" then do
    let field ← body.record? ["path", "reason"]
    return skippedEntry (← (field "path").required) (← (field "reason").required)
  else if kind = "unresolved_reference" then do
    let field ← body.record? ["caller", "callee", "candidates"]
    return unresolvedReference (← (field "caller").required) (← (field "callee").required)
      (← (field "candidates").required)
  else none

end Warning

instance : Codec Warning where
  encode
    | .parseFailure file reason => .obj
      [("kind", .str "parse_failure"), ("file", encode file), ("reason", encode reason)]
    | .skippedEntry path reason => .obj
      [("kind", .str "skipped_entry"), ("path", encode path), ("reason", encode reason)]
    | .unresolvedReference caller callee candidates => .obj
      [("kind", .str "unresolved_reference"), ("caller", encode caller),
        ("callee", encode callee), ("candidates", encode candidates)]
  decode?
    | .arr (.str kind :: items) => Warning.ofKind? kind (.arr items)
    | .obj fields =>
      match fields.lookup "kind" with
      | some (.str kind) => Warning.ofKind? kind (.obj fields)
      | _ => none
    | _ => none

end CallAtlas
