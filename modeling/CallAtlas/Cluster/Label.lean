import CallAtlas.CallGraph
import CallAtlas.Text.Blank
import CallAtlas.Text.CommonPrefix
import CallAtlas.Text.Segment

/-!
# Labels of clusters

A cluster is named for what its members share: the scope of enough of them, or else the directory
of most of them, or else the beginning of all their names. Labels that would be shared by several
clusters, or that are taken already, are extended until they are free.
-/

namespace CallAtlas.Cluster

/-- Each value once, in order, with the number of its occurrences. -/
def counts (values : List String) : List (String × Nat) :=
  (Ordered.ofList id values).map fun v => (v, values.count v)

/-- The most frequent value with its number; of equally frequent ones the greatest. -/
def mostCommon? (values : List String) : Option (String × Nat) :=
  (counts values).foldl (fun best entry =>
    match best with
    | some b => if b.2 ≤ entry.2 then some entry else some b
    | none => some entry) none

/-- The innermost segment of a scope. -/
def innermost (scope : String) : String := String.ofList (Text.afterLast '.' scope.toList)

/-- The directory part of a file's path, if it has one. -/
def directory? (file : String) : Option String :=
  (Text.beforeLast? '/' file.toList).map String.ofList

/-- Directory names that say nothing about their content. -/
def genericNames : List String := ["src", "source", "lib", "app", "main", "java"]

/-- The last segment of a directory that is neither generic nor `other`. Generic names are known in
either case; no letter beyond ASCII has a letter of theirs as its small form. -/
def directoryLabel? (directory other : String) : Option String :=
  let telling (name : List Char) :=
    !genericNames.contains (String.ofList (name.map Text.lowerAscii)) && name != other.toList
  ((Text.pieces '/' directory.toList).filter telling).getLast?.map String.ofList

/-- The segment that most members' directories have in common, `other` apart. -/
def commonDirectory? (members : List FunctionNode) (other : String) : Option String :=
  (mostCommon? (members.filterMap fun m => directory? m.file)).bind fun (directory, _) =>
    directoryLabel? directory other

/-- The innermost segment of the most common scope, if three in ten members have that scope. -/
def scopeLabel? (members : List FunctionNode) : Option String :=
  (mostCommon? (members.filterMap (·.scope))).bind fun (scope, count) =>
    if members.length * 3 ≤ count * 10 then some (innermost scope) else none

/-- The beginning that the names of all members share, if it has three bytes or more. -/
def nameLabel? (members : List FunctionNode) : Option String :=
  (Text.commonPrefix? (members.map (·.name))).bind fun shared =>
    if 3 ≤ shared.utf8ByteSize then
      some (String.ofList (Text.trimEndBy (· == '_') shared.toList))
    else none

/-- The label that a cluster has by itself. -/
def baseLabel (members : List FunctionNode) : String :=
  ((scopeLabel? members).or ((commonDirectory? members "").or (nameLabel? members))).getD
    s!"Cluster ({members.length} members)"

/-- The scopes of some members, more frequent ones first, and of equally frequent ones in order. -/
def rankedScopes (members : List FunctionNode) : List String :=
  ((counts (members.filterMap (·.scope))).mergeSort fun a b => b.2 ≤ a.2).map (·.1)

/-- The names of some members, longer ones first, and of one length in order. -/
def rankedNames (members : List FunctionNode) : List String :=
  (members.map (·.name)).mergeSort fun a b =>
    b.utf8ByteSize < a.utf8ByteSize || (a.utf8ByteSize == b.utf8ByteSize && a ≤ b)

/-- The extensions of a label that its members suggest: by the second scope, by the directory, or
by the name of a member. -/
def extensions (label : String) (members : List FunctionNode) : List String :=
  let byScope := (rankedScopes members)[1]?.toList.map fun scope =>
    label ++ "/" ++ innermost scope
  let byDirectory := (commonDirectory? members label).toList.map fun name => label ++ "/" ++ name
  let byName := ((rankedNames members).filter (· != label)).map fun name => label ++ ":" ++ name
  byScope ++ byDirectory ++ byName

/-- The extensions of a label by a number, one more than there are labels in use. -/
def numbered (label : String) (used : List String) : List String :=
  (List.range (used.length + 1)).map fun k => s!"{label} #{k + 2}"

/-- The first extension of a label that is not in use. -/
def freeLabel (label : String) (members : List FunctionNode) (used : List String) : String :=
  ((extensions label members ++ numbered label used).find? (!used.contains ·)).getD label

/-- The labels of clusters in order, given those in use. A label that several clusters have by
themselves is extended for each of them. -/
def distinctLabels (shared : String → Bool) (used : List String) :
    List (List FunctionNode) → List String
  | [] => []
  | members :: rest =>
    let base := baseLabel members
    let label :=
      if shared base || used.contains base then freeLabel base members used else base
    label :: distinctLabels shared (label :: used) rest

/-- The labels of clusters, all different. -/
def labels (clusters : List (List FunctionNode)) : List String :=
  let bases := clusters.map baseLabel
  distinctLabels (fun label => 1 < bases.count label) [] clusters

end CallAtlas.Cluster
