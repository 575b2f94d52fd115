import CallAtlas.Error
import CallAtlas.FileTree
import CallAtlas.Path.Route

/-!
# A file system

A file tree together with the directory that relative paths begin in. A path is followed step by
step; a symbolic link on the way is replaced by its target, at most `maxLinks` times. What a path
leads to is given as the sequence of names from the root of the tree, with no link among them.

Reading follows the path to its end, and a slash there asks for a directory. Writing does too,
except that the last name may be new and that a name with a slash after it is refused unseen. No
path leads through a locked directory.
-/

namespace CallAtlas

/-- A file tree and the directory one is in. -/
structure FileSystem where
  tree : FileTree
  here : List Bytes

namespace FileSystem

/-- What a path is followed for. -/
inductive Purpose where
  /-- For what is there. -/
  | find
  /-- For a file that is there or is to be made. -/
  | create
  deriving DecidableEq, Repr

/-- How many links one path may lead through. -/
def maxLinks : Nat := 40

/-- How many bytes a name may have. -/
def maxName : Nat := 255

/-- How many bytes a path may have. -/
def maxPath : Nat := 4095

/-- The entries of the directory at a sequence of names. -/
def entriesAt (fs : FileSystem) (names : List Bytes) :
    Except FileError (List (Bytes × FileTree)) :=
  match fs.tree.get? names with
  | some (.dir entries) => .ok entries
  | some .locked => .error .accessDenied
  | _ => .error .notADirectory

/-- A directory stands at a sequence of names, open or locked. -/
def expectDir (fs : FileSystem) (names : List Bytes) : Except FileError Unit :=
  match fs.tree.get? names with
  | some (.dir _) | some .locked => .ok ()
  | _ => .error .notADirectory

/-- What stands under a name among the entries of a directory. -/
def lookup (entries : List (Bytes × FileTree)) (name : Bytes) : Except FileError (Option FileTree) :=
  if maxName < name.length then .error .nameTooLong else .ok (entries.lookup name)

/-- Where some steps, and perhaps a slash after them, lead from a place, given where a route leads
from a link on: `beyond` goes on from the directory of the link with the route of its target and
what is left. -/
def walkTo (fs : FileSystem) (purpose : Purpose)
    (beyond : List Bytes → Route UInt8 → Except FileError (List Bytes)) (endsInSlash : Bool)
    (place : List Bytes) : List (Step UInt8) → Except FileError (List Bytes)
  | [] => do
    if endsInSlash then
      fs.expectDir place
    return place
  | .root :: rest => fs.walkTo purpose beyond endsInSlash [] rest
  | .here :: rest => do
    let _ ← fs.entriesAt place
    fs.walkTo purpose beyond endsInSlash place rest
  | .up :: rest => do
    let _ ← fs.entriesAt place
    fs.walkTo purpose beyond endsInSlash place.dropLast rest
  | .name name :: rest => do
    let entries ← fs.entriesAt place
    if purpose = .create ∧ rest = [] ∧ endsInSlash then .error .isADirectory
    else
      match ← lookup entries name with
      | none =>
        if purpose = .create ∧ rest = [] then .ok (place ++ [name]) else .error .notFound
      | some (.link target) => beyond place (Path.route target ++ ⟨rest, endsInSlash⟩)
      | some _ => fs.walkTo purpose beyond endsInSlash (place ++ [name]) rest

/-- Where a route leads from a place, through so many links at most. -/
def walk (fs : FileSystem) (purpose : Purpose) :
    Nat → List Bytes → Route UInt8 → Except FileError (List Bytes)
  | 0, place, route =>
    fs.walkTo purpose (fun _ _ => .error .tooManyLinks) route.endsInSlash place route.steps
  | links + 1, place, route =>
    fs.walkTo purpose (fs.walk purpose links) route.endsInSlash place route.steps

/-- Where a route leads from the directory one is in. -/
def follow (fs : FileSystem) (purpose : Purpose) (route : Route UInt8) :
    Except FileError (List Bytes) :=
  fs.walk purpose maxLinks fs.here route

/-- A path that can name something: it has a byte, and none is zero. -/
def named (path : Bytes) : Except FileError Bytes :=
  if path.contains 0 then .error .zeroInPath
  else if path.isEmpty then .error .notFound
  else .ok path

/-- A path that can be followed in one go: it can name something, and it is not too long. -/
def admitted (path : Bytes) : Except FileError Bytes := do
  let path ← named path
  if maxPath < path.length then .error .nameTooLong else return path

/-- The names, free of links, that a path leads to. -/
def locate (fs : FileSystem) (path : Bytes) : Except FileError (List Bytes) := do
  fs.follow .find (Path.route (← admitted path))

/-- The names, free of links, that a path of any length leads to. -/
def resolve (fs : FileSystem) (path : Bytes) : Except FileError (List Bytes) := do
  fs.follow .find (Path.route (← named path))

/-- The names of the directory that a path's last step is taken in. -/
def above (fs : FileSystem) (path : Bytes) : Except FileError (List Bytes) :=
  fs.follow .find ⟨(Path.allSteps path).dropLast, true⟩

/-- What a path leads to. -/
def entry (fs : FileSystem) (path : Bytes) : Except FileError FileTree := do
  let names ← fs.locate path
  match fs.tree.get? names with
  | some tree => .ok tree
  | none => .error .notFound

/-- Whether a path leads to a directory. -/
def isDir (fs : FileSystem) (path : Bytes) : Bool :=
  match fs.entry path with
  | .ok (.dir _) | .ok .locked => true
  | _ => false

/-- The content of the file that a path leads to. -/
def read (fs : FileSystem) (path : Bytes) : Except FileError Content := do
  match ← fs.entry path with
  | .file content => .ok content
  | .dir _ => .error .isADirectory
  | .locked => .error .accessDenied
  | .link _ => .error .notFound

/-- The content of a file as text. -/
def readText (fs : FileSystem) (path : Bytes) : Except FileError String := do
  let content ← fs.read path
  match Text.Utf8.decode? content.bytes with
  | some text => .ok text
  | none => .error .notText

/-- How many bytes a directory counts for: one block. -/
def dirSize : Nat := 4096

/-- The number of bytes of what a path leads to, zero when there is nothing. -/
def size (fs : FileSystem) (path : Bytes) : Nat :=
  match fs.entry path with
  | .ok (.file content) => content.bytes.length
  | .ok (.dir _) | .ok .locked => dirSize
  | _ => 0

/-- A new directory at a path. -/
def makeDir (fs : FileSystem) (path : Bytes) : Except FileError FileSystem := do
  let path ← admitted path
  let above ← fs.above path
  match Path.lastName? (Path.allSteps path) with
  | some name =>
    match ← lookup (← fs.entriesAt above) name with
    | some _ => .error .alreadyExists
    | none => .ok { fs with tree := fs.tree.put (.dir []) (above ++ [name]) }
  | none => .error .alreadyExists

/-- A directory that is there already needs no making. -/
def unlessDir (fs : FileSystem) (path : Bytes) (e : FileError) : Except FileError FileSystem :=
  if fs.isDir path then .ok fs else .error e

/-- A directory at the first of some paths, and, as far as they are missing, at the others, which
are on the way to it. -/
def makeDirs (fs : FileSystem) : List Bytes → Except FileError FileSystem
  | [] => .ok fs
  | path :: others =>
    match fs.makeDir path with
    | .ok fs => .ok fs
    | .error .notFound => do
      let fs ← fs.makeDirs others
      match fs.makeDir path with
      | .ok fs => .ok fs
      | .error e => fs.unlessDir path e
    | .error e => fs.unlessDir path e

/-- A file with some content at a path, in place of the file that is there. -/
def write (fs : FileSystem) (path : Bytes) (content : Content) : Except FileError FileSystem := do
  let names ← fs.follow .create (Path.route (← admitted path))
  match fs.tree.get? names with
  | some (.dir _) | some .locked => .error .isADirectory
  | _ => .ok { fs with tree := fs.tree.put (.file content) names }

/-- A file with some content at a path whose directory is made first. -/
def writeMaking (fs : FileSystem) (path : Bytes) (content : Content) :
    Except FileError FileSystem := do
  let fs ← fs.makeDirs (Path.directories path)
  fs.write path content

/-- A tree at a path, in place of what stands there; the link at its end is not followed. -/
def place (fs : FileSystem) (path : Bytes) (tree : FileTree) : Except FileError FileSystem := do
  let fs ← fs.makeDirs (Path.directories path)
  let above ← fs.above path
  match Path.lastName? (Path.allSteps path) with
  | some name => .ok { fs with tree := fs.tree.put tree (above ++ [name]) }
  | none => .error .alreadyExists

/-- Nothing at a path. -/
def remove (fs : FileSystem) (path : Bytes) : Except FileError FileSystem := do
  let above ← fs.above path
  match Path.lastName? (Path.allSteps path) with
  | some name => .ok { fs with tree := fs.tree.erase (above ++ [name]) }
  | none => .error .notFound

/-- The full path, free of links, of what a path leads to. -/
def canonical? (fs : FileSystem) (path : String) : Option String :=
  match fs.resolve (Text.Utf8.encode path) with
  | .ok names => some ("/" ++ "/".intercalate (names.map Text.Utf8.decode))
  | .error _ => none

/-- The name of what a path leads to. -/
def canonicalName? (fs : FileSystem) (path : String) : Option String :=
  match fs.resolve (Text.Utf8.encode path) with
  | .ok names => names.getLast?.map Text.Utf8.decode
  | .error _ => none

end FileSystem

end CallAtlas
