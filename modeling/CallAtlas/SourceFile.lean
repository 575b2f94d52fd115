import CallAtlas.Config
import CallAtlas.Declaration
import CallAtlas.Dialect.Choice
import CallAtlas.FileSystem

/-!
# Source files

The source files of a run are the files below its root that have an extension of its language.
They are reached through real directories, and no name on the way is excluded. Each is known by
the path below the root that is written in its outline. A directory that is locked is passed over
with a warning.

A source file gives an outline, or a warning that says why there is none. In a run that was called
off it is skipped.
-/

namespace CallAtlas

/-- The language that a configuration asks for. -/
def Config.chosenLanguage (config : Config) : Except Error Language :=
  match Language.ofTag? config.language with
  | some language => .ok language
  | none => .error (.unsupportedLanguage config.language)

/-- A file to be read. -/
structure SourceFile where
  /-- The path below the root, as text. -/
  relPath : String
  /-- The path by which the file system finds it. -/
  path : Bytes
  deriving DecidableEq, Repr

namespace SourceFile

/-- Names with slashes between them. -/
def joinNames (names : List Bytes) : Bytes := [PathUnit.slash].intercalate names

/-- How the path below the root is written: as text, and with slashes for backslashes. -/
def relPathOf (names : List Bytes) : String :=
  String.ofList ((Text.Utf8.decode (joinNames names)).toList.map fun c => if c = '\\' then '/' else c)

/-- The file at some names below a root. -/
def ofNames (root : String) (names : List Bytes) : SourceFile :=
  ⟨relPathOf names, Path.join (Text.Utf8.encode root) (joinNames names)⟩

/-- The extension of a name, if it is well-formed text. -/
def extensionOf? (name : Bytes) : Option String :=
  (Path.extension? name).bind Text.Utf8.decode?

/-- The extension of a file. -/
def extension? (file : SourceFile) : Option String :=
  (Path.fileName? file.path).bind extensionOf?

/-- Whether a name has one of the extensions of a language. -/
def isWrittenIn (language : Language) (name : Bytes) : Bool :=
  (extensionOf? name).any language.extensions.contains

/-- Whether a configuration lets a name be visited. -/
def admits (config : Config) (name : Bytes) : Bool :=
  !config.excludePatterns.contains (Text.Utf8.decode name)

/-- Whether one sequence of names comes before another, or is the same: by the text of the path
below the root, and when that is the same, by the names. -/
def notAfter (a b : List Bytes) : Bool :=
  let ra := relPathOf a
  let rb := relPathOf b
  ra < rb || (ra == rb && a ≤ b)

/-- The source files of a directory: its names below it. -/
def below (config : Config) (language : Language) (entries : List (Bytes × FileTree)) :
    List (List Bytes) :=
  ((FileTree.findAmong FileTree.isFile (admits config) [] entries).filter fun names =>
    names.getLast?.any (isWrittenIn language)).mergeSort notAfter

/-- The locked directories of a directory: its names below it. Names are compared one after another,
as in a walk that takes the entries of each directory in their order. -/
def lockedBelow (config : Config) (entries : List (Bytes × FileTree)) : List (List Bytes) :=
  (FileTree.findAmong FileTree.isLocked (admits config) [] entries).mergeSort (· ≤ ·)

/-- The warning about a locked directory at some names below a root. -/
def skippedAt (root : String) (names : List Bytes) : Warning :=
  let path := Text.Utf8.decode (Path.join (Text.Utf8.encode root) (joinNames names))
  let cause := FileError.accessDenied.message
  .skippedEntry (relPathOf names) s!"IO error for operation on {path}: {cause}"

/-- What a scan gives. -/
structure Scan where
  files : List SourceFile
  warnings : List Warning

/-- The source files of a run, unless its language is unknown, its root cannot be opened, or it was
cancelled. -/
def scan (fs : FileSystem) (config : Config) (cancelled : Bool) : Except Error Scan := do
  let language ← config.chosenLanguage
  match fs.entry (Text.Utf8.encode config.root) with
  | .ok (.dir entries) =>
    if cancelled then .error .cancelled
    else
      .ok ⟨(below config language entries).map (ofNames config.root),
        (lockedBelow config entries).map (skippedAt config.root)⟩
  | _ => .error (.pathNotFound config.root)

/-- The outline of a source file, or the reason why there is none. -/
def outline (fs : FileSystem) (config : Config) (language : Language) (file : SourceFile) :
    Except String Outline :=
  let size := fs.size file.path
  if config.maxFileSize < size then
    .error s!"file size {size} exceeds {config.maxFileSize} bytes"
  else
    match fs.read file.path with
    | .error e => .error e.message
    | .ok content =>
      match content.syntaxTree with
      | none => .error Dialect.Refusal.noTree.message
      | some tree =>
        (language.dialect.outline config.tolerateSyntaxErrors file.relPath content.bytes
          tree).mapError Dialect.Refusal.message

/-- What becomes of a source file. -/
inductive Reading where
  | outlined (outline : Outline)
  | failed (warning : Warning)
  /-- The run was called off before the file was looked at. -/
  | skipped

namespace Reading

/-- The outline that was made. -/
def outline? : Reading → Option Outline
  | outlined outline => some outline
  | _ => none

/-- The warning that was given. -/
def warning? : Reading → Option Warning
  | failed warning => some warning
  | _ => none

end Reading

/-- A source file is read, unless the run was called off. -/
def reading (fs : FileSystem) (config : Config) (language : Language) (cancelled : Bool)
    (file : SourceFile) : Reading :=
  if cancelled then .skipped
  else
    match file.outline fs config language with
    | .ok outline => .outlined outline
    | .error reason => .failed (.parseFailure file.relPath reason)

end SourceFile

end CallAtlas
