import CallAtlas.Syntax.Tree

/-!
# File trees

A file tree is a file, a symbolic link or a directory of named trees. Names are bytes, and those of
one directory are meant to be distinct; a look-up takes the first. Looking up follows names only
and never a link, so what it reaches is reached through real directories. A directory may be locked,
and then nothing below it is reached.

Parsers are outside this library. A file comes with the syntax tree that a parser made of its bytes,
or with none if the parser gave up.
-/

namespace CallAtlas

/-- The content of a file. -/
structure Content where
  bytes : Bytes
  /-- What a parser made of the bytes, if it made anything. -/
  syntaxTree : Option SyntaxTree := none

/-- What may stand under a name. -/
inductive FileTree where
  | file (content : Content)
  | link (target : Bytes)
  | dir (entries : List (Bytes × FileTree))
  /-- A directory that may not be opened. -/
  | locked

namespace FileTree

/-- Whether a tree is a file. -/
def isFile : FileTree → Bool
  | file _ => true
  | _ => false

/-- Whether a tree is a directory that may not be opened. -/
def isLocked : FileTree → Bool
  | locked => true
  | _ => false

/-- What stands at a sequence of names. -/
def get? (tree : FileTree) : List Bytes → Option FileTree
  | [] => some tree
  | name :: rest =>
    match tree with
    | dir entries => (entries.lookup name).bind fun entry => entry.get? rest
    | _ => none

/-- Entries of a directory with a tree under a name, in place of what stood there. -/
def setEntry (name : Bytes) (tree : FileTree) : List (Bytes × FileTree) → List (Bytes × FileTree)
  | [] => [(name, tree)]
  | entry :: rest =>
    if entry.1 = name then (name, tree) :: rest else entry :: setEntry name tree rest

/-- A tree with another one at a sequence of names. Directories on the way are made as needed, and
nothing changes when something else than a directory is in the way. -/
def put (tree new : FileTree) : List Bytes → FileTree
  | [] => new
  | name :: rest =>
    match tree with
    | dir entries =>
      dir (setEntry name (((entries.lookup name).getD (dir [])).put new rest) entries)
    | _ => tree

/-- A tree without what stands at a sequence of names. -/
def erase (tree : FileTree) : List Bytes → FileTree
  | [] => tree
  | name :: rest =>
    match tree with
    | dir entries =>
      match rest, entries.lookup name with
      | [], _ => dir (entries.filter (·.1 ≠ name))
      | _, some entry => dir (setEntry name (entry.erase rest) entries)
      | _, none => tree
    | _ => tree

mutual

/-- The wanted trees, other than open directories, that a walk meets: it goes through open
directories and through admitted names only. Each is given by the names that lead to it, after those
of `above`. -/
def find (wanted : FileTree → Bool) (admits : Bytes → Bool) (above : List Bytes) :
    FileTree → List (List Bytes)
  | dir entries => findAmong wanted admits above entries
  | tree => if wanted tree then [above] else []

/-- The wanted trees below the entries of a directory. -/
def findAmong (wanted : FileTree → Bool) (admits : Bytes → Bool) (above : List Bytes) :
    List (Bytes × FileTree) → List (List Bytes)
  | [] => []
  | (name, tree) :: rest =>
    (if admits name then find wanted admits (above ++ [name]) tree else [])
      ++ findAmong wanted admits above rest

end

end FileTree

end CallAtlas
