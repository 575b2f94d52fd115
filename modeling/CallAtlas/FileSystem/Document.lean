import CallAtlas.FileSystem
import CallAtlas.Json.Reader
import CallAtlas.Syntax.Row

/-!
# File systems laid out as documents

Source files travel together with their syntax trees, since parsers are outside this library. A
document lists the entries of a file system in the order in which they are made. An entry has a
path and is a directory, a symbolic link with its target, or a file with its content, which is
given as text or, in hexadecimal digits, as bytes. A file without a tree is handed to a parser, which
whoever reads the document has to bring along.
-/

namespace CallAtlas

/-- The bytes that pairs of hexadecimal digits write. -/
def Bytes.ofHex? : List Char → Option Bytes
  | [] => some []
  | [_] => none
  | high :: low :: rest => do
    let byte := UInt8.ofNat (16 * (← Json.hexValue? high) + (← Json.hexValue? low))
    return byte :: (← ofHex? rest)

namespace Json

/-- Bytes that an object gives as text in one field, or in hexadecimal digits in another. -/
def bytes? (json : Json) (textField hexField : String) : Option Bytes :=
  match json.field? textField, json.field? hexField with
  | some (.str text), _ => some (Text.Utf8.encode text)
  | _, some (.str digits) => Bytes.ofHex? digits.toList
  | _, _ => none

/-- The path of an entry. -/
def entryPath? (entry : Json) : Option Bytes := entry.bytes? "path" "path_hex"

/-- The content of an entry that is a file. -/
def entryContent? (parse? : Bytes → Option SyntaxTree) (entry : Json) : Option Content := do
  let bytes ← entry.bytes? "text" "hex"
  match entry.field? "tree" with
  | none | some .null => return { bytes, syntaxTree := parse? bytes }
  | some rows => return { bytes, syntaxTree := some (← SyntaxTree.ofJson? rows) }

end Json

namespace FileSystem

/-- A file system with one more entry, which replaces the file that stands at its path. -/
def put? (parse? : Bytes → Option SyntaxTree) (fs : FileSystem) (entry : Json) :
    Option FileSystem := do
  let path ← entry.entryPath?
  match entry.field? "dir", entry.field? "link" with
  | some (.bool true), _ => (fs.makeDirs (path :: Path.directories path)).toOption
  | _, some (.str target) => (fs.place path (.link (Text.Utf8.encode target))).toOption
  | _, _ => (fs.writeMaking path (← entry.entryContent? parse?)).toOption

/-- An empty directory with a name, as the directory one is in. -/
def inNewDir (name : String) : FileSystem :=
  let here := [Text.Utf8.encode name]
  ⟨(FileTree.dir []).put (.dir []) here, here⟩

/-- The file system with the entries of a list, in a directory with a name. -/
def ofEntries? (parse? : Bytes → Option SyntaxTree) (name : String) (entries : List Json) :
    Option FileSystem :=
  entries.foldlM (put? parse?) (inNewDir name)

end FileSystem

end CallAtlas
