import CallAtlas.Text.Blank
import CallAtlas.Text.Segment

/-!
# Source languages

One run reads one language. A language is chosen by a tag, which is read without regard to case
or to blanks around it, and it decides which file extensions are scanned.
-/

namespace CallAtlas

/-- The languages whose declarations can be read. -/
inductive Language where
  | java
  | python
  | rust
  | go
  | typescript
  | javascript
  deriving DecidableEq, Repr

namespace Language

/-- Every language. -/
def all : List Language := [java, python, rust, go, typescript, javascript]

/-- The name under which a language is reported. -/
def name : Language → String
  | java => "java"
  | python => "python"
  | rust => "rust"
  | go => "go"
  | typescript => "typescript"
  | javascript => "javascript"

/-- The shorter tags that also choose a language. -/
def aliases : Language → List String
  | java => []
  | python => ["py"]
  | rust => ["rs"]
  | go => ["golang"]
  | typescript => ["ts"]
  | javascript => ["js"]

/-- The extensions, without the dot, of the files that hold a language. -/
def extensions : Language → List String
  | java => ["java"]
  | python => ["py"]
  | rust => ["rs"]
  | go => ["go"]
  | typescript => ["ts", "tsx"]
  | javascript => ["js", "jsx", "mjs", "cjs"]

/-- The language that a tag chooses: its name or an alias, in any case, between any blanks. -/
def ofTag? (tag : String) : Option Language :=
  let tag := String.ofList ((Text.trimBy Text.isBlank tag.toList).map Text.lowerAscii)
  all.find? fun language => language.name == tag || language.aliases.contains tag

end Language

end CallAtlas
