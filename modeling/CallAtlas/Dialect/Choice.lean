import CallAtlas.Dialect.Go
import CallAtlas.Dialect.Java
import CallAtlas.Dialect.Python
import CallAtlas.Dialect.Rust
import CallAtlas.Dialect.Script
import CallAtlas.Language

/-!
# The dialect of a language
-/

namespace CallAtlas

/-- The dialect in which a language is read. -/
def Language.dialect : Language → Dialect
  | java => Dialect.java
  | python => Dialect.python
  | rust => Dialect.rust
  | go => Dialect.go
  | typescript | javascript => Dialect.script

end CallAtlas
