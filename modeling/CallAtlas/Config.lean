/-!
# The configuration of a run

All that a run needs beside the file tree. Only the root has no default.
-/

namespace CallAtlas

/-- What to analyse and how. -/
structure Config where
  /-- The directory whose files are scanned. -/
  root : String
  /-- The tag of the language. -/
  language : String := "java"
  /-- How strongly small clusters are preferred, at the start of the search. -/
  resolution : Float := 1.0
  /-- The size above which a cluster is divided; zero counts as one. -/
  maxClusterSize : Nat := 50
  /-- Names of files and directories that are passed over. -/
  excludePatterns : List String := []
  /-- The number of bytes above which a file is not read. -/
  maxFileSize : Nat := 1000000
  /-- Whether declarations are read off a tree with errors too. -/
  tolerateSyntaxErrors : Bool := false
  /-- Whether timings and warnings are printed. -/
  verbose : Bool := false
  /-- Whether nothing is printed. -/
  quiet : Bool := false

end CallAtlas
