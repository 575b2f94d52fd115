/-!
# Errors and warnings

An error ends the operation that met it. A warning is recorded and the run goes on. Both are
causes; the words for each stand in one function, `message`.
-/

namespace CallAtlas

/-- Why the file tree refused an operation. -/
inductive FileError where
  /-- Nothing stands at the path. -/
  | notFound
  /-- Something stands where a new entry was to be made. -/
  | alreadyExists
  /-- A step of the path leads through something that is no directory. -/
  | notADirectory
  /-- A file was needed and the path leads to a directory. -/
  | isADirectory
  /-- A directory may not be opened. -/
  | accessDenied
  /-- The path leads through too many links. -/
  | tooManyLinks
  /-- The path, or a name on it, has too many bytes. -/
  | nameTooLong
  /-- The path has a zero byte, which no name can have. -/
  | zeroInPath
  /-- The content is not UTF-8 and text was asked for. -/
  | notText
  /-- Any other refusal, in its own words. -/
  | other (reason : String)
  deriving DecidableEq, Repr

namespace FileError

/-- The words of a refusal, with the number that the system gives it. -/
def message : FileError → String
  | notFound => "No such file or directory (os error 2)"
  | alreadyExists => "File exists (os error 17)"
  | notADirectory => "Not a directory (os error 20)"
  | isADirectory => "Is a directory (os error 21)"
  | accessDenied => "Permission denied (os error 13)"
  | tooManyLinks => "Too many levels of symbolic links (os error 40)"
  | nameTooLong => "File name too long (os error 36)"
  | zeroInPath => "file name contained an unexpected NUL byte"
  | notText => "stream did not contain valid UTF-8"
  | other reason => reason

end FileError

/-- Why an operation ended without its result. -/
inductive Error where
  /-- The root of a run is missing or no directory. -/
  | pathNotFound (path : String)
  /-- No language has this tag. -/
  | unsupportedLanguage (tag : String)
  /-- A run was asked for while another one is going. -/
  | alreadyProcessing
  /-- No function has this id. -/
  | nodeNotFound (id : String)
  /-- The session holds nothing that could answer. -/
  | invalidState (reason : String)
  /-- The run was called off. -/
  | cancelled
  /-- The file tree refused an operation. -/
  | io (cause : FileError)
  deriving DecidableEq, Repr

namespace Error

/-- The words for an error. -/
def message : Error → String
  | pathNotFound path => s!"path not found or not a directory: {path}"
  | unsupportedLanguage tag => s!"unsupported language: {tag}"
  | alreadyProcessing => "an analysis run is already in progress"
  | nodeNotFound id => s!"node not found: {id}"
  | invalidState reason => s!"invalid state: {reason}"
  | cancelled => "analysis cancelled"
  | io cause => cause.message

/-- Whether a run that ends with this error leaves its session in the error state. A refused
second run and a cancellation do not. -/
def isFatal : Error → Bool
  | alreadyProcessing | cancelled => false
  | _ => true

end Error

/-- What a run notes without ending. -/
inductive Warning where
  /-- A source file could not be read or parsed. -/
  | parseFailure (file reason : String)
  /-- A directory below the root of a run could not be opened. -/
  | skippedEntry (path reason : String)
  /-- A call reference names no function, or several of which none is preferred. -/
  | unresolvedReference (caller callee : String) (candidates : Nat)
  deriving DecidableEq, Repr

namespace Warning

/-- The words for a warning. -/
def message : Warning → String
  | parseFailure file reason => s!"parse failure in {file}: {reason}"
  | skippedEntry path reason => s!"skipped {path}: {reason}"
  | unresolvedReference caller callee 0 => s!"unresolved call to `{callee}` from {caller}"
  | unresolvedReference caller callee candidates =>
    s!"ambiguous call to `{callee}` from {caller} ({candidates} candidates)"

end Warning

end CallAtlas
