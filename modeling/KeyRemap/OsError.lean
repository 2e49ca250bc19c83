/-!
# Faults of the file system
-/

namespace KeyRemap

/-- Why a file could not be read or written. -/
inductive OsError where
  | notFound
  | fileExists
  | notADirectory
  | isADirectory
  /-- The file is no text. -/
  | invalidText
  /-- Any other fault, in the words of the system. -/
  | other (text : String)
  deriving DecidableEq, Repr

def OsError.message : OsError → String
  | notFound => "No such file or directory (os error 2)"
  | fileExists => "File exists (os error 17)"
  | notADirectory => "Not a directory (os error 20)"
  | isADirectory => "Is a directory (os error 21)"
  | invalidText => "stream did not contain valid UTF-8"
  | other text => text

end KeyRemap
