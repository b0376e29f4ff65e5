import WordMachine.Text.Basic

/-!
# CommandLine/Host — files and the two output streams

A `Host` is what a command needs of its surroundings: it reads and writes files by their paths, and
prints lines on two streams. `FileError` holds the causes for which a file is not read or written.
-/

namespace WordMachine

/-- Why a file is not read or not written. -/
inductive FileError where
  | notFound
  /-- A path goes on below something that is no directory. -/
  | notDirectory
  | isDirectory
  | nameTooLong
  | other (reason : String)
  deriving DecidableEq, Repr

/-- The reason in the system's words. -/
def FileError.message : FileError → String
  | .notFound => "No such file or directory (os error 2)"
  | .notDirectory => "Not a directory (os error 20)"
  | .isDirectory => "Is a directory (os error 21)"
  | .nameTooLong => "File name too long (os error 36)"
  | .other reason => reason

/-- The surroundings of a command. -/
class Host (m : Type → Type) where
  readFile : (path : String) → m (Except FileError Text)
  /-- Make a file with these contents, or replace those it has. -/
  writeFile : (path : String) → Text → m (Except FileError Unit)
  /-- Print a line on the standard output. -/
  print : String → m Unit
  /-- Print a line on the error output. -/
  complain : String → m Unit

end WordMachine
