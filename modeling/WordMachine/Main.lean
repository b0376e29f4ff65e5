import WordMachine.CommandLine.Basic

/-!
# Main — the command line on real files
-/

namespace WordMachine

/-- The cause of a failed file access, whose code may come with its sign turned. -/
def fileError : IO.Error → FileError
  | .noFileOrDirectory .. => .notFound
  | .inappropriateType _ code _ => if code = 21 ∨ -code = 21 then .isDirectory else .notDirectory
  | e@(.invalidArgument _ code _) =>
    if code = 36 ∨ -code = 36 then .nameTooLong else .other (toString e)
  | e => .other (toString e)

instance : Host IO where
  readFile path := do
    try
      return .ok (← IO.FS.readFile path).toList
    catch e =>
      return .error (fileError e)
  writeFile path contents := do
    try
      IO.FS.writeFile path (String.ofList contents)
      return .ok ()
    catch e =>
      return .error (fileError e)
  print line := IO.println line
  complain line := IO.eprintln line

end WordMachine

def main (words : List String) : IO UInt32 := do
  let code : UInt8 ← WordMachine.CommandLine.performWords words
  return code.toUInt32
