import WordMachine.CommandLine.Host
import WordMachine.CommandLine.Trail

/-!
# CommandLine/Desk — a host that is a plain value

A `Desk` holds the files of a tree of directories and the text printed so far. Commands on a desk
are functions that theorems can speak about. A directory is there if a file is inside it. A path is
walked step by step, and each step needs a directory to start from, also one that stays: so a slash
at the end of a path asks for a directory.
-/

namespace WordMachine

/-- What is at a place. -/
inductive Place where
  | directory
  | file (contents : Text)
  /-- A file that is empty whatever is written to it. -/
  | sink
  deriving DecidableEq, Repr

/-- Files, and what has been printed. -/
structure Desk where
  files : List (Trail × Text) := []
  output : String := ""
  errors : String := ""

namespace Desk

/-- A desk with these files at their paths. -/
def ofFiles (files : List (String × Text)) : Desk where
  files := files.map fun (path, contents) => (Trail.ofPath path.toList, contents)

/-- The places that are there on every desk. -/
def fixtures : List (Trail × Place) := [
  (Trail.ofPath "/dev/null".toList, .sink), (Trail.ofPath "/tmp".toList, .directory)]

/-- Whether something is inside a place. -/
def isOccupied (desk : Desk) (t : Trail) : Bool :=
  desk.files.any (·.1.isInside t) || fixtures.any (·.1.isInside t)

/-- What is at a place, if anything is. -/
def place? (desk : Desk) (t : Trail) : Option Place :=
  match desk.files.lookup t with
  | some contents => some (.file contents)
  | none =>
    match fixtures.lookup t with
    | some place => some place
    | none => if t.names.isEmpty || desk.isOccupied t then some .directory else none

/-- Demand a directory. -/
def checkDirectory (desk : Desk) (t : Trail) : Except FileError Unit :=
  match desk.place? t with
  | some .directory => .ok ()
  | some _ => .error .notDirectory
  | none => .error .notFound

/-- Most bytes in a name. -/
def longestName : Nat := 255

/-- Most bytes in a path. -/
def longestPath : Nat := 4095

/-- Take one step from a directory. -/
def walkStep (desk : Desk) (t : Trail) (step : Text) : Except FileError Trail := do
  desk.checkDirectory t
  if longestName < Text.utf8Size step then throw .nameTooLong
  return t.follow step

/-- Refuse a path that is empty or too long. -/
def checkPath (path : Text) : Except FileError Unit :=
  if path.isEmpty then .error .notFound
  else if longestPath < Text.utf8Size path then .error .nameTooLong
  else .ok ()

/-- The place that a path leads to when it is walked. -/
def walk (desk : Desk) (path : Text) : Except FileError Trail := do
  checkPath path
  (Trail.steps path).foldlM desk.walkStep (Trail.start path)

/-- The contents of a file. -/
def read (desk : Desk) (path : String) : Except FileError Text := do
  match desk.place? (← desk.walk path.toList) with
  | some (.file contents) => return contents
  | some .sink => return []
  | some .directory => throw .isDirectory
  | none => throw .notFound

/-- The place where a path puts a file: its last step must be a name, in a directory. -/
def target (desk : Desk) (path : Text) : Except FileError Trail := do
  checkPath path
  match (Trail.steps path).reverse.dropWhile List.isEmpty with
  | [] => throw .isDirectory
  | last :: before =>
    let parent ← before.reverse.foldlM desk.walkStep (Trail.start path)
    desk.checkDirectory parent
    if Trail.stays last || Trail.rises last || path.getLast? = some '/' then throw .isDirectory
    desk.walkStep parent last

/-- The desk with a file at a place. -/
def put (desk : Desk) (t : Trail) (contents : Text) : Desk :=
  if (desk.files.lookup t).isSome then
    { desk with files := desk.files.map fun file => if file.1 = t then (t, contents) else file }
  else { desk with files := desk.files ++ [(t, contents)] }

/-- The desk after a file was written. -/
def write (desk : Desk) (path : String) (contents : Text) : Except FileError Desk := do
  let t ← desk.target path.toList
  match desk.place? t with
  | some .directory => throw .isDirectory
  | some .sink => return desk
  | _ => return desk.put t contents

instance : Host (StateM Desk) where
  readFile path := fun desk => (desk.read path, desk)
  writeFile path contents := fun desk =>
    match desk.write path contents with
    | .ok desk => (.ok (), desk)
    | .error e => (.error e, desk)
  print line := modify fun desk => { desk with output := desk.output ++ line ++ "\n" }
  complain line := modify fun desk => { desk with errors := desk.errors ++ line ++ "\n" }

end Desk

end WordMachine
