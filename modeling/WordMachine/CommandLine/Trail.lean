import WordMachine.Text.Basic

/-!
# CommandLine/Trail — where the path of a file leads

A path is a row of steps with slashes between them. An empty step and `.` stay where they are, `..`
goes up, and any other step goes down to what has its name. `Trail.ofPath` is where all steps lead,
whether or not something is there: `a/../b`, `./b` and `b/` have one trail.
-/

namespace WordMachine

/-- Where a trail starts. -/
inductive Anchor where
  | root
  /-- The directory so many levels above the one that paths are relative to. -/
  | above (levels : Nat)
  deriving DecidableEq, Repr

/-- The directory above an anchor. The root is above itself. -/
def Anchor.up : Anchor → Anchor
  | .root => .root
  | .above levels => .above (levels + 1)

/-- A place in a tree of directories: the names below an anchor, the innermost first. -/
structure Trail where
  anchor : Anchor
  names : List Text := []
  deriving DecidableEq, Repr

namespace Trail

/-- The directory that a place is in. -/
def up (t : Trail) : Trail :=
  match t.names with
  | [] => { t with anchor := t.anchor.up }
  | _ :: names => { t with names }

/-- The place of a name in a directory. -/
def down (name : Text) (t : Trail) : Trail := { t with names := name :: t.names }

@[simp] theorem up_down (name : Text) (t : Trail) : (t.down name).up = t := rfl

/-- Whether a step stays where it is. -/
def stays (step : Text) : Bool := step == [] || step == ['.']

/-- Whether a step goes up. -/
def rises (step : Text) : Bool := step == ['.', '.']

/-- The place that one step leads to. -/
def follow (t : Trail) (step : Text) : Trail :=
  if stays step then t else if rises step then t.up else t.down step

/-- The steps of a path. -/
def steps (path : Text) : List Text := path.splitOn '/'

/-- The place where a path starts. -/
def start (path : Text) : Trail :=
  if path.head? = some '/' then { anchor := .root } else { anchor := .above 0 }

/-- The place that a path leads to. -/
def ofPath (path : Text) : Trail := (steps path).foldl follow (start path)

/-- Whether a place is inside another one. -/
def isInside (inner outer : Trail) : Bool :=
  inner != outer && inner.anchor == outer.anchor && outer.names.isSuffixOf inner.names

end Trail

end WordMachine
