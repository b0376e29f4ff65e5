import WordMachine.Assembly.Line

/-!
# Assembly/Program — from a source text to words and labels

The lines are laid out first: each statement takes the addresses after the one before it, and a
label gets the address of what follows it. A label may be defined again; the last definition counts
and the first one keeps its place in the table. Then the words are written down, with every label
replaced by its address.
-/

namespace WordMachine

namespace Assembly

/-- Label addresses, in the order in which the labels were first defined. -/
abbrev LabelTable := List (Text × Word)

namespace LabelTable

/-- Give a label an address, in the place of any other. -/
def define (name : Text) (addr : Word) : LabelTable → LabelTable
  | [] => [(name, addr)]
  | entry :: rest =>
    if entry.1 = name then (name, addr) :: rest else entry :: define name addr rest

/-- The address of a label. -/
def address? (name : Text) (table : LabelTable) : Option Word :=
  (table.find? fun entry => entry.1 == name).map (·.2)

/-- **The last definition of a label counts.** -/
theorem address?_define (name other : Text) (addr : Word) (table : LabelTable) :
    (table.define name addr).address? other =
      if name = other then some addr else table.address? other := by
  induction table with
  | nil => by_cases h : name = other <;> simp [define, address?, h]
  | cons entry rest ih =>
    by_cases hentry : entry.1 = name
    · by_cases h : name = other <;> simp [define, address?, hentry, h]
    · rw [define, if_neg hentry]
      by_cases hother : entry.1 = other
      · have h : name ≠ other := fun h => hentry (hother.trans h.symm)
        simp [address?, hother, h]
      · simpa [address?, hother] using ih

/-- A label keeps the place of its first definition. -/
theorem names_define (name : Text) (addr : Word) (table : LabelTable) :
    (table.define name addr).map (·.1) =
      if name ∈ table.map (·.1) then table.map (·.1) else table.map (·.1) ++ [name] := by
  induction table with
  | nil => rfl
  | cons entry rest ih =>
    by_cases hentry : entry.1 = name
    · simp [define, hentry]
    · simp only [define, hentry, if_false, List.map_cons, ih, List.mem_cons, Ne.symm hentry,
        false_or]
      split <;> rfl

end LabelTable

/-- What is odd about a source text without being an error. -/
inductive Warning where
  | textAfterLabel
  deriving DecidableEq, Repr

def Warning.message : Warning → String
  | .textAfterLabel => "text after label definition ignored"

/-- The statements so far, where they are, and what was odd about them. -/
structure Layout where
  /-- The statements with their line numbers. -/
  statements : Array (Nat × Statement) := #[]
  /-- The number of words, which is the address of the next statement. -/
  size : Nat := 0
  labels : LabelTable := []
  warnings : Array Warning := #[]

namespace Layout

/-- Note what is odd about a statement. -/
def warn (layout : Layout) : Statement → Layout
  | .label _ (_ :: _) => { layout with warnings := layout.warnings.push .textAfterLabel }
  | _ => layout

/-- Define the label that a statement defines, if any; `none` if its address does not fit a word. -/
def define? (layout : Layout) : Statement → Option Layout
  | .label name _ =>
    if layout.size < Word.count then
      some { layout with labels := layout.labels.define name (UInt16.ofNat layout.size) }
    else none
  | _ => some layout

/-- Put a statement after the others. -/
def append (layout : Layout) (number : Nat) (s : Statement) : Layout :=
  { layout with
    statements := layout.statements.push (number, s)
    size := layout.size + s.size }

/-- Lay out numbered lines after the others, up to the first that cannot be. -/
def ofLines (layout : Layout) : List (Nat × Text) → Layout × Option Error
  | [] => (layout, none)
  | (number, line) :: rest =>
    match Statement.ofLine? line with
    | .error e => (layout, some (.onLine number e))
    | .ok none => ofLines layout rest
    | .ok (some s) =>
      let warned := layout.warn s
      match warned.define? s with
      | none => (warned, some (.onLine number (.valueOutOfRange warned.size)))
      | some defined => ofLines (defined.append number s) rest

end Layout

/-- Words to be loaded at address 0, and the addresses of the labels. -/
structure Program where
  words : List Word
  labels : LabelTable
  deriving DecidableEq, Repr

/-- The word that a value on a line stands for. -/
def resolve (labels : LabelTable) (number : Nat) : Value → Except Error Word
  | .number w => .ok w
  | .label name =>
    match labels.address? name with
    | some addr => .ok addr
    | none => .error (.onLine number (.undefinedLabel name))

/-- The program of a layout that took in all lines. -/
def Layout.link (layout : Layout) : Except Error Program := do
  if Word.count < layout.size then
    throw (.programTooLarge layout.size)
  let slots := layout.statements.toList.flatMap fun (number, s) => s.slots.map fun v => (number, v)
  let words ← slots.mapM fun (number, v) => resolve layout.labels number v
  return ⟨words, layout.labels⟩

/-- What assembling a source text gives. -/
structure Report where
  /-- The warnings for the lines up to the one with the error, if there is one. -/
  warnings : List Warning
  result : Except Error Program

/-- Assemble a source text. -/
def assemble (source : Text) : Report :=
  match Layout.ofLines {} source.numberedLines with
  | (layout, some e) => ⟨layout.warnings.toList, .error e⟩
  | (layout, none) => ⟨layout.warnings.toList, layout.link⟩

/-- Assemble a source text for its program alone. -/
def assemble? (source : Text) : Except Error Program := (assemble source).result

end Assembly

end WordMachine
