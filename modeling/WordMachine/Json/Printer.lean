import WordMachine.Text.Numeral

/-!
# Json/Printer — JSON values and their indented text

Members stand on lines of their own, indented by two blanks a level, in the order they are given.

The machine leaves the printing of JSON to a third-party library that is no part of its source. The
layout and the escapes follow the behaviour of that library.
-/

namespace WordMachine

/-- A JSON value, as far as the machine writes any. -/
inductive Json where
  | null
  | natural (n : Nat)
  | string (t : Text)
  | array (items : List Json)
  | object (members : List (Text × Json))

namespace Json

/-- A character as it stands inside quotes. -/
def escape (c : Char) : Text :=
  match c with
  | '"' => ['\\', '"']
  | '\\' => ['\\', '\\']
  | '\n' => ['\\', 'n']
  | '\r' => ['\\', 'r']
  | '\t' => ['\\', 't']
  | '\x08' => ['\\', 'b']
  | '\x0c' => ['\\', 'f']
  | c => if c.toNat < 0x20 then ['\\', 'u'] ++ Numeral.hexPadded 4 c.toNat else [c]

/-- A text in quotes. -/
def quoted (t : Text) : Text := '"' :: t.flatMap escape ++ ['"']

/-- A line end and the blanks of a level. -/
def newLine (level : Nat) : Text := '\n' :: List.replicate (2 * level) ' '

/-- Members between an opening and a closing character, each on a line of the next level. -/
def block (opening closing : Char) (level : Nat) (members : List Text) : Text :=
  if members.isEmpty then [opening, closing]
  else
    let lines := members.map fun member => newLine (level + 1) ++ member
    opening :: ([','].intercalate lines ++ newLine level ++ [closing])

mutual

/-- The text of a value that stands on a level. -/
def prettyAt (level : Nat) : Json → Text
  | null => ['n', 'u', 'l', 'l']
  | natural n => Nat.toDigits 10 n
  | string t => quoted t
  | array items => block '[' ']' level (prettyItems (level + 1) items)
  | object members => block '\x7b' '\x7d' level (prettyMembers (level + 1) members)

/-- The texts of the items of an array. -/
def prettyItems (level : Nat) : List Json → List Text
  | [] => []
  | item :: items => prettyAt level item :: prettyItems level items

/-- The texts of the members of an object. -/
def prettyMembers (level : Nat) : List (Text × Json) → List Text
  | [] => []
  | (key, value) :: members =>
    (quoted key ++ [':', ' '] ++ prettyAt level value) :: prettyMembers level members

end

/-- The text of a value by itself. -/
def pretty (value : Json) : Text := prettyAt 0 value

end Json

end WordMachine
