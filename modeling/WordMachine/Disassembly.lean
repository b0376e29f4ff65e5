import WordMachine.Instruction.Basic
import WordMachine.Memory.Basic

/-!
# Disassembly — words shown as instructions

A row of words is cut into items: an instruction with the words its operands take, or, where there
is no instruction or the row ends inside one, a single word as data. `ofWords` is the first item,
`items` all of them in order, and `listing` shows them with their addresses and words.
-/

namespace WordMachine

namespace Disassembly

/-- The next extra word, and those after it. A missing word is read as 0. -/
def takeExtra : List Word → Word × List Word
  | [] => (0, [])
  | w :: rest => (w, rest)

/-- A word as `0x` and four digits. -/
def wordText (w : Word) : Text := Numeral.hexMarked 4 w.toNat

/-- An operand in text, and the extra words that it leaves. The stack is pushed as destination and
popped as source. -/
def operandText (isDestination : Bool) (o : Operand) (extra : List Word) : Text × List Word :=
  match o with
  | .register r => ([r.letter], extra)
  | .indirect r => (['[', r.letter, ']'], extra)
  | .indirectOffset r =>
    match takeExtra extra with
    | (w, rest) => (['[', r.letter, ' ', '+', ' '] ++ wordText w ++ [']'], rest)
  | .stack => (if isDestination then ['P', 'U', 'S', 'H'] else ['P', 'O', 'P'], extra)
  | .peek => (['P', 'E', 'E', 'K'], extra)
  | .pick =>
    match takeExtra extra with
    | (w, rest) => (['[', 'S', 'P', ' ', '+', ' '] ++ wordText w ++ [']'], rest)
  | .sp => (['S', 'P'], extra)
  | .pc => (['P', 'C'], extra)
  | .ex => (['E', 'X'], extra)
  | .indirectNext =>
    match takeExtra extra with
    | (w, rest) => ('[' :: wordText w ++ [']'], rest)
  | .nextLiteral =>
    match takeExtra extra with
    | (w, rest) => (wordText w, rest)
  | .inline v => (Nat.toDigits 10 v, extra)

/-- An instruction with its extra words. A NOP of register A alone, which is the word 0, shows no
operands. -/
def instructionText (i : Instruction) (extra : List Word) : Text :=
  if i = ⟨.nop, .register .a, .register .a⟩ then i.opcode.mnemonic
  else
    match operandText true i.a extra with
    | (a, extra) =>
      match operandText false i.b extra with
      | (b, _) => i.opcode.mnemonic ++ [' '] ++ a ++ [',', ' '] ++ b

/-- A word as data. -/
def dataText (w : Word) : Text := ['D', 'A', 'T', ' '] ++ wordText w

/-- The first item of a row of words, and how many words it takes. No words give no text. -/
def ofWords : List Word → Text × Nat
  | [] => ([], 0)
  | w :: rest =>
    match Instruction.decode w with
    | .ok i =>
      -- Only so many words are counted, since the row may be long.
      if ((w :: rest).take i.size).length = i.size then (instructionText i rest, i.size)
      else (dataText w, 1)
    | .error _ => (dataText w, 1)

/-- An item of a row of words. -/
structure Item where
  /-- How many words stand before it. -/
  addr : Nat
  text : Text
  words : List Word
  deriving DecidableEq, Repr

theorem ofWords_cons_snd_pos (w : Word) (rest : List Word) : 0 < (ofWords (w :: rest)).2 := by
  simp only [ofWords]
  split
  · split
    · simp only [Instruction.size]
      omega
    · exact Nat.one_pos
  · exact Nat.one_pos

/-- The items of `words`, which stand after `addr` others, put behind `before` in reverse. -/
def itemsAfter (before : List Item) (addr : Nat) : List Word → List Item
  | [] => before.reverse
  | w :: rest =>
    let first := ofWords (w :: rest)
    itemsAfter (⟨addr, first.1, (w :: rest).take first.2⟩ :: before) (addr + first.2)
      ((w :: rest).drop first.2)
  termination_by words => words.length
  decreasing_by
    have := ofWords_cons_snd_pos w rest
    simp only [List.length_drop, List.length_cons]
    omega

/-- All items of a row of words in order. -/
def items (words : List Word) : List Item := itemsAfter [] 0 words

/-- A text filled with blanks on the right. -/
def padRight (width : Nat) (t : Text) : Text := t ++ List.replicate (width - t.length) ' '

/-- An item's address, text and words. -/
def Item.line (item : Item) : Text :=
  let words := [' '].intercalate (item.words.map Numeral.hex4)
  Numeral.hexPadded 4 item.addr ++ [':', ' '] ++ padRight 24 item.text ++ [' ', ';', ' '] ++ words

/-- One line for each item, each with a line end. -/
def listing (words : List Word) : Text := (items words).flatMap fun item => item.line ++ ['\n']

/-- The stored words from `addr` on, at most `count` of them and up to the first address without a
cell, where the address after 65535 is 0. -/
def cellsFrom {ω : Type} (m : Memory ω) : (count : Nat) → (addr : Word) → List Word
  | 0, _ => []
  | count + 1, addr =>
    match m.cell? addr.toNat with
    | none => []
    | some w => w :: cellsFrom m count (addr + 1)

/-- The items that start at `addr` in a memory, at most `count` of them, put behind `before` in
reverse. They end before an address without a cell. -/
def ofMemoryAfter {ω : Type} (m : Memory ω) (before : List (Word × Text)) :
    (count : Nat) → (addr : Word) → List (Word × Text)
  | 0, _ => before.reverse
  | count + 1, addr =>
    match cellsFrom m 3 addr with
    | [] => before.reverse
    | words =>
      match ofWords words with
      | (text, size) =>
        ofMemoryAfter m ((addr, text) :: before) count (addr + UInt16.ofNat size)

/-- The items that start at `addr` in a memory, at most `count` of them. -/
def ofMemory {ω : Type} (m : Memory ω) (addr : Word) (count : Nat) : List (Word × Text) :=
  ofMemoryAfter m [] count addr

end Disassembly

end WordMachine
