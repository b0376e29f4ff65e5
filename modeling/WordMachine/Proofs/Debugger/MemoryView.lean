import WordMachine.Debugger.Basic
import WordMachine.Memory.Lemmas

/-!
# Proofs/Debugger/MemoryView — the memory view shows every cell once

Rows are cut from memory eight words at a time until the cells run out, so one after the other they
show the stored words in order (`flatMap_rowsFrom`), and there are as many as the memory fills
(`rowsFrom_eq`).  Scrolling stops at the first and the last of them (`memoryRow_scroll_lt`) and gets
to each in one go (`exists_scroll`).

Main statement: `memoryRows_of_scrolled`.
-/

namespace WordMachine

namespace Memory

variable {ω : Type}

/-- The stored words in order. -/
def words (m : Memory ω) : List Word := m.cells.toList

theorem length_words (m : Memory ω) : m.words.length = m.capacity := rfl

theorem getElem?_words (m : Memory ω) (addr : Nat) : m.words[addr]? = m.cell? addr :=
  Array.getElem?_toList

private theorem filterMap_cell? (m : Memory ω) (start count : Nat) :
    (List.range' start count).filterMap m.cell? = (m.words.drop start).take count := by
  induction count generalizing start with
  | zero => rfl
  | succ count ih =>
    rw [List.range'_succ, List.filterMap_cons, ih, ← getElem?_words]
    by_cases h : start < m.words.length
    · rw [List.getElem?_eq_getElem h, List.drop_eq_getElem_cons h, List.take_succ_cons]
    · have hle : m.words.length ≤ start := Nat.le_of_not_lt h
      rw [List.getElem?_eq_none hle, List.drop_eq_nil_of_le hle,
        List.drop_eq_nil_of_le (Nat.le_succ_of_le hle), List.take_nil, List.take_nil]

/-- **A dump shows the stored words**, as many as are asked for and there are. -/
theorem map_dump (m : Memory ω) (start count : Nat) :
    (m.dump start count).map (·.2) = (m.words.drop start).take count := by
  have hword : ∀ addr, ((m.cell? addr).map fun w => (addr, w)).map (·.2) = m.cell? addr := by
    intro addr
    rw [Option.map_map]
    exact Option.map_id'
  rw [dump, List.map_filterMap]
  simp only [hword]
  rw [filterMap_cell?, ← length_words, ← List.length_drop]
  exact (List.take_eq_take_min).symm

end Memory

namespace Debugger

variable {ω : Type} {d : Debugger}

/-! ## Rows -/

/-- The rows that the memory fills are those with a cell. -/
theorem lt_rowCount_iff {row : Nat} :
    row < d.rowCount ↔ row * wordsPerRow < d.computer.mem.capacity := by
  simp only [rowCount, wordsPerRow]
  omega

/-- **The rows show the stored words in order**, one after the other. -/
theorem flatMap_rowsFrom (m : Memory ω) (count row : Nat) :
    (rowsFrom m count row).flatMap (·.2) =
      (m.words.drop (row * wordsPerRow)).take (count * wordsPerRow) := by
  induction count generalizing row with
  | zero => rw [Nat.zero_mul, List.take_zero, rowsFrom, List.flatMap_nil]
  | succ count ih =>
    rw [rowsFrom]
    split
    · rw [List.flatMap_cons, ih, Memory.map_dump, Nat.succ_mul, Nat.succ_mul, ← List.drop_drop,
        Nat.add_comm (count * wordsPerRow), List.take_add]
    · next hend =>
      have hnil : m.words.drop (row * wordsPerRow) = [] :=
        List.drop_eq_nil_of_le (Nat.le_of_not_lt hend)
      rw [hnil, List.take_nil, List.flatMap_nil]

/-- **There are as many rows as are asked for and the memory fills**, each with the eight words at
its address, or with those that are left. -/
theorem rowsFrom_eq (d : Debugger) (count row : Nat) :
    rowsFrom d.computer.mem count row =
      (List.range' row (min count (d.rowCount - row))).map fun row =>
        (row * wordsPerRow, (d.computer.mem.words.drop (row * wordsPerRow)).take wordsPerRow) := by
  induction count generalizing row with
  | zero => rw [Nat.zero_min, List.range'_zero, List.map_nil, rowsFrom]
  | succ count ih =>
    rw [rowsFrom, Memory.map_dump]
    split
    · next hcell =>
      have hlt : row < d.rowCount := lt_rowCount_iff.mpr hcell
      have hmore : min (count + 1) (d.rowCount - row) =
          min count (d.rowCount - (row + 1)) + 1 := by omega
      rw [hmore, List.range'_succ, List.map_cons, ih]
    · next hend =>
      have hle : d.rowCount - row = 0 := Nat.sub_eq_zero_of_le
        (Nat.le_of_not_lt fun hlt => hend (lt_rowCount_iff.mp hlt))
      rw [hle, Nat.min_zero, List.range'_zero, List.map_nil]

/-! ## Scrolling -/

/-- Where there are cells, **scrolling leads to a row that there is**… -/
theorem memoryRow_scroll_lt (hcells : 0 < d.computer.mem.capacity) (delta : Int) :
    (d.scroll delta).memoryRow < d.rowCount := by
  have hrows : 0 < d.rowCount := lt_rowCount_iff.mpr (by omega)
  change min _ (d.rowCount - 1) < d.rowCount
  omega

/-- …and to any of them from any other. -/
theorem exists_scroll {row : Nat} (hview : d.memoryRow < d.rowCount) (hrow : row < d.rowCount) :
    ∃ delta : Int, delta.natAbs < d.rowCount ∧ (d.scroll delta).memoryRow = row := by
  refine ⟨(row : Int) - d.memoryRow, by omega, ?_⟩
  change min ((d.memoryRow : Int) + _).toNat (d.rowCount - 1) = row
  omega

/-- The debugger after its memory view was scrolled some times. -/
def scrollAll (d : Debugger) (deltas : List Int) : Debugger := deltas.foldl scroll d

theorem computer_scrollAll (d : Debugger) (deltas : List Int) :
    (d.scrollAll deltas).computer = d.computer := by
  induction deltas generalizing d with
  | nil => rfl
  | cons delta deltas ih => exact ih (d.scroll delta)

theorem rowCount_scrollAll (d : Debugger) (deltas : List Int) :
    (d.scrollAll deltas).rowCount = d.rowCount := by
  rw [rowCount, computer_scrollAll, rowCount]

/-- **Scrolling never leaves the rows there are.** -/
theorem memoryRow_scrollAll_lt (hview : d.memoryRow < d.rowCount) (deltas : List Int) :
    (d.scrollAll deltas).memoryRow < d.rowCount := by
  induction deltas generalizing d with
  | nil => exact hview
  | cons delta deltas ih =>
    have hcells : 0 < d.computer.mem.capacity :=
      Nat.lt_of_le_of_lt (Nat.zero_le _) (lt_rowCount_iff.mp hview)
    exact ih (memoryRow_scroll_lt hcells delta)

/-! ## The view -/

/-- **What the memory view shows, however it was scrolled.**  It starts at a row that there is, and
shows as many rows as are asked for and are left, each at the address eight words after the one
before.  All rows have eight words, but for the last row of the memory, which has those that are
left.  One after the other the words are the stored ones from the first row on, none left out and
none shown twice.  And there is no row that cannot be scrolled to. -/
theorem memoryRows_of_scrolled (hcells : 0 < d.computer.mem.capacity) {deltas : List Int}
    (hview : d.memoryRow = 0 ∨ deltas ≠ []) (count : Nat) :
    (d.scrollAll deltas).memoryRow ≤ d.rowCount - 1 ∧
      (0 < count → (d.scrollAll deltas).memoryRows count ≠ []) ∧
      ((d.scrollAll deltas).memoryRows count).length =
        min count (d.rowCount - (d.scrollAll deltas).memoryRow) ∧
      (∀ i line, ((d.scrollAll deltas).memoryRows count)[i]? = some line →
        line.1 = 8 * ((d.scrollAll deltas).memoryRow + i) ∧
          line.2.length = if (d.scrollAll deltas).memoryRow + i = d.rowCount - 1 then
            d.computer.mem.capacity - line.1 else 8) ∧
      ((d.scrollAll deltas).memoryRows count).flatMap (·.2) =
        (d.computer.mem.words.drop (8 * (d.scrollAll deltas).memoryRow)).take (8 * count) ∧
      ∀ row < d.rowCount, ∃ delta : Int, delta.natAbs < d.rowCount ∧
        ((d.scrollAll deltas).scroll delta).memoryRow = row := by
  have hstart : (d.scrollAll deltas).memoryRow < d.rowCount := by
    cases deltas with
    | nil =>
      have hzero : d.memoryRow = 0 := hview.resolve_right fun hne => hne rfl
      change d.memoryRow < d.rowCount
      rw [hzero, lt_rowCount_iff, Nat.zero_mul]
      exact hcells
    | cons delta deltas => exact memoryRow_scrollAll_lt (memoryRow_scroll_lt hcells delta) deltas
  have hcomputer := computer_scrollAll d deltas
  have hrowCount := rowCount_scrollAll d deltas
  have hrows := rowsFrom_eq (d.scrollAll deltas) count (d.scrollAll deltas).memoryRow
  have hwords := flatMap_rowsFrom d.computer.mem count (d.scrollAll deltas).memoryRow
  have hreach : ∀ {row}, row < d.rowCount → ∃ delta : Int, delta.natAbs < d.rowCount ∧
      ((d.scrollAll deltas).scroll delta).memoryRow = row := by
    intro row hrow
    have hexists := @exists_scroll (d.scrollAll deltas) row
    rw [hrowCount] at hexists
    exact hexists hstart hrow
  rw [hcomputer, hrowCount] at hrows
  simp only [memoryRows, hcomputer]
  generalize (d.scrollAll deltas).memoryRow = start at *
  have hlength : (rowsFrom d.computer.mem count start).length = min count (d.rowCount - start) := by
    rw [hrows, List.length_map, List.length_range']
  refine ⟨by omega, fun hcount hnil => ?nonempty, hlength, fun i line hline => ?line, ?words,
    fun row hrow => hreach hrow⟩
  case nonempty =>
    rw [hnil, List.length_nil] at hlength
    omega
  case line =>
    have hi : i < min count (d.rowCount - start) := hlength ▸ (List.getElem?_eq_some_iff.mp hline).1
    rw [hrows, List.getElem?_map, List.getElem?_range' hi, Option.map_some,
      Option.some.injEq] at hline
    subst hline
    have hcell := @lt_rowCount_iff d (start + 1 * i)
    have hnext := @lt_rowCount_iff d (start + 1 * i + 1)
    simp only [List.length_take, List.length_drop, Memory.length_words,
      wordsPerRow] at hcell hnext ⊢
    refine ⟨by omega, ?_⟩
    split <;> omega
  case words =>
    rw [hwords, wordsPerRow, Nat.mul_comm start, Nat.mul_comm count]

/-- A debugger on twenty cells, of which the last four hold their own addresses. -/
def twenty : Debugger where
  computer :=
    { board := .ofMemory ((Memory.ofCapacity 20).storeAll 16 [16, 17, 18, 19]) {}, config := {} }
  program := []

/-- Down as far as a delta can say and up by one, the view shows the second row and the rest. -/
theorem memoryRows_of_scrolled_twenty :
    0 < twenty.computer.mem.capacity ∧
      ((twenty.scrollAll [0x7FFFFFFFFFFFFFFF, -1]).memoryRows 5).length = 2 ∧
      ((twenty.scrollAll [0x7FFFFFFFFFFFFFFF, -1]).memoryRows 5).flatMap (·.2) =
        [0, 0, 0, 0, 0, 0, 0, 0, 16, 17, 18, 19] := by
  have hcells : 0 < twenty.computer.mem.capacity := by decide
  have hview : twenty.memoryRow = 0 ∨ [0x7FFFFFFFFFFFFFFF, (-1 : Int)] ≠ [] := .inl rfl
  obtain ⟨-, -, hlength, -, hwords, -⟩ := memoryRows_of_scrolled hcells hview 5
  exact ⟨hcells, hlength.trans (by decide +kernel), hwords.trans (by decide +kernel)⟩

end Debugger

end WordMachine
