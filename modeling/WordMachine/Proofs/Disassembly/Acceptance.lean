import WordMachine.Proofs.Disassembly.RoundTrip

/-!
# Proofs/Disassembly/Acceptance — which shown items the assembler accepts

The text of an item is a source of one line, and such a source is a program just if its line is
accepted and names no label (`assemble?_of_ofLine?`, `assemble?_of_ofLine?_error`).  Every operand
that is shown is accepted, and so is every operation but one: a NOP is shown with its operands if
they are not register A both, and the assembler takes a NOP without any.

Main statement: `assemble?_ofWords`.
-/

namespace WordMachine

open Assembly

namespace Assembly

variable {line : Text}

/-! ## Sources of one line -/

theorem numberedLines_of_not_mem (h : '\n' ∉ line) : line.numberedLines = [(1, line)] := by
  rw [Text.numberedLines, List.splitOn_eq_singleton h]
  rfl

/-- **A line is a program** if it is accepted and its words are numbers… -/
theorem assemble?_of_ofLine? (hline : '\n' ∉ line) {s : Statement} {ws : List Word}
    (h : Statement.ofLine? line = .ok (some s)) (hname : s.name? = none)
    (hslots : s.slots = ws.map .number) (hsize : ws.length ≤ Word.count) :
    assemble? line = .ok ⟨ws, []⟩ := by
  have hstatements : statements line = [s] := by
    rw [statements, numbered, numberedLines_of_not_mem hline]
    simp [statement?, h, Except.toOption]
  have hnames : definedNames [s] = [] := List.filterMap_cons_none hname
  have hslots' : [s].flatMap Statement.slots = ws.map .number := by
    rw [List.flatMap_singleton, hslots]
  refine assemble?_eq_ok_iff.mpr ⟨?_, ?_, ?_, ?_, ?_⟩
  · rw [numberedLines_of_not_mem hline]
    exact List.forall_mem_singleton.mpr ⟨_, h⟩
  · rw [hstatements]
    exact fitting_of_definedNames_eq_nil hnames
  · rwa [hstatements, extent_eq_length, hslots', List.length_map]
  · rw [hstatements, LabelTable.extend, LabelTable.extend, Statement.defineAt_eq, hname]
  · rw [hstatements, hslots', List.map_map]
    rfl

/-- …and if it is refused, so is the source. -/
theorem assemble?_of_ofLine?_error (hline : '\n' ∉ line) {e : LineError}
    (h : Statement.ofLine? line = .error e) : assemble? line = .error (.onLine 1 e) := by
  rw [assemble?, assemble, numberedLines_of_not_mem hline]
  simp only [Layout.ofLines, h]

end Assembly

namespace Disassembly

variable {i : Instruction} {words : List Word} {t : Text}

/-- A NOP with operands comes first, with all its words. -/
def NopWithOperands (words : List Word) : Prop :=
  ∃ i x y rest, words = Instruction.words i x y ++ rest ∧ i.opcode = .nop ∧ i ≠ bareNop

/-- The text of a row that starts with all words of an instruction. -/
theorem fst_ofWords_words (hi : i ≠ bareNop) (x y : Word) (rest : List Word) :
    (ofWords (i.words x y ++ rest)).1 = lineText i x y := by
  have hfit : ((i.words x y ++ rest).take i.size).length = i.size := by
    rw [← length_words i x y, List.take_left]
  simp only [Instruction.words, List.cons_append, List.append_assoc] at hfit ⊢
  simp only [ofWords, Instruction.decode_encode, if_pos hfit, instructionText_eq hi]

/-- The extra word of an argument that comes back is a number, if there is one. -/
theorem exists_extra (w : Word) (o : Operand) : ∃ ws : List Word,
    (argument w o).extra.toList = ws.map .number ∧ ws.length ≤ (o.extraWords w).length := by
  by_cases h : o = .nextLiteral → 0x1F < w.toNat
  · exact ⟨_, (argument_of_large h).2, le_rfl⟩
  · push Not at h
    obtain ⟨rfl, hsmall⟩ := h
    exact ⟨[], by rw [argument_of_small hsmall]; rfl, Nat.zero_le _⟩

/-- **The line of an item is accepted**, as no more words than it shows, unless the item is a NOP
with operands. -/
theorem Shows.exists_slots (h : Shows words t) (hnop : ¬ NopWithOperands words) :
    ∃ (s : Statement) (ws : List Word), Statement.ofLine? t = .ok (some s) ∧ s.name? = none ∧
      s.slots = ws.map .number ∧ ws.length ≤ words.length := by
  cases h with
  | nop => exact ⟨_, [bareNop.encode], rfl, rfl, rfl, le_rfl⟩
  | @data w hw => exact ⟨_, [w], ofLine?_dataText w, rfl, rfl, le_rfl⟩
  | @instruction i hi x y =>
    have hop : i.opcode ≠ .nop := fun hop => hnop ⟨i, x, y, [], (List.append_nil _).symm, hop, hi⟩
    obtain ⟨xs, hxs, hxsle⟩ := exists_extra x i.a
    obtain ⟨ys, hys, hysle⟩ := exists_extra y i.b
    refine ⟨_, Fields.toWord ⟨i.opcode.number, (argument x i.a).code, (argument y i.b).code⟩ ::
      (xs ++ ys), (ofLine?_lineText i x y).trans (if_neg hop), rfl, ?_, ?_⟩
    · simp [Statement.slots, hxs, hys]
    · simp only [Instruction.words, List.length_cons, List.length_append]
      omega

/-- An item is three words at most. -/
theorem Shows.length_le (h : Shows words t) : words.length ≤ 3 := by
  cases h with
  | nop => decide
  | data hw => exact Nat.le_add_left 1 2
  | @instruction i hi x y =>
    rw [length_words, Instruction.size]
    split <;> split <;> decide

/-- **Which shown items are programs.**  The first item of a row of words is a program by itself, of
no more words than it shows and without labels, unless it is a NOP with operands; that the assembler
refuses, for its operands. -/
theorem assemble?_ofWords (hne : words ≠ []) :
    (¬ NopWithOperands words → ∃ ws : List Word,
      assemble? (ofWords words).1 = .ok ⟨ws, []⟩ ∧ ws.length ≤ (ofWords words).2) ∧
      (NopWithOperands words →
        assemble? (ofWords words).1 = .error (.onLine 1 (.malformed .operandsAfterNop))) := by
  constructor
  · intro hnop
    obtain ⟨w, rest, rfl⟩ := List.exists_cons_of_ne_nil hne
    obtain ⟨block, tail, hwords, hsize, hshows⟩ := exists_shows w rest
    have hblock : ¬ NopWithOperands block := by
      rintro ⟨i, x, y, after, rfl, hop, hi⟩
      exact hnop ⟨i, x, y, after ++ tail, by rw [hwords, List.append_assoc], hop, hi⟩
    obtain ⟨s, ws, hline, hname, hslots, hle⟩ := hshows.exists_slots hblock
    have hcount : ws.length ≤ Word.count := (hle.trans hshows.length_le).trans (by decide)
    exact ⟨ws, assemble?_of_ofLine? hshows.not_mem hline hname hslots hcount, hsize ▸ hle⟩
  · rintro ⟨i, x, y, rest, rfl, hop, hi⟩
    rw [fst_ofWords_words hi]
    exact assemble?_of_ofLine?_error (Shows.instruction hi x y).not_mem
      ((ofLine?_lineText i x y).trans (if_pos hop))

/-- A literal as destination is accepted, a register as operand of a NOP is not. -/
theorem assemble?_ofWords_literal :
    (∃ ws : List Word, assemble? "SET 0x0020, A".toList = .ok ⟨ws, []⟩ ∧ ws.length ≤ 2) ∧
      assemble? "NOP B, A".toList = .error (.onLine 1 (.malformed .operandsAfterNop)) := by
  have hset : ofWords [0x01F1, 0x20] = ("SET 0x0020, A".toList, 2) := by decide +kernel
  have hnop : ofWords [0x10] = ("NOP B, A".toList, 1) := by decide +kernel
  have hother : ¬ NopWithOperands [0x01F1, 0x20] := by
    rintro ⟨i, x, y, rest, hwords, hop, -⟩
    have hdecode : Instruction.decode 0x01F1 = .ok ⟨.set, .nextLiteral, .register .a⟩ := rfl
    rw [(List.cons.inj hwords).1, Instruction.decode_encode] at hdecode
    rw [Except.ok.inj hdecode] at hop
    cases hop
  have haccepted := (@assemble?_ofWords [0x01F1, 0x20] (by decide)).1 hother
  have hrefused := (@assemble?_ofWords [0x10] (by decide)).2
    ⟨⟨.nop, .register .b, .register .a⟩, 0, 0, [], rfl, rfl, by decide⟩
  rw [hset] at haccepted
  rw [hnop] at hrefused
  exact ⟨haccepted, hrefused⟩

end Disassembly

end WordMachine
