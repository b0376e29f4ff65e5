import WordMachine.Proofs.Disassembly.RoundTrip

/-!
# Proofs/Disassembly/Injective — a text shows no words but its own

A shown operand is read back with its code and its extra word, except that a small literal comes
back as an inline one.  The two are shown differently, the one as `0x` and four digits and the other
in decimal, so an operand's text has no second operand (`eq_of_shown_eq`) and an item's text no
second item (`Shows.eq_of_text_eq`).

Main statement: `fst_ofWords_eq_iff`.  The first items of two rows of a length have one text just if
they are the same words.
-/

namespace WordMachine

open Assembly

theorem Operand.code_inj {o o' : Operand} (h : o.code = o'.code) : o = o' := by
  rw [← ofCode_code o, h, ofCode_code]

namespace Disassembly

variable {i j : Instruction} {o o' : Operand} {w w' x y u v : Word} {t t' : Text}
  {isDestination : Bool}

/-! ## Operands -/

theorem wordText_inj (h : wordText w = wordText w') : w = w' := by
  have hvalue := congrArg Literal.ofText h
  rw [literal_wordText, literal_wordText, Literal.number.injEq] at hvalue
  exact UInt16.toNat_inj.mp (by omega)

/-- No number is written both as a word and in decimal. -/
theorem wordText_ne_toDigits (w : Word) (v : Fin 32) : wordText w ≠ Nat.toDigits 10 v := by
  intro h
  have hlong : (wordText w).length = 6 := congrArg (· + 2) (Numeral.length_hex4 w)
  have hshort : ∀ v : Fin 32, (Nat.toDigits 10 v).length ≤ 2 := by decide +kernel
  have := hshort v
  rw [← h, hlong] at this
  omega

/-- An operand other than a literal in an extra word comes back as it is. -/
theorem argument_of_ne (h : o ≠ .nextLiteral) :
    argument w o = ⟨o.code, if o.usesNextWord then some (.number w) else none⟩ := by
  cases o with
  | nextLiteral => exact absurd rfl h
  | _ => rfl

/-- A literal in an extra word is shown as no other operand is. -/
theorem shown_nextLiteral_ne (h : o ≠ .nextLiteral) :
    shown isDestination w .nextLiteral ≠ shown isDestination w' o := by
  intro heq
  have hargument : argument w .nextLiteral = argument w' o := by
    have hread := congrArg Argument.ofText heq
    rwa [ofText_shown, ofText_shown, Except.ok.injEq] at hread
  have hcode := congrArg Argument.code hargument
  rw [argument_of_ne h] at hcode
  by_cases hsmall : w.toNat < 32
  · rw [argument, Argument.ofValue, dif_pos hsmall] at hcode
    obtain rfl : .inline ⟨w.toNat, hsmall⟩ = o := Operand.code_inj hcode
    exact wordText_ne_toDigits w _ heq
  · rw [argument, Argument.ofValue, dif_neg hsmall] at hcode
    obtain rfl : .nextLiteral = o := Operand.code_inj hcode
    exact h rfl

/-- **An operand's text has no second operand**, and no second extra word. -/
theorem eq_of_shown_eq (h : shown isDestination w o = shown isDestination w' o') :
    o = o' ∧ o.extraWords w = o'.extraWords w' := by
  by_cases ho : o = .nextLiteral
  · subst ho
    by_cases ho' : o' = .nextLiteral
    · subst ho'
      obtain rfl : w = w' := wordText_inj h
      exact ⟨rfl, rfl⟩
    · exact absurd h (shown_nextLiteral_ne ho')
  · by_cases ho' : o' = .nextLiteral
    · subst ho'
      exact absurd h.symm (shown_nextLiteral_ne ho)
    · have hread := congrArg Argument.ofText h
      rw [ofText_shown, ofText_shown, argument_of_ne ho, argument_of_ne ho', Except.ok.injEq,
        Argument.mk.injEq] at hread
      obtain ⟨hcode, hextra⟩ := hread
      obtain rfl := Operand.code_inj hcode
      refine ⟨rfl, ?_⟩
      unfold Operand.extraWords
      split
      · next huses =>
        rw [if_pos huses, if_pos huses, Option.some.injEq, Value.number.injEq] at hextra
        rw [hextra]
      · rfl

/-! ## Items -/

theorem mnemonic_inj {op op' : Opcode} (h : op.mnemonic = op'.mnemonic) : op = op' := by
  cases op <;> cases op' <;> first | rfl | cases h

theorem space_not_mem_mnemonic (op : Opcode) : ' ' ∉ op.mnemonic := by cases op <;> decide

/-- The line of an instruction is that of no other. -/
theorem words_eq_of_lineText_eq (h : lineText i x y = lineText j u v) :
    i.words x y = j.words u v := by
  have hcomma : ∀ (w : Word) (o : Operand), ',' ∉ shown true w o := fun _ _ => not_mem_shown rfl
  rw [lineText, lineText,
    Text.append_cons_inj (space_not_mem_mnemonic _) (space_not_mem_mnemonic _),
    Text.append_cons_inj (hcomma _ _) (hcomma _ _)] at h
  obtain ⟨hmnemonic, ha, hb⟩ := h
  obtain ⟨haOperand, haExtra⟩ := eq_of_shown_eq ha
  obtain ⟨hbOperand, hbExtra⟩ := eq_of_shown_eq (List.cons.inj hb).2
  obtain rfl : i = j := by
    rw [Instruction.mk.injEq]
    exact ⟨mnemonic_inj hmnemonic, haOperand, hbOperand⟩
  rw [Instruction.words, Instruction.words, haExtra, hbExtra]

/-- No instruction has the mnemonic of data. -/
theorem lineText_ne_dataText (i : Instruction) (x y w : Word) : lineText i x y ≠ dataText w := by
  have hdata : dataText w = ['D', 'A', 'T'] ++ ' ' :: wordText w := rfl
  rw [hdata, lineText, ne_eq, Text.append_cons_inj (space_not_mem_mnemonic _) (by decide)]
  rintro ⟨hmnemonic, -⟩
  revert hmnemonic
  cases i.opcode <;> decide

/-- **An item's text has no second item.** -/
theorem Shows.eq_of_text_eq {block block' : List Word} (h : Shows block t) (h' : Shows block' t) :
    block = block' := by
  have hbare : ∀ i x y, lineText i x y ≠ Opcode.nopMnemonic := fun i x y heq => by
    have hspace : ' ' ∉ Opcode.nopMnemonic := by decide
    rw [← heq] at hspace
    exact hspace (by simp [lineText])
  generalize ht : t = t' at h'
  cases h with
  | nop =>
    cases h' with
    | nop => rfl
    | instruction hi x y => exact absurd ht.symm (hbare _ _ _)
    | data hw => cases ht
  | instruction hi x y =>
    cases h' with
    | nop => exact absurd ht (hbare _ _ _)
    | instruction hj u v => exact words_eq_of_lineText_eq ht
    | data hw => exact absurd ht (lineText_ne_dataText _ _ _ _)
  | data hw =>
    cases h' with
    | nop => cases ht
    | instruction hi x y => exact absurd ht.symm (lineText_ne_dataText _ _ _ _)
    | data hw => rw [wordText_inj (List.append_cancel_left ht)]

/-- The text of an instruction depends on the extra words that its operands take. -/
theorem instructionText_congr {rest rest' : List Word} (hi : i.size ≤ rest.length + 1)
    (h : rest.take (i.size - 1) = rest'.take (i.size - 1)) :
    instructionText i rest = instructionText i rest' := by
  by_cases hbare : i = bareNop
  · subst hbare
    rfl
  · obtain ⟨x, y, tail, rfl⟩ := exists_words_append hi
    have hlength : i.size - 1 = (i.a.extraWords x ++ i.b.extraWords y).length := by
      rw [← length_words i x y, Instruction.words, List.length_cons, Nat.add_sub_cancel]
    rw [← List.append_assoc, hlength, List.take_left] at h
    have hrest' : rest' = i.a.extraWords x ++ (i.b.extraWords y ++ rest'.drop (i.size - 1)) := by
      rw [← List.append_assoc, h, hlength, List.take_append_drop]
    rw [hrest', instructionText_eq hbare, instructionText_eq hbare]

/-- An item depends on its own words, and on the length of the row. -/
theorem ofWords_congr {ws vs : List Word} (hlength : ws.length = vs.length)
    (h : ws.take (ofWords ws).2 = vs.take (ofWords ws).2) : ofWords ws = ofWords vs := by
  cases ws with
  | nil =>
    obtain rfl := List.eq_nil_of_length_eq_zero hlength.symm
    rfl
  | cons w ws =>
    obtain ⟨w', vs, rfl⟩ := List.exists_cons_of_length_eq_add_one hlength.symm
    have hfit : ∀ n, ((w :: ws).take n).length = ((w' :: vs).take n).length := fun n => by
      rw [List.length_take, List.length_take, hlength]
    obtain ⟨n, hn⟩ := Nat.exists_eq_succ_of_ne_zero (ofWords_cons_snd_pos w ws).ne'
    rw [hn, List.take_succ_cons, List.take_succ_cons] at h
    obtain ⟨rfl, htail⟩ := List.cons.inj h
    simp only [ofWords, ← hfit] at hn ⊢
    cases hdecode : Instruction.decode w with
    | error e => rfl
    | ok i =>
      simp only [hdecode] at hn ⊢
      split
      · next hsize =>
        rw [if_pos hsize] at hn
        have hi : i.size ≤ ws.length + 1 :=
          hsize.symm.trans_le (List.length_take_le' _ _)
        obtain rfl : i.size - 1 = n := Nat.sub_eq_of_eq_add hn
        rw [instructionText_congr hi htail]
      · rfl

/-- **The first items of two rows of a length have one text just if they are the same words.** -/
theorem fst_ofWords_eq_iff {ws vs : List Word} (hlength : ws.length = vs.length) :
    (ofWords ws).1 = (ofWords vs).1 ↔ ws.take (ofWords ws).2 = vs.take (ofWords ws).2 := by
  constructor
  · intro h
    cases ws with
    | nil =>
      obtain rfl := List.eq_nil_of_length_eq_zero hlength.symm
      rfl
    | cons w ws =>
      obtain ⟨w', vs, rfl⟩ := List.exists_cons_of_length_eq_add_one hlength.symm
      obtain ⟨block, tail, hws, hsize, hshows⟩ := exists_shows w ws
      obtain ⟨block', tail', hvs, -, hshows'⟩ := exists_shows w' vs
      rw [← h] at hshows'
      obtain rfl := hshows.eq_of_text_eq hshows'
      rw [hsize, hws, hvs, List.take_left, List.take_left]
  · intro h
    rw [ofWords_congr hlength h]

end Disassembly

end WordMachine
