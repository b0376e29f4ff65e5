import WordMachine.Disassembly
import WordMachine.Proofs.Assembly.Grammar
import WordMachine.Proofs.Text.Numeral

/-!
# Proofs/Disassembly/Operand — shown operands are read back

An operand is shown as a text that the assembler accepts, and it comes back with its own code and
its own extra word (`ofText_shown`).  There is one exception: a literal in an extra word is shown
like any number, and a small number is put into the code (`argument`).
-/

namespace WordMachine

open Assembly

namespace Disassembly

/-- The text of an operand whose extra word is `w`, if it takes one. -/
def shown (isDestination : Bool) (w : Word) (o : Operand) : Text :=
  (operandText isDestination o [w]).1

theorem operandText_eq (isDestination : Bool) (w : Word) (rest : List Word) (o : Operand) :
    operandText isDestination o (o.extraWords w ++ rest) = (shown isDestination w o, rest) := by
  cases o <;> rfl

/-- The argument that comes back. -/
def argument (w : Word) : Operand → Argument
  | .nextLiteral => .ofValue (.number w)
  | o => ⟨o.code, if o.usesNextWord then some (.number w) else none⟩

variable {c : Char} {isDestination : Bool} {w : Word} {o : Operand}

/-! ## Words -/

theorem isAlphanum_of_mem_wordText (hc : c ∈ wordText w) : c.isAlphanum = true := by
  rw [wordText, Numeral.hexMarked, List.mem_cons, List.mem_cons] at hc
  rcases hc with rfl | rfl | hc
  · rfl
  · rfl
  · exact Numeral.isAlphanum_of_mem_hex4 hc

theorem not_mem_wordText (hc : c.isAlphanum = false) : c ∉ wordText w := by
  intro hmem
  rw [isAlphanum_of_mem_wordText hmem] at hc
  cases hc

theorem snug_of_all {t : Text} (hne : t ≠ []) (h : t.all Char.isAlphanum = true) : Text.Snug t :=
  Text.snug_of_forall hne fun c hc =>
    Text.isBlank_eq_false_of_isAlphanum (List.all_eq_true.mp h c hc)

theorem snug_wordText (w : Word) : Text.Snug (wordText w) :=
  snug_of_all (List.cons_ne_nil _ _) (List.all_eq_true.mpr fun _ => isAlphanum_of_mem_wordText)

theorem wordText_ne_nil (w : Word) : wordText w ≠ [] := List.cons_ne_nil _ _

theorem literal_wordText (w : Word) : Literal.ofText (wordText w) = .number w.toNat := by
  have hlimit : w.toNat < Literal.limit := by
    have := w.toNat_lt
    simp only [Literal.limit]
    omega
  change Literal.ofDigits 16 (Numeral.hex4 w) = _
  rw [Literal.ofDigits, Numeral.signedValue?_hex4 w hlimit]

theorem ofInt_toNat (w : Word) : UInt16.ofInt (w.toNat : Int) = w := by
  have := w.toNat_lt
  rw [← UInt16.toNat_inj, UInt16.ofInt, UInt16.toNat_ofNat']
  omega

/-- **A shown word stands for itself.** -/
theorem reads_wordText (labels : LabelTable) (w : Word) : Reads labels (wordText w) w := by
  have hlt : w.toNat < Word.count := w.toNat_lt_count
  simp only [Word.count] at hlt
  have hreads : Reads labels (wordText w) (UInt16.ofInt (w.toNat : Int)) :=
    .number (.literal (literal_wordText w)) (by omega) (by omega)
  rwa [ofInt_toNat] at hreads

theorem ofText_wordText (w : Word) : Value.ofText (wordText w) = .ok (.number w) := by
  have hlt : w.toNat < Word.count := w.toNat_lt_count
  simp only [Word.count] at hlt
  rw [ofText_of_writes (.literal (literal_wordText w)), ofInt_eq_ok, ofInt_toNat]
  exact ⟨by omega, rfl⟩

/-! ## Operands -/

/-- A sum of a base and a word is read back. -/
theorem ofText_sum {t : Text} (base : Base) (w : Word) (ht : Text.Snug t) (hplus : '+' ∉ t)
    (hbase : Names (Text.trim (t ++ [' '])) base) :
    Argument.ofText ('[' :: (t ++ ([' ', '+', ' '] ++ wordText w) ++ [']'])) =
      .ok (.extended (offsetOf base) (.number w)) := by
  have hsum : t ++ ([' ', '+', ' '] ++ wordText w) = (t ++ [' ']) ++ '+' :: ' ' :: wordText w := by
    simp
  have hleft : '+' ∉ t ++ [' '] := by simpa using hplus
  have hright : '+' ∉ ' ' :: wordText w := by simpa using not_mem_wordText rfl
  refine argument_eq_ok_iff.mpr (.indirect ?_)
  rw [(ht.append _ (snug_wordText w)).trim_eq, hsum,
    terms_eq_pair_iff.mpr ⟨_, _, hleft, hright, rfl, rfl, rfl⟩, Text.trim_cons rfl,
    (snug_wordText w).trim_eq]
  exact .baseFirst (offsetBase?_eq hbase) (isBase_of_reads named_nil (reads_wordText [] w))
    (ofText_wordText w)

theorem ofText_inline : ∀ v : Fin 32,
    Argument.ofText (Nat.toDigits 10 v) = .ok (.plain (.inline v)) := by
  decide +kernel

/-- **A shown operand is read back**, with its own code and its own extra word unless it is a small
literal. -/
theorem ofText_shown (isDestination : Bool) (w : Word) (o : Operand) :
    Argument.ofText (shown isDestination w o) = .ok (argument w o) := by
  have hword := reads_wordText [] w
  have hplus : '+' ∉ wordText w := not_mem_wordText rfl
  cases o with
  | register r => cases r <;> rfl
  | indirect r => cases r <;> rfl
  | indirectOffset r =>
    have hletter : Text.Snug [r.letter] :=
      snug_of_all (List.cons_ne_nil _ _) (by cases r <;> rfl)
    have hplus : '+' ∉ [r.letter] := by cases r <;> decide
    exact ofText_sum (.register r) w hletter hplus (by cases r <;> rfl)
  | pick =>
    have hsp : Text.Snug ['S', 'P'] := snug_of_all (List.cons_ne_nil _ _) rfl
    exact ofText_sum .sp w hsp (by decide) rfl
  | stack => cases isDestination <;> rfl
  | peek | sp | pc | ex => rfl
  | indirectNext =>
    refine argument_eq_ok_iff.mpr (.indirect ?_)
    rw [(snug_wordText w).trim_eq, terms_eq_single_iff.mpr ⟨hplus, rfl⟩,
      (snug_wordText w).trim_eq]
    exact .cell (isBase_of_reads named_nil hword) (ofText_wordText w)
  | nextLiteral =>
    exact argument_eq_ok_iff.mpr (.value (keyword?_of_reads named_nil hword) (ofText_wordText w))
  | inline v => exact ofText_inline v

/-- Any operand but a small literal keeps its code and its extra word… -/
theorem argument_of_large (h : o = .nextLiteral → 0x1F < w.toNat) :
    (argument w o).code = o.code ∧
      (argument w o).extra.toList = (o.extraWords w).map Value.number := by
  cases o with
  | nextLiteral =>
    have hlarge := h rfl
    rw [argument, Argument.ofValue, dif_neg (by omega)]
    exact ⟨rfl, rfl⟩
  | _ => exact ⟨rfl, rfl⟩

/-- …and a small literal loses the word. -/
theorem argument_of_small (h : w.toNat ≤ 0x1F) : (argument w .nextLiteral).extra = none := by
  rw [argument, Argument.ofValue, dif_pos (by omega)]
  rfl

/-- So an operand comes back with no more words, and with fewer just if it is a small literal. -/
theorem length_argument (w : Word) (o : Operand) :
    (argument w o).extra.toList.length ≤ (o.extraWords w).length ∧
      ((argument w o).extra.toList.length = (o.extraWords w).length →
        o = .nextLiteral → 0x1F < w.toNat) := by
  by_cases h : o = .nextLiteral → 0x1F < w.toNat
  · rw [(argument_of_large h).2, List.length_map]
    exact ⟨le_rfl, fun _ => h⟩
  · push Not at h
    obtain ⟨rfl, hsmall⟩ := h
    rw [argument_of_small hsmall]
    exact ⟨Nat.zero_le _, fun heq => by cases heq⟩

/-! ## The characters of an operand -/

/-- Letters, digits and the marks of a sum in brackets. -/
def isOperandChar (c : Char) : Bool := c.isAlphanum || ['[', ' ', '+', ']'].contains c

theorem all_wordText (w : Word) : (wordText w).all isOperandChar = true :=
  List.all_eq_true.mpr fun c hc => by rw [isOperandChar, isAlphanum_of_mem_wordText hc]; rfl

theorem isAlphanum_of_mem_toDigits {n : Nat} (hc : c ∈ Nat.toDigits 10 n) :
    c.isAlphanum = true := by
  rw [Char.isAlphanum, Numeral.isDigit_of_mem_toDigits hc, Bool.or_true]

/-- A shown operand has no other characters… -/
theorem all_shown (isDestination : Bool) (w : Word) (o : Operand) :
    (shown isDestination w o).all isOperandChar = true := by
  have hbracket : ∀ {t : Text}, t.all isOperandChar = true →
      ('[' :: (t ++ [']'])).all isOperandChar = true := fun ht => by
    simp only [List.all_cons, List.all_append, ht]
    rfl
  cases o with
  | register r | indirect r => cases r <;> rfl
  | indirectOffset r =>
    refine hbracket (t := [r.letter] ++ ([' ', '+', ' '] ++ wordText w)) ?_
    simp only [List.all_append, all_wordText]
    cases r <;> rfl
  | pick =>
    refine hbracket (t := ['S', 'P'] ++ ([' ', '+', ' '] ++ wordText w)) ?_
    simp only [List.all_append, all_wordText]
    rfl
  | stack => cases isDestination <;> rfl
  | peek | sp | pc | ex => rfl
  | indirectNext => exact hbracket (all_wordText w)
  | nextLiteral => exact all_wordText w
  | inline v =>
    refine List.all_eq_true.mpr fun c hc => ?_
    rw [isOperandChar, isAlphanum_of_mem_toDigits hc]
    rfl

theorem not_mem_shown (hc : isOperandChar c = false) : c ∉ shown isDestination w o := by
  intro hmem
  rw [List.all_eq_true.mp (all_shown isDestination w o) c hmem] at hc
  cases hc

/-- …and no blanks at its ends. -/
theorem snug_shown (isDestination : Bool) (w : Word) (o : Operand) :
    Text.Snug (shown isDestination w o) := by
  have hopen : Text.Snug ['['] :=
    Text.snug_of_forall (List.cons_ne_nil _ _) (List.forall_mem_singleton.mpr rfl)
  have hclose : Text.Snug [']'] :=
    Text.snug_of_forall (List.cons_ne_nil _ _) (List.forall_mem_singleton.mpr rfl)
  cases o with
  | register r => exact snug_of_all (List.cons_ne_nil _ _) (by cases r <;> rfl)
  | indirect r => exact hopen.append [r.letter] hclose
  | indirectOffset r => exact hopen.append (_ :: ' ' :: '+' :: ' ' :: wordText w) hclose
  | pick => exact hopen.append ('S' :: 'P' :: ' ' :: '+' :: ' ' :: wordText w) hclose
  | stack => cases isDestination <;> exact snug_of_all (List.cons_ne_nil _ _) rfl
  | peek | sp | pc | ex => exact snug_of_all (List.cons_ne_nil _ _) rfl
  | indirectNext => exact hopen.append (wordText w) hclose
  | nextLiteral => exact snug_wordText w
  | inline v =>
    exact snug_of_all Nat.toDigits_ne_nil
      (List.all_eq_true.mpr fun _ => isAlphanum_of_mem_toDigits)

end Disassembly

end WordMachine
