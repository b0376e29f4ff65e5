import WordMachine.Memory.Probe
import WordMachine.Proofs.Assembly.Layout
import WordMachine.Proofs.Assembly.Line
import WordMachine.Proofs.Assembly.Operand

/-!
# Proofs/Assembly/Execution — assembled lines execute as written

A line with an operation and two operands becomes the words of one instruction, and a step on these
words applies the operation to what the operands denote.  The two sides meet in `Meaning`: the
assembler encodes what is denoted (`encodes_of_denotes`), and the processor finds it again
(`Processor.Plain.step_words`).  Main statement: `step_of_line`.
-/

namespace WordMachine

namespace Assembly

variable {op : Opcode} {mnemonic : Text}

/-! ## The words of a line -/

/-- The extra word of an argument, once labels have addresses. -/
theorem of_extra {labels : LabelTable} {number : Nat} {arg : Argument} {o : Operand} {extra : Word}
    {words : List Word} (huses : o.usesNextWord = arg.extra.isSome)
    (hextra : ∀ v ∈ arg.extra, v.word? labels = some extra)
    (h : arg.extra.toList.mapM (resolve labels number) = .ok words) :
    words = o.extraWords extra := by
  rw [Operand.extraWords, huses]
  cases hv : arg.extra with
  | none =>
    rw [hv] at h
    cases h
    rfl
  | some v =>
    rw [hv] at h
    obtain ⟨w, rest, hw, hrest, rfl⟩ := exists_of_mapM_cons h
    cases hrest
    have hword := (hextra v hv).symm.trans (resolve_eq_ok.mp hw)
    cases hword
    rfl

/-- **The words of a line are those of an instruction** with the meanings of the line's operands. -/
theorem words_eq {labels : LabelTable} {number : Nat} {a b : Argument} {x y : Meaning}
    (ha : Encodes labels a x) (hb : Encodes labels b y) {words : List Word}
    (h : (Statement.instruction op.number a b).slots.mapM (resolve labels number) = .ok words) :
    ∃ i extraA extraB, i.opcode = op ∧ words = Instruction.words i extraA extraB ∧
      x = Meaning.ofOperand extraA i.a ∧ y = Meaning.ofOperand extraB i.b := by
  obtain ⟨o, extraA, hcode, huses, hextra, rfl⟩ := ha
  obtain ⟨o', extraB, hcode', huses', hextra', rfl⟩ := hb
  obtain ⟨first, rest, hfirst, hrest, rfl⟩ := exists_of_mapM_cons h
  obtain ⟨us, vs, hus, hvs, rfl⟩ := exists_of_mapM_append hrest
  cases hfirst
  refine ⟨⟨op, o, o'⟩, extraA, extraB, rfl, ?_, rfl, rfl⟩
  rw [of_extra huses hextra hus, of_extra huses' hextra' hvs, hcode, hcode']
  rfl

/-- Every value of an argument on a line has a word. -/
theorem exists_word {labels : LabelTable} {number : Nat} {values : List Value} {words : List Word}
    (h : values.mapM (resolve labels number) = .ok words) {v : Value} (hv : v ∈ values) :
    ∃ w, v.word? labels = some w := by
  obtain ⟨before, after, rfl⟩ := List.append_of_mem hv
  obtain ⟨-, rest, -, hrest, -⟩ := exists_of_mapM_append h
  obtain ⟨w, -, hw, -, -⟩ := exists_of_mapM_cons hrest
  exact ⟨w, resolve_eq_ok.mp hw⟩

/-! ## Execution -/

/-- **An assembled line executes as written.**  For every line `OP a, b` of a source that is
accepted, the program has words for the line after those of the lines before it, and both operands
denote something.  Whatever they denote, a step of any plain processor that holds the words at PC
refuses a destination that is a value, unless the operation is DIV, and else applies the operation
to what the operands denote, with PC after the words. -/
theorem step_of_line {source : Text} {program : Program} (h : assemble? source = .ok program)
    {before after : List (Nat × Text)} {number : Nat} {line : Text}
    (hlines : source.numberedLines = before ++ (number, line) :: after)
    {blank : Char} {rest l r : Text} (hcontent : Text.content line = mnemonic ++ blank :: rest)
    (hblank : Text.isBlank blank = true) (hop : Text.upper mnemonic = op.mnemonic)
    (hnop : op ≠ .nop) (hoperands : Text.trim rest = l ++ ',' :: r) :
    ∃ layout pre words post, Layout.ofLines {} before = (layout, none) ∧
      pre.length = layout.size ∧ program.words = pre ++ words ++ post ∧
      (∃ x, Denotes program.labels (Text.trim l) x) ∧
      (∃ y, Denotes program.labels (Text.trim r) y) ∧
      ∀ x y, Denotes program.labels (Text.trim l) x → Denotes program.labels (Text.trim r) y →
        ∀ (ω σ : Type) [Observer ω σ] (p : Processor ω σ), p.Plain → p.Holds words →
          (op ≠ .div ∧ (∃ v, x = .value v) →
            ∃ code, Processor.step p = .error (.illegalWrite p.regs.pc code) p) ∧
          (¬ (op ≠ .div ∧ ∃ v, x = .value v) →
            ∃ i p', Processor.step p = .ok i p' ∧ i.opcode = op ∧
              p' = ((p.goto (p.regs.pc + UInt16.ofNat words.length)).perform op (x.place p.regs)
                (y.place p.regs)).completed i ∧
              (x ≠ .pc → p'.regs.pc = p.regs.pc + UInt16.ofNat words.length)) := by
  obtain ⟨statement, layout, hstatement, hbefore, hnamed, hwords⟩ := exists_words h hlines
  obtain ⟨a, b, ha, hb, rfl⟩ := of_ofLine? hcontent hblank hop hnop hoperands hstatement
  obtain ⟨pre, words, post, hpre, hprogram, hslots⟩ := hwords _ rfl
  have hdefined : ∀ v ∈ a.extra.toList ++ b.extra.toList, ∃ w, v.word? program.labels = some w :=
    fun v hv => exists_word hslots (List.mem_cons_of_mem _ hv)
  have hx := exists_denotes ha fun v hv => hdefined v (by simp [Option.mem_def.mp hv])
  have hy := exists_denotes hb fun v hv => hdefined v (by simp [Option.mem_def.mp hv])
  refine ⟨layout, pre, words, post, hbefore, hpre, hprogram, hx, hy, ?_⟩
  intro x y hx hy ω σ _ p hplain hholds
  obtain ⟨i, extraA, extraB, rfl, rfl, rfl, rfl⟩ :=
    words_eq (encodes_of_denotes hnamed hx ha) (encodes_of_denotes hnamed hy hb) hslots
  have hstep := hplain.step_words hnop hholds
  have hvalue : i.a.isLiteral = true ↔ ∃ v, Meaning.ofOperand extraA i.a = .value v :=
    Meaning.isLiteral_iff
  constructor
  · rintro ⟨hdiv, hliteral⟩
    rw [if_pos ⟨hdiv, hvalue.mpr hliteral⟩] at hstep
    exact ⟨_, hstep⟩
  · intro haccepted
    rw [if_neg fun ⟨hdiv, hliteral⟩ => haccepted ⟨hdiv, hvalue.mp hliteral⟩] at hstep
    refine ⟨i, _, hstep, rfl, rfl, fun hpc => ?_⟩
    have hplace : (Meaning.ofOperand extraA i.a).place p.regs ≠ .pc := fun heq =>
      hpc (Meaning.place_eq_pc heq)
    exact Processor.pc_perform _ _ _ hplace

/-- A line that stores the address of a label past a register. -/
def sumSource : Text := "SET [2 + A], loop\n:loop".toList

theorem step_of_line_sum :
    ∃ (program : Program) (words : List Word) (i : Instruction) (p' : Processor Probe Probe.Log),
      assemble? sumSource = .ok program ∧
        Processor.step (Processor.ofWords {} words) = .ok i p' ∧ i.opcode = .set ∧
        p'.word 2 = 3 ∧ p'.regs.pc = UInt16.ofNat words.length := by
  have hassemble : assemble? sumSource = .ok ⟨[0x7D01, 2, 3], [("loop".toList, 3)]⟩ := rfl
  have hlines : sumSource.numberedLines =
      [] ++ (1, "SET [2 + A], loop".toList) :: [(2, ":loop".toList)] := rfl
  have hcontent : Text.content "SET [2 + A], loop".toList =
      "SET".toList ++ ' ' :: "[2 + A], loop".toList := rfl
  have hop : Text.upper "SET".toList = Opcode.set.mnemonic := rfl
  have hoperands : Text.trim "[2 + A], loop".toList =
      "[2 + A]".toList ++ ',' :: " loop".toList := rfl
  obtain ⟨layout, pre, words, post, -, -, hprogram, -, -, hstep⟩ :=
    step_of_line hassemble hlines hcontent rfl hop (by decide) hoperands
  have hx : Denotes [("loop".toList, 3)] (Text.trim "[2 + A]".toList)
      (.offset (.register .a) 2) := by
    have htwo : Writes "2".toList 2 := .literal rfl
    have hsum : Inside [("loop".toList, 3)] ("2 ".toList ++ '+' :: " A".toList)
        (.offset (.register .a) 2) :=
      .valueFirst (by decide) (by decide) (.number htwo (by decide) (by decide)) rfl
    exact .indirect (t := "2 + A".toList) hsum
  have hy : Denotes [("loop".toList, 3)] (Text.trim " loop".toList) (.value 3) :=
    .value (.label rfl)
  have hlength : words.length ≤ Word.count := by
    have htotal := congrArg List.length hprogram
    simp only [List.length_append, List.length_cons, List.length_nil] at htotal
    simp only [Word.count]
    omega
  obtain ⟨-, hrun⟩ := hstep _ _ hx hy Probe Probe.Log (Processor.ofWords {} words)
    (Processor.plain_ofWords _ _) (Processor.holds_ofWords _ hlength)
  obtain ⟨i, p', hok, hset, hp', hpc⟩ := hrun (by rintro ⟨-, v, hv⟩; cases hv)
  refine ⟨_, words, i, p', hassemble, hok, hset, ?_, ?_⟩
  · have hplain : (Processor.ofWords {} words : Processor Probe Probe.Log).Plain :=
      Processor.plain_ofWords _ _
    rw [hp']
    exact (hplain.withRegs _).word_withCell 2 3 2
  · rw [hpc (by decide)]
    exact UInt16.zero_add _

end Assembly

end WordMachine
