import WordMachine.Proofs.Processor.Direct

/-!
# Proofs/Processor/Meaning — what the operands of an instruction stand for

A `Meaning` says where an operand is without saying how it is encoded: an offset and a value are
words here, wherever the instruction keeps them.  `Meaning.ofOperand` is the meaning of an operand
and its extra word, and `resolve` finds its place (`Plain.resolve_eq`).  Main statement:
`Plain.step_eq`, a whole step as one application of `perform`.
-/

namespace WordMachine

/-- A register that an address can be given by. -/
inductive Base where
  | register (r : Register)
  | sp
  deriving DecidableEq, Repr

/-- The word that a base holds. -/
def Base.word (regs : Registers) : Base → Word
  | .register r => regs.get r
  | .sp => regs.sp

/-- What an operand stands for. -/
inductive Meaning where
  | register (r : Register)
  /-- The cell that a base points to. -/
  | pointed (base : Base)
  /-- The cell so far from where a base points to. -/
  | offset (base : Base) (v : Word)
  /-- Pop when read, push when written. -/
  | stack
  | sp
  | pc
  | ex
  /-- The cell at an address. -/
  | cell (v : Word)
  /-- The word itself. -/
  | value (v : Word)
  deriving DecidableEq, Repr

namespace Meaning

/-- Where the operand is, given the registers. -/
def place (regs : Registers) : Meaning → Processor.Place
  | register r => .register r
  | pointed base => .cell (base.word regs)
  | offset base v => .cell (base.word regs + v)
  | stack => .stack
  | sp => .sp
  | pc => .pc
  | ex => .ex
  | cell v => .cell v
  | value v => .literal v

theorem place_eq_pc {regs : Registers} {m : Meaning} (h : m.place regs = .pc) : m = pc := by
  cases m with
  | pc => rfl
  | _ => cases h

/-- What an operand with this extra word stands for. -/
def ofOperand (extra : Word) : Operand → Meaning
  | .register r => register r
  | .indirect r => pointed (.register r)
  | .indirectOffset r => offset (.register r) extra
  | .stack => stack
  | .peek => pointed .sp
  | .pick => offset .sp extra
  | .sp => sp
  | .pc => pc
  | .ex => ex
  | .indirectNext => cell extra
  | .nextLiteral => value extra
  | .inline v => value (UInt16.ofNat v)

/-- The extra word makes a difference to those operands alone that take one. -/
theorem ofOperand_congr {extra extra' : Word} {o : Operand}
    (h : o.usesNextWord = true → extra = extra') : ofOperand extra o = ofOperand extra' o := by
  cases huses : o.usesNextWord with
  | true => rw [h huses]
  | false =>
    cases o with
    | indirectOffset | pick | indirectNext | nextLiteral => cases huses
    | _ => rfl

/-- An operand is a literal if it stands for a value. -/
theorem isLiteral_iff {extra : Word} {o : Operand} :
    o.isLiteral = true ↔ ∃ v, ofOperand extra o = value v := by
  cases o with
  | nextLiteral => exact ⟨fun _ => ⟨extra, rfl⟩, fun _ => rfl⟩
  | inline v => exact ⟨fun _ => ⟨UInt16.ofNat v, rfl⟩, fun _ => rfl⟩
  | _ =>
    refine ⟨fun h => ?_, fun h => ?_⟩
    · cases h
    · obtain ⟨v, hv⟩ := h
      cases hv

end Meaning

/-- The address after an operand's extra word, if it has one. -/
def Operand.after (pc : Word) (o : Operand) : Word := if o.usesNextWord then pc + 1 else pc

/-- An extra word, if the operand takes one. -/
def Operand.extraWords (extra : Word) (o : Operand) : List Word :=
  if o.usesNextWord then [extra] else []

theorem Operand.after_eq (pc extra : Word) (o : Operand) :
    o.after pc = pc + UInt16.ofNat (o.extraWords extra).length := by
  unfold Operand.after Operand.extraWords
  split
  · rfl
  · exact (UInt16.add_zero pc).symm

/-- The words of an instruction whose operands have these extra words. -/
def Instruction.words (i : Instruction) (extraA extraB : Word) : List Word :=
  i.encode :: (i.a.extraWords extraA ++ i.b.extraWords extraB)

/-- The operations that refuse a literal as their destination: all but NOP and DIV. -/
theorem Opcode.assigns_iff {op : Opcode} (h : op ≠ .nop) : op.assigns = true ↔ op ≠ .div := by
  cases op with
  | nop => exact absurd rfl h
  | _ => decide

namespace Processor

variable {ω σ : Type} {p : Processor ω σ}

/-- The processor with PC at an address. -/
def goto (p : Processor ω σ) (addr : Word) : Processor ω σ := p.withRegs { p.regs with pc := addr }

/-- The processor once an instruction is counted and recorded. -/
def completed (p : Processor ω σ) (i : Instruction) : Processor ω σ :=
  { p with cycles := p.cycles + 1, last := some i }

variable [Observer ω σ]

/-- **Resolving an operand finds its place** and takes its extra word. -/
theorem Plain.resolve_eq (h : p.Plain) (addr : Word) (o : Operand) :
    resolve o (p.goto addr) =
      .ok ((Meaning.ofOperand (p.word addr) o).place p.regs) (p.goto (o.after addr)) := by
  have hnext : nextWord (p.goto addr) = .ok (p.word addr) (p.goto (addr + 1)) :=
    (h.withRegs { p.regs with pc := addr }).nextWord_eq
  cases o with
  | indirectOffset | pick | indirectNext | nextLiteral =>
    change (nextWord >>= _) (p.goto addr) = _
    rw [bind_of_ok hnext]
    rfl
  | _ => rfl

theorem execute_of_ne {op : Opcode} (hnop : op ≠ .nop) (hset : op ≠ .set) (a b : Operand) :
    (execute ⟨op, a, b⟩ : Action ω σ Unit) = (do
      let destination ← resolve a
      let source ← resolve b
      let v ← load source
      let w ← load destination
      match (Alu.compute op w v).ex with
      | some ex => onRegs fun regs => { regs with ex := ex }
      | none => pure ()
      store (Alu.compute op w v).result destination) := by
  cases op with
  | nop => exact absurd rfl hnop
  | set => exact absurd rfl hset
  | _ => rfl

/-- **An instruction whose word has been taken** performs its operation on what its operands stand
for. -/
theorem Plain.execute_eq (h : p.Plain) (addr : Word) {i : Instruction} (hop : i.opcode ≠ .nop) :
    execute i (p.goto addr) = .ok ()
      ((p.goto (i.b.after (i.a.after addr))).perform i.opcode
        ((Meaning.ofOperand (p.word addr) i.a).place p.regs)
        ((Meaning.ofOperand (p.word (i.a.after addr)) i.b).place p.regs)) := by
  obtain ⟨op, a, b⟩ := i
  have ha := h.resolve_eq addr a
  have hb := h.resolve_eq (a.after addr) b
  have hplain : (p.goto (b.after (a.after addr))).Plain := h.withRegs _
  generalize (Meaning.ofOperand (p.word addr) a).place p.regs = destination at ha ⊢
  generalize (Meaning.ofOperand (p.word (a.after addr)) b).place p.regs = source at hb ⊢
  generalize p.goto (b.after (a.after addr)) = q at hb hplain ⊢
  have hsource := hplain.load_eq source
  have hplain' := hplain.fetch source
  by_cases hset : op = .set
  · subst hset
    change (resolve a >>= fun _ => resolve b >>= fun _ => load _ >>= fun _ => store _ _) _ = _
    rw [bind_of_ok ha, bind_of_ok hb, bind_of_ok hsource, hplain'.store_eq]
    rfl
  · rw [execute_of_ne hop hset, bind_of_ok ha, bind_of_ok hb, bind_of_ok hsource,
      bind_of_ok (hplain'.load_eq destination)]
    have hplain'' := hplain'.fetch destination
    simp only [perform, if_neg hset]
    generalize Alu.compute op _ _ = outcome
    cases outcome.ex with
    | none => exact hplain''.store_eq _ _
    | some ex => exact (hplain''.withRegs _).store_eq _ _

/-- **A step is one application of its operation** to what the operands stand for; it is refused,
with nothing changed, if it would assign to a value and is not DIV. -/
theorem Plain.step_eq (h : p.Plain) {i : Instruction} (hop : i.opcode ≠ .nop)
    (hword : p.word p.regs.pc = i.encode) :
    step p =
      if i.opcode ≠ .div ∧ i.a.isLiteral = true then
        .error (.illegalWrite p.regs.pc i.a.code) p
      else
        .ok i (((p.goto (i.b.after (i.a.after (p.regs.pc + 1)))).perform i.opcode
          ((Meaning.ofOperand (p.word (p.regs.pc + 1)) i.a).place p.regs)
          ((Meaning.ofOperand (p.word (i.a.after (p.regs.pc + 1))) i.b).place p.regs)).completed
            i) := by
  have haccept : accept p.regs.pc (p.word p.regs.pc) =
      if i.opcode ≠ .div ∧ i.a.isLiteral = true then .error (.illegalWrite p.regs.pc i.a.code)
      else .ok i := by
    rw [hword, accept, Instruction.decode_encode]
    simp only [Bool.and_eq_true, Opcode.assigns_iff hop]
  change (read p.regs.pc >>= _) p = _
  rw [bind_of_ok (h.read_eq _), haccept]
  by_cases hrefused : i.opcode ≠ .div ∧ i.a.isLiteral = true
  · rw [if_pos hrefused, if_pos hrefused]
    rfl
  · rw [if_neg hrefused, if_neg hrefused]
    change (execute i >>= _) (p.goto (p.regs.pc + 1)) = _
    rw [bind_of_ok (h.execute_eq _ hop)]
    rfl

/-- **A step on the words of an instruction** is one application of its operation to what the
operands mean with their extra words, from the address after the words. -/
theorem Plain.step_words (h : p.Plain) {i : Instruction} (hop : i.opcode ≠ .nop)
    {extraA extraB : Word} (hwords : p.Holds (i.words extraA extraB)) :
    step p =
      if i.opcode ≠ .div ∧ i.a.isLiteral = true then
        .error (.illegalWrite p.regs.pc i.a.code) p
      else
        .ok i (((p.goto (p.regs.pc + UInt16.ofNat (i.words extraA extraB).length)).perform i.opcode
          ((Meaning.ofOperand extraA i.a).place p.regs)
          ((Meaning.ofOperand extraB i.b).place p.regs)).completed i) := by
  have hfirst : p.word p.regs.pc = i.encode := by
    have hzero := hwords 0 i.encode rfl
    rwa [show UInt16.ofNat 0 = 0 from rfl, UInt16.add_zero] at hzero
  have hafter : i.a.after (p.regs.pc + 1) =
      p.regs.pc + UInt16.ofNat (1 + (i.a.extraWords extraA).length) := by
    rw [Operand.after_eq _ extraA, UInt16.ofNat_add, UInt16.add_assoc]
    rfl
  have hlast : i.b.after (i.a.after (p.regs.pc + 1)) =
      p.regs.pc + UInt16.ofNat (i.words extraA extraB).length := by
    rw [Operand.after_eq _ extraB, hafter, UInt16.add_assoc, ← UInt16.ofNat_add]
    congr 2
    simp only [Instruction.words, List.length_cons, List.length_append]
    omega
  have ha : Meaning.ofOperand (p.word (p.regs.pc + 1)) i.a = Meaning.ofOperand extraA i.a := by
    refine Meaning.ofOperand_congr fun huses => hwords 1 extraA ?_
    simp [Instruction.words, Operand.extraWords, huses]
  have hb : Meaning.ofOperand (p.word (i.a.after (p.regs.pc + 1))) i.b =
      Meaning.ofOperand extraB i.b := by
    refine Meaning.ofOperand_congr fun huses => ?_
    rw [hafter]
    refine hwords _ extraB ?_
    simp [Instruction.words, Operand.extraWords, huses, Nat.add_comm 1]
  rw [h.step_eq hop hfirst, ha, hb, hlast]

end Processor

end WordMachine
