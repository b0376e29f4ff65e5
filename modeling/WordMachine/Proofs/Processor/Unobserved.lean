import WordMachine.Proofs.Processor.Inversion

/-!
# Proofs/Processor/Unobserved — what a step that has succeeded has done, if no cell is observed

Where no cell is observed, a read gives the word of its cell and a write stores one, and either fails
only past the end of the memory.  So a step that has succeeded has fetched the words of its operands,
each once, and put what its operation makes of them at its destination, and all the cells it needed
were there.

Main statement: `Unobserved.of_step`.  Both what a step computes and what it leaves alone can be read
off the registers before its result is put (`settled`) and that result (`outcome`).
-/

namespace WordMachine

/-! ## Operands that are registers -/

namespace Operand

/-- An operand that is a register, wherever the registers point. -/
def isRegister : Operand → Bool
  | register _ | sp | pc | ex => true
  | _ => false

/-- By how much SP goes up when the operand's word is taken, and down when a word is put there. -/
def shift (o : Operand) : Word := if o = stack then 1 else 0

end Operand

/-- How many words an instruction pops.  SET does not take the word of its destination. -/
def Instruction.pops (i : Instruction) : Word :=
  i.b.shift + if i.opcode = .set then 0 else i.a.shift

/-- The place of an operand that is a register is the place of no other operand. -/
theorem Meaning.place_ne {regs : Registers} {extra : Word} {o o' : Operand}
    (h : o'.isRegister = true) (hne : o ≠ o') :
    (ofOperand extra o).place regs ≠ (ofOperand extra o').place regs := by
  intro hplace
  refine hne ?_
  cases o' with
  | register r' =>
    cases o with
    | register r =>
      cases hplace
      rfl
    | _ => cases hplace
  | sp | pc | ex =>
    cases o with
    | sp | pc | ex => first | rfl | cases hplace
    | _ => cases hplace
  | _ => cases h

/-- Only a literal operand is at a literal. -/
theorem Meaning.place_ne_literal {regs : Registers} {extra : Word} {o : Operand}
    (h : o.isLiteral = false) (w : Word) : (ofOperand extra o).place regs ≠ .literal w := by
  intro hplace
  cases o with
  | nextLiteral | inline v => cases h
  | _ => cases hplace

namespace Processor

variable {ω σ : Type}

namespace Place

variable (regs : Registers) (extra sp : Word) (o : Operand)

theorem popped_place : ((Meaning.ofOperand extra o).place regs).popped sp = sp + o.shift := by
  cases o with
  | stack => rfl
  | _ => exact (UInt16.add_zero sp).symm

theorem pushed_place : ((Meaning.ofOperand extra o).place regs).pushed sp = sp - o.shift := by
  cases o with
  | stack => rfl
  | _ => exact (UInt16.sub_zero sp).symm

end Place

/-! ## What fetching and putting leave -/

section Direct

variable (p : Processor ω σ) (w : Word) (x : Place)

theorem fetch_snd : (p.fetch x).2 = p.withRegs { p.regs with sp := x.popped p.regs.sp } := by
  cases x <;> rfl

theorem putEx_eq (ex : Option Word) :
    p.putEx ex = p.withRegs { p.regs with ex := ex.getD p.regs.ex } := by
  cases ex <;> rfl

theorem fetch_completed (i : Instruction) : ((p.completed i).fetch x).1 = (p.fetch x).1 := by
  cases x <;> rfl

theorem ia_put : (p.put w x).regs.ia = p.regs.ia := by
  cases x <;> rfl

theorem world_put : (p.put w x).world = p.world := by
  cases x <;> rfl

variable {p w x}

/-- A general register is only put a word by its name… -/
theorem get_put {r : Register} (h : x ≠ .register r) : (p.put w x).regs.get r = p.regs.get r := by
  cases x with
  | register r' =>
    exact (Registers.get_set _ _ _ _).trans (if_neg fun heq => h (congrArg Place.register heq))
  | _ => rfl

/-- …and so is EX… -/
theorem ex_put (h : x ≠ .ex) : (p.put w x).regs.ex = p.regs.ex := by
  cases x with
  | ex => exact absurd rfl h
  | _ => rfl

/-- …but SP moves with the stack besides. -/
theorem sp_put (h : x ≠ .sp) : (p.put w x).regs.sp = x.pushed p.regs.sp := by
  cases x with
  | sp => exact absurd rfl h
  | _ => rfl

/-- A cell changes only if it is the place. -/
theorem address?_of_cell?_put {addr : Nat} (h : (p.put w x).mem.cell? addr ≠ p.mem.cell? addr) :
    (x.address? (p.put w x).regs.sp).map (·.toNat) = some addr := by
  have hstored : ∀ cell : Word, (p.mem.store cell.toNat w).cell? addr ≠ p.mem.cell? addr →
      cell.toNat = addr := by
    intro cell hchanged
    rw [Memory.cell?_store] at hchanged
    refine Decidable.byContradiction fun hne => hchanged ?_
    exact if_neg fun hboth => hne hboth.1
  cases x with
  | cell cell => exact congrArg some (hstored cell h)
  | stack => exact congrArg some (hstored (p.regs.sp - 1) h)
  | _ => exact absurd rfl h

theorem observer?_put (addr : Nat) : (p.put w x).mem.observer? addr = p.mem.observer? addr := by
  cases x <;> rfl

/-- **What was put somewhere is there**, unless it was dropped or there is no cell. -/
theorem fetch_put (hliteral : ∀ v, x ≠ .literal v)
    (hcell : ∀ addr, x.address? (p.put w x).regs.sp = some addr → addr.toNat < p.mem.capacity) :
    ((p.put w x).fetch x).1 = w := by
  have hstored : ∀ {addr : Word}, addr.toNat < p.mem.capacity →
      (p.mem.store addr.toNat w).word addr.toNat = w :=
    fun hlt => (Memory.word_store _ _ _ _).trans (if_pos ⟨rfl, hlt⟩)
  cases x with
  | register r => exact (Registers.get_set _ _ _ _).trans (if_pos rfl)
  | cell addr => exact hstored (hcell addr rfl)
  | stack => exact hstored (hcell _ rfl)
  | literal v => exact absurd rfl (hliteral v)
  | _ => rfl

end Direct

/-! ## What an instruction works on -/

section Operands

variable (p : Processor ω σ) (i : Instruction)

/-- Where the destination of the instruction at PC is. -/
def destination : Place := (Meaning.ofOperand (p.word (p.regs.pc + 1)) i.a).place p.regs

/-- Where its source is. -/
def source : Place :=
  (Meaning.ofOperand (p.word (i.a.after (p.regs.pc + 1))) i.b).place p.regs

/-- The processor with PC past the words of the instruction. -/
def past : Processor ω σ := p.goto (i.b.after (i.a.after (p.regs.pc + 1)))

/-- What the source yields. -/
def sourceWord : Word := ((p.past i).fetch (p.source i)).1

/-- What the destination holds, once the source has been taken. -/
def destinationWord : Word := (((p.past i).fetch (p.source i)).2.fetch (p.destination i)).1

/-- What the operation makes of the two words. -/
def outcome : Alu.Outcome := Alu.compute i.opcode (p.destinationWord i) (p.sourceWord i)

/-- The registers when the result is about to be put at the destination. -/
def settled : Registers :=
  { p.regs with
    pc := (p.past i).regs.pc
    sp := p.regs.sp + i.pops
    ex := (p.outcome i).ex.getD p.regs.ex }

/-- The operation is performed by putting its result. -/
theorem perform_past : (p.past i).perform i.opcode (p.destination i) (p.source i) =
    (p.withRegs (p.settled i)).put (p.outcome i).result (p.destination i) := by
  have hsource : (p.source i).popped p.regs.sp = p.regs.sp + i.b.shift := Place.popped_place ..
  have hdestination : (p.destination i).popped (p.regs.sp + i.b.shift) =
      p.regs.sp + (i.b.shift + i.a.shift) := by
    rw [← UInt16.add_assoc]
    exact Place.popped_place ..
  have hfetched : ((p.past i).fetch (p.source i)).2 =
      p.withRegs { (p.past i).regs with sp := p.regs.sp + i.b.shift } :=
    (fetch_snd _ _).trans (hsource ▸ rfl)
  simp only [perform, settled, Instruction.pops]
  by_cases hset : i.opcode = .set
  · have houtcome : p.outcome i = ⟨p.sourceWord i, none⟩ := by rw [outcome, hset]; rfl
    rw [if_pos hset, if_pos hset, hfetched, houtcome, UInt16.add_zero]
    rfl
  · have houtcome : Alu.compute i.opcode
        (((p.past i).fetch (p.source i)).2.fetch (p.destination i)).1
        ((p.past i).fetch (p.source i)).1 = p.outcome i := rfl
    rw [if_neg hset, if_neg hset, houtcome, putEx_eq, fetch_snd, hfetched, ← hdestination]
    rfl

end Operands

/-! ## Success -/

/-- No cell is observed. -/
def Unobserved (p : Processor ω σ) : Prop := ∀ addr, p.mem.observer? addr = none

namespace Unobserved

variable {p q : Processor ω σ} {i : Instruction} {o : Operand} {x : Place} {addr w : Word}

theorem withRegs (h : p.Unobserved) (regs : Registers) : (p.withRegs regs).Unobserved := h

theorem fetch (h : p.Unobserved) (x : Place) : (p.fetch x).2.Unobserved := by
  rw [fetch_snd]
  exact h.withRegs _

variable [Observer ω σ]

theorem of_read (h : p.Unobserved) (hread : read addr p = .ok w q) :
    addr.toNat < p.mem.capacity ∧ w = p.word addr ∧ q = p := by
  obtain ⟨hlt, rfl, rfl⟩ := of_read_eq_ok hread
  rw [Memory.asked, h addr.toNat]
  exact ⟨hlt, rfl, rfl⟩

theorem of_write (h : p.Unobserved) (hwrite : write addr w p = .ok () q) :
    addr.toNat < p.mem.capacity ∧ q = p.withCell addr w := by
  obtain ⟨hlt, rfl⟩ := of_write_eq_ok hwrite
  rw [Memory.told, h addr.toNat]
  exact ⟨hlt, rfl⟩

theorem of_resolve (h : p.Unobserved) (hresolve : resolve o (p.goto addr) = .ok x q) :
    x = (Meaning.ofOperand (p.word addr) o).place p.regs ∧ q = p.goto (o.after addr) := by
  rw [Operand.after]
  rcases of_resolve_eq_ok hresolve with ⟨huses, extra, hread, hx⟩ | ⟨huses, rfl, hx⟩
  · obtain ⟨-, rfl, rfl⟩ := (h.withRegs _).of_read hread
    rw [if_pos huses]
    exact ⟨hx.trans (Meaning.place_withPc _ _ _), rfl⟩
  · rw [if_neg (huses ▸ Bool.false_ne_true)]
    exact ⟨(hx _).trans (Meaning.place_withPc _ _ _), rfl⟩

/-- **Loading has fetched**… -/
theorem of_load (h : p.Unobserved) (hload : load x p = .ok w q) :
    w = (p.fetch x).1 ∧ q = (p.fetch x).2 := by
  cases x with
  | cell addr => exact (h.of_read hload).2
  | stack =>
    change (read p.regs.sp >>= _) p = _ at hload
    obtain ⟨w', q', hread, hpop⟩ := exists_of_bind_ok hload
    obtain ⟨-, rfl, rfl⟩ := h.of_read hread
    cases hpop
    exact ⟨rfl, rfl⟩
  | _ =>
    cases hload
    exact ⟨rfl, rfl⟩

/-- …**and storing has put**, where there is a cell if it takes one. -/
theorem of_store (h : p.Unobserved) (hstore : store w x p = .ok () q) :
    q = p.put w x ∧ ∀ addr, x.address? q.regs.sp = some addr → addr.toNat < p.mem.capacity := by
  cases x with
  | cell addr =>
    obtain ⟨hlt, rfl⟩ := h.of_write hstore
    exact ⟨rfl, fun addr' haddr => Option.some.inj haddr ▸ hlt⟩
  | stack =>
    change write (p.regs.sp - 1) w (p.withRegs { p.regs with sp := p.regs.sp - 1 }) = _ at hstore
    obtain ⟨hlt, rfl⟩ := (h.withRegs _).of_write hstore
    exact ⟨rfl, fun addr haddr => Option.some.inj haddr ▸ hlt⟩
  | _ =>
    cases hstore
    exact ⟨rfl, fun _ haddr => nomatch haddr⟩

/-- **An instruction that has succeeded has performed its operation**, and there was a cell for what
it stored. -/
theorem of_execute (h : p.Unobserved) (hop : i.opcode ≠ .nop)
    (hexecute : execute i (p.goto (p.regs.pc + 1)) = .ok () q) :
    q = (p.past i).perform i.opcode (p.destination i) (p.source i) ∧
      ∀ addr, (p.destination i).address? q.regs.sp = some addr → addr.toNat < p.mem.capacity := by
  obtain ⟨x, p₁, y, p₂, v, p₃, r, p₄, ha, hb, hload, hresult, hstore⟩ :=
    exists_of_execute hop hexecute
  obtain ⟨rfl, rfl⟩ := h.of_resolve ha
  obtain ⟨rfl, rfl⟩ := h.of_resolve hb
  obtain ⟨rfl, rfl⟩ := (h.withRegs _).of_load hload
  have hsource : ((p.past i).fetch (p.source i)).2.Unobserved := fetch (h.withRegs _) _
  change store r (p.destination i) p₄ = .ok () q at hstore
  by_cases hset : i.opcode = .set
  · rw [result, if_pos hset] at hresult
    cases hresult
    obtain ⟨hq, hcell⟩ := hsource.of_store hstore
    simp only [perform, if_pos hset]
    rw [fetch_snd] at hcell
    exact ⟨hq, hcell⟩
  · rw [result, if_neg hset] at hresult
    obtain ⟨w, p₅, hload, hdone⟩ := exists_of_bind_ok hresult
    obtain ⟨rfl, rfl⟩ := hsource.of_load hload
    cases hdone
    obtain ⟨hq, hcell⟩ := ((hsource.fetch _).withRegs _).of_store hstore
    simp only [perform, if_neg hset, putEx_eq]
    simp only [fetch_snd] at hcell
    exact ⟨hq, hcell⟩

/-- **A step that has succeeded** has put the result of its operation at its destination, over the
registers as the operands have left them; a NOP has only gone on. -/
theorem of_step (h : p.Unobserved) (hstep : step p = .ok i q) :
    if i.opcode = .nop then q = (p.goto (p.regs.pc + 1)).completed i
    else
      q = ((p.withRegs (p.settled i)).put (p.outcome i).result (p.destination i)).completed i ∧
        ∀ addr, (p.destination i).address? q.regs.sp = some addr →
          addr.toNat < p.mem.capacity := by
  obtain ⟨word, p', q', hread, -, hexecute, rfl⟩ := exists_of_step hstep
  obtain ⟨-, -, rfl⟩ := h.of_read hread
  split
  · next hop =>
    rw [execute_nop hop] at hexecute
    cases hexecute
    rfl
  · next hop =>
    obtain ⟨rfl, hcell⟩ := h.of_execute hop hexecute
    rw [perform_past] at hcell ⊢
    exact ⟨rfl, hcell⟩

end Unobserved

end Processor

end WordMachine
