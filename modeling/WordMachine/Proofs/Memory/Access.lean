import WordMachine.Memory.Lemmas
import WordMachine.Proofs.Lockstep

/-!
# Proofs/Memory/Access — reads and writes, observer and cell apart

A read asks the observer (`asked`) and falls back on the stored word; a write stores and then tells
the observer (`told`).  Where there is a cell both succeed (`read_eq`, `write_eq`); past the end
both fail and leave everything as it is.  So what they keep of memory and world is what asking,
storing and telling keep (`keeps_read_of`, `keeps_write_of`), and likewise for the reads and writes
of two memories side by side (`agreement_of`).  A processor's reads and writes are these.
-/

namespace WordMachine

namespace Memory

variable {ω σ : Type}

/-- The stored word at an address, 0 past the end. -/
def word (m : Memory ω) (addr : Nat) : Word := (m.cell? addr).getD 0

theorem word_store (m : Memory ω) (addr place : Nat) (w : Word) :
    (m.store addr w).word place =
      if addr = place ∧ place < m.capacity then w else m.word place := by
  simp only [word, cell?_store]
  split <;> rfl

/-- Memories that show the same cells have the same number of them. -/
theorem capacity_congr {ω' : Type} {m : Memory ω} {n : Memory ω'}
    (h : ∀ addr, m.cell? addr = n.cell? addr) : m.capacity = n.capacity := by
  refine Nat.le_antisymm ?_ ?_
  · rw [← cell?_eq_none_iff, h]
    exact cell?_eq_none_iff.mpr (Nat.le_refl _)
  · rw [← cell?_eq_none_iff, ← h]
    exact cell?_eq_none_iff.mpr (Nat.le_refl _)

variable [Observer ω σ]

/-- What the observer of an address, if it has one, answers to a read. -/
def asked (m : Memory ω) (addr : Nat) (world : σ) : Option Word × σ :=
  match m.observer? addr with
  | none => (none, world)
  | some observer => Observer.onRead observer world

/-- The world after the observer of an address, if it has one, was told of a stored word. -/
def told (m : Memory ω) (addr : Nat) (w : Word) (world : σ) : σ :=
  match m.observer? addr with
  | none => world
  | some observer => Observer.onWrite observer w world

theorem read_eq {m : Memory ω} {addr : Nat} (h : addr < m.capacity) (world : σ) :
    read addr (m, world) =
      .ok ((m.asked addr world).1.getD (m.word addr)) (m, (m.asked addr world).2) := by
  have hword : m.cells.getD addr 0 = m.word addr := by
    simp [word, cell?, Array.getD_eq_getD_getElem?]
  simp only [read, within, h, if_true, hword, asked]
  cases m.observer? addr <;> rfl

theorem read_eq_error {m : Memory ω} {addr : Nat} (h : m.capacity ≤ addr) (world : σ) :
    read addr (m, world) = .error (.outOfRange addr m.capacity) (m, world) := by
  simp [read, within, Nat.not_lt.mpr h]

theorem write_eq {m : Memory ω} {addr : Nat} (h : addr < m.capacity) (value : Nat) (world : σ) :
    write addr value (m, world) =
      .ok () (m.store addr (UInt16.ofNat value), m.told addr (UInt16.ofNat value) world) := by
  simp only [write, within, h, if_true, told]
  cases m.observer? addr <;> rfl

theorem write_eq_error {m : Memory ω} {addr : Nat} (h : m.capacity ≤ addr) (value : Nat)
    (world : σ) :
    write addr value (m, world) = .error (.outOfRange addr m.capacity) (m, world) := by
  simp [write, within, Nat.not_lt.mpr h]

/-- A read keeps what asking the observer keeps… -/
theorem keeps_read_of {P : Memory ω × σ → Prop} {addr : Nat}
    (h : ∀ m world, addr < m.capacity → P (m, world) → P (m, (m.asked addr world).2)) :
    Keeps P (read addr) := by
  refine keeps_iff.mpr fun ⟨m, world⟩ hP => ?_
  by_cases hlt : addr < m.capacity
  · rw [read_eq hlt]
    exact h m world hlt hP
  · rw [read_eq_error (Nat.le_of_not_lt hlt)]
    exact hP

/-- …and a write what storing and telling the observer keep. -/
theorem keeps_write_of {P : Memory ω × σ → Prop} {addr value : Nat}
    (h : ∀ m world, addr < m.capacity → P (m, world) →
      P (m.store addr (UInt16.ofNat value), m.told addr (UInt16.ofNat value) world)) :
    Keeps P (write addr value) := by
  refine keeps_iff.mpr fun ⟨m, world⟩ hP => ?_
  by_cases hlt : addr < m.capacity
  · rw [write_eq hlt]
    exact h m world hlt hP
  · rw [write_eq_error (Nat.le_of_not_lt hlt)]
    exact hP

/-- **Memories that show the same cells agree** if their observers give the same answers, and what
these are asked and told keeps the relation. -/
theorem agreement_of {ω' σ' : Type} [Observer ω' σ'] {R : Memory ω × σ → Memory ω' × σ' → Prop}
    (hcell : ∀ {m world n world'}, R (m, world) (n, world') →
      ∀ addr, m.cell? addr = n.cell? addr)
    (hread : ∀ {m world n world'} addr, addr < m.capacity → R (m, world) (n, world') →
      (m.asked addr world).1 = (n.asked addr world').1 ∧
        R (m, (m.asked addr world).2) (n, (n.asked addr world').2))
    (hwrite : ∀ {m world n world'} addr w, addr < m.capacity → R (m, world) (n, world') →
      R (m.store addr w, m.told addr w world) (n.store addr w, n.told addr w world')) :
    Agreement R where
  read addr := by
    rintro ⟨m, world⟩ ⟨n, world'⟩ h
    have hcapacity : m.capacity = n.capacity := capacity_congr (hcell h)
    by_cases hlt : addr < m.capacity
    · have hword : m.word addr = n.word addr := congrArg (·.getD 0) (hcell h addr)
      obtain ⟨hanswer, hend⟩ := hread addr hlt h
      rw [read_eq hlt, read_eq (hcapacity ▸ hlt), hanswer, hword]
      exact .ok _ hend
    · rw [read_eq_error (Nat.le_of_not_lt hlt), read_eq_error (hcapacity ▸ Nat.le_of_not_lt hlt),
        hcapacity]
      exact .error _ h
  write addr value := by
    rintro ⟨m, world⟩ ⟨n, world'⟩ h
    have hcapacity : m.capacity = n.capacity := capacity_congr (hcell h)
    by_cases hlt : addr < m.capacity
    · rw [write_eq hlt, write_eq (hcapacity ▸ hlt)]
      exact .ok _ (hwrite addr _ hlt h)
    · rw [write_eq_error (Nat.le_of_not_lt hlt),
        write_eq_error (hcapacity ▸ Nat.le_of_not_lt hlt), hcapacity]
      exact .error _ h

end Memory

namespace Processor

variable {ω σ : Type} [Observer ω σ] {p : Processor ω σ} {addr : Word}

theorem read_eq (h : addr.toNat < p.mem.capacity) :
    read addr p =
      .ok ((p.mem.asked addr.toNat p.world).1.getD (p.mem.word addr.toNat))
        { p with world := (p.mem.asked addr.toNat p.world).2 } := by
  obtain ⟨regs, mem, world, cycles, last⟩ := p
  simp only [read, onMemory, Memory.read_eq h]

theorem write_eq (h : addr.toNat < p.mem.capacity) (w : Word) :
    write addr w p =
      .ok () { p with
        mem := p.mem.store addr.toNat w
        world := p.mem.told addr.toNat w p.world } := by
  obtain ⟨regs, mem, world, cycles, last⟩ := p
  simp only [write, onMemory, Memory.write_eq h, UInt16.ofNat_toNat]

theorem write_eq_error (h : p.mem.capacity ≤ addr.toNat) (w : Word) :
    write addr w p = .error (.memory (.outOfRange addr.toNat p.mem.capacity)) p := by
  obtain ⟨regs, mem, world, cycles, last⟩ := p
  simp only [write, onMemory, Memory.write_eq_error h]

end Processor

end WordMachine
