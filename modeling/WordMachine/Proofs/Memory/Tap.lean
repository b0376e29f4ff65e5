import WordMachine.Proofs.Lockstep
import WordMachine.Proofs.Memory.Access

/-!
# Proofs/Memory/Tap — what was read and stored, and when

A tap in front of every cell of a memory notes each access to the cell, with the world as it was
then, and passes the access on to the observer that the cell has (`Memory.tapped`).  Nothing else
changes: plain and tapped memory are in lockstep (`Tapped.agreement`).  So the events of whatever a
processor does are those that it has noted once it has done the same over the tapped memory
(`Processor.events`).

What reads and writes keep of memory, world and events so far is an `Account`, and whatever a
processor does keeps it: `Processor.account_exec` and `Processor.account_interrupt`.
-/

namespace WordMachine

namespace Memory

variable {ω σ : Type}

/-- An access to a cell, with the world before anybody was told of it. -/
inductive Event (σ : Type) where
  | read (addr : Nat) (world : σ)
  | write (addr : Nat) (w : Word) (world : σ)

/-- The memory after the stores among some events. -/
def replay (m : Memory ω) (events : List (Event σ)) : Memory ω :=
  events.foldl (fun m event =>
    match event with
    | .read .. => m
    | .write addr w _ => m.store addr w) m

theorem replay_concat_read (m : Memory ω) (events : List (Event σ)) (addr : Nat) (world : σ) :
    m.replay (events ++ [.read addr world]) = m.replay events := by
  simp [replay]

theorem replay_concat_write (m : Memory ω) (events : List (Event σ)) (addr : Nat) (w : Word)
    (world : σ) :
    m.replay (events ++ [.write addr w world]) = (m.replay events).store addr w := by
  simp [replay]

/-- What stands in front of the observer of a cell. -/
structure Tap (ω : Type) where
  addr : Nat
  inner : Option ω

namespace Tap

variable [Observer ω σ]

def onWrite (tap : Tap ω) (w : Word) : σ × List (Event σ) → σ × List (Event σ)
  | (world, events) =>
    (match tap.inner with
      | none => world
      | some observer => Observer.onWrite observer w world,
    events ++ [.write tap.addr w world])

def onRead (tap : Tap ω) : σ × List (Event σ) → Option Word × σ × List (Event σ)
  | (world, events) =>
    match tap.inner with
    | none => (none, world, events ++ [.read tap.addr world])
    | some observer =>
      match Observer.onRead observer world with
      | (supplied, world') => (supplied, world', events ++ [.read tap.addr world])

instance : Observer (Tap ω) (σ × List (Event σ)) := ⟨onWrite, onRead⟩

end Tap

/-- The same cells, each with a tap in front of its observer. -/
def tapped (m : Memory ω) : Memory (Tap ω) where
  cells := m.cells
  observers := m.observers.mapIdx fun addr observer => some ⟨addr, observer⟩
  size_observers := by simp [m.size_observers]

theorem observer?_tapped {m : Memory ω} {addr : Nat} (h : addr < m.capacity) :
    m.tapped.observer? addr = some ⟨addr, m.observer? addr⟩ := by
  have hlt : addr < m.observers.size := m.size_observers_eq.symm ▸ h
  simp [tapped, observer?, hlt]

/-- A tapped memory is that of one plain memory. -/
theorem tapped_inj {m n : Memory ω} (h : m.tapped = n.tapped) : m = n := by
  have hcell : ∀ addr, m.cell? addr = n.cell? addr := fun addr => congrArg (·.cell? addr) h
  have hcapacity : m.capacity = n.capacity := capacity_congr hcell
  refine ext_cells hcell fun addr => ?_
  by_cases hlt : addr < m.capacity
  · have hobserver := congrArg (·.observer? addr) h
    simp only [observer?_tapped hlt, observer?_tapped (hcapacity ▸ hlt)] at hobserver
    exact (Tap.mk.inj (Option.some.inj hobserver)).2
  · rw [observer?_eq_none_of_capacity_le (Nat.le_of_not_lt hlt),
      observer?_eq_none_of_capacity_le (hcapacity ▸ Nat.le_of_not_lt hlt)]

/-- The plain memory and world under a tapped one. -/
structure Tapped (s : Memory ω × σ) (t : Memory (Tap ω) × (σ × List (Event σ))) : Prop where
  memory : t.1 = s.1.tapped
  world : t.2.1 = s.2

variable [Observer ω σ]

theorem told_tapped {m : Memory ω} {addr : Nat} (h : addr < m.capacity) (w : Word) (world : σ)
    (events : List (Event σ)) :
    m.tapped.told addr w (world, events) =
      (m.told addr w world, events ++ [.write addr w world]) := by
  rw [told, observer?_tapped h]
  rfl

theorem asked_tapped {m : Memory ω} {addr : Nat} (h : addr < m.capacity) (world : σ)
    (events : List (Event σ)) :
    m.tapped.asked addr (world, events) =
      ((m.asked addr world).1, (m.asked addr world).2, events ++ [.read addr world]) := by
  rw [asked, observer?_tapped h, asked]
  change Tap.onRead _ _ = _
  rw [Tap.onRead]
  cases m.observer? addr <;> rfl

/-- **A tap makes no difference to reads and writes.** -/
theorem Tapped.agreement : Agreement (Tapped (ω := ω) (σ := σ)) := by
  refine agreement_of ?_ ?_ ?_
  · rintro m world tappedMem world' ⟨hmem, -⟩ addr
    obtain rfl : tappedMem = m.tapped := hmem
    rfl
  · rintro m world tappedMem ⟨world', events⟩ addr hlt ⟨hmem, hworld⟩
    obtain rfl : tappedMem = m.tapped := hmem
    obtain rfl : world' = world := hworld
    rw [asked_tapped hlt]
    exact ⟨rfl, rfl, rfl⟩
  · rintro m world tappedMem ⟨world', events⟩ addr w hlt ⟨hmem, hworld⟩
    obtain rfl : tappedMem = m.tapped := hmem
    obtain rfl : world' = world := hworld
    rw [told_tapped hlt]
    exact ⟨rfl, rfl⟩

/-- What reads and writes keep of memory, world and the events so far. -/
structure Account (I : Memory ω × σ → List (Event σ) → Prop) : Prop where
  read : ∀ {m world events addr}, addr < m.capacity → I (m, world) events →
    I (m, (m.asked addr world).2) (events ++ [.read addr world])
  write : ∀ {m world events addr} (w : Word), addr < m.capacity → I (m, world) events →
    I (m.store addr w, m.told addr w world) (events ++ [.write addr w world])

/-- An account of a tapped memory, with what happened before it was tapped. -/
def Accounted (I : Memory ω × σ → List (Event σ) → Prop) (before : List (Event σ))
    (t : Memory (Tap ω) × (σ × List (Event σ))) : Prop :=
  ∃ m, t.1 = m.tapped ∧ I (m, t.2.1) (before ++ t.2.2)

theorem Account.agreement {I : Memory ω × σ → List (Event σ) → Prop} (h : Account I)
    (before : List (Event σ)) :
    Agreement fun t u : Memory (Tap ω) × (σ × List (Event σ)) => t = u ∧ Accounted I before t where
  read addr := by
    refine keeps_read_of ?_
    rintro tappedMem ⟨world, events⟩ hlt ⟨m, hmem, hI⟩
    obtain rfl : tappedMem = m.tapped := hmem
    have hread : I (m, (m.asked addr world).2) (before ++ events ++ [.read addr world]) :=
      h.read hlt hI
    rw [List.append_assoc] at hread
    rw [asked_tapped (m := m) hlt]
    exact ⟨m, rfl, hread⟩
  write addr value := by
    refine keeps_write_of ?_
    rintro tappedMem ⟨world, events⟩ hlt ⟨m, hmem, hI⟩
    obtain rfl : tappedMem = m.tapped := hmem
    have hwrite : I (m.store addr (UInt16.ofNat value), m.told addr (UInt16.ofNat value) world)
        (before ++ events ++ [.write addr (UInt16.ofNat value) world]) := h.write _ hlt hI
    rw [List.append_assoc] at hwrite
    rw [told_tapped (m := m) hlt]
    exact ⟨m.store addr (UInt16.ofNat value), rfl, hwrite⟩

end Memory

namespace Processor

open Memory (Event Tap Tapped Account Accounted)

variable {ω σ α : Type}

/-- The processor over the tapped memory, before any event. -/
def tapped (p : Processor ω σ) : Processor (Tap ω) (σ × List (Event σ)) :=
  { regs := p.regs, mem := p.mem.tapped, world := (p.world, []), cycles := p.cycles
    last := p.last }

theorem tapped_alike (p : Processor ω σ) : Alike Tapped p p.tapped := ⟨rfl, ⟨rfl, rfl⟩, rfl, rfl⟩

/-- The events while something is done, which is given as done over the tapped memory. -/
def events (act : Action (Tap ω) (σ × List (Event σ)) α) (p : Processor ω σ) : List (Event σ) :=
  (stateOf (act p.tapped)).world.2

variable {I : Memory ω × σ → List (Event σ) → Prop} {p : Processor ω σ} {before : List (Event σ)}

/-- **What reads and writes keep account of, an action does too**, if it is in lockstep with the
same over the tapped memory. -/
theorem account_of_lockstep {f : Action ω σ α} {act : Action (Tap ω) (σ × List (Event σ)) α}
    (hf : Lockstep (Alike Tapped) f act)
    (hact : Lockstep (Alike fun t u => t = u ∧ Accounted I before t) act act)
    (hp : I (p.mem, p.world) before) :
    I ((stateOf (f p)).mem, (stateOf (f p)).world) (before ++ events act p) := by
  have hstart : Accounted I before (p.tapped.mem, p.tapped.world) :=
    ⟨p.mem, rfl, (List.append_nil before).symm ▸ hp⟩
  -- The account is kept over the tapped memory, and the lockstep brings it back to the plain one.
  obtain ⟨m, hm, hI⟩ := keeps_iff.mp (keeps_of_lockstep hact) p.tapped hstart
  have halike : Tapped ((stateOf (f p)).mem, (stateOf (f p)).world)
      ((stateOf (act p.tapped)).mem, (stateOf (act p.tapped)).world) := by
    have hend := hf (tapped_alike p)
    generalize f p = x at hend ⊢
    generalize act p.tapped = y at hend ⊢
    cases hend with
    | ok a h => exact h.memory
    | error e h => exact h.memory
  obtain rfl : (stateOf (f p)).mem = m := Memory.tapped_inj (halike.memory.symm.trans hm)
  rw [events]
  rwa [halike.world] at hI

variable [Observer ω σ]
variable (hI : Account I)
include hI

/-- A run keeps the account… -/
theorem account_exec (hp : I (p.mem, p.world) before) (n : Nat) :
    I ((stateOf (exec n p)).mem, (stateOf (exec n p)).world) (before ++ events (exec n) p) :=
  account_of_lockstep (lockstep_exec Tapped.agreement n) (lockstep_exec (hI.agreement before) n) hp

/-- …and so does the delivery of an interrupt. -/
theorem account_interrupt (hp : I (p.mem, p.world) before) (message : Word) :
    I ((stateOf (interrupt message p)).mem, (stateOf (interrupt message p)).world)
      (before ++ events (interrupt message) p) :=
  account_of_lockstep (lockstep_interrupt Tapped.agreement message)
    (lockstep_interrupt (hI.agreement before) message) hp

end Processor

end WordMachine
