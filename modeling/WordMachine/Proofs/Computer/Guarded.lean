import WordMachine.Proofs.Assembly.Program
import WordMachine.Proofs.Bus.Guarded
import WordMachine.Proofs.Computer.Schedule
import WordMachine.Proofs.Processor.Width

/-!
# Proofs/Computer/Guarded — a computer with a cell for every address

A computer with as many cells as there are addresses keeps them (`Full`), and then an operation can
end with few errors (`Operation.Permits`): a source text that is no program, an instruction word at
fault, or words and cells asked for that lie past the last address.  A program always fits, wires
can always be moved, and devices tick and interrupt whatever SP holds.  Main statement:
`succeeds_or_permits`.
-/

namespace WordMachine

open Bus (Board Uniform)

namespace Memory

/-- Why words are not loaded. -/
theorem load_eq_error {ω σ : Type} {mem : Memory ω} {world : σ} {addr : Nat} {words : List Word}
    {e : Error} {s : Memory ω × σ} (h : load addr words (mem, world) = .error e s) :
    mem.capacity ≤ addr ∧ e = .outOfRange addr mem.capacity ∨
      addr < mem.capacity ∧ mem.capacity < addr + words.length ∧
        e = .programTooLarge words.length (mem.capacity - addr) := by
  unfold load at h
  split at h
  · next hlt =>
    change addr < mem.capacity at hlt
    split at h
    · cases h
    · next hlarge =>
      change ¬ words.length ≤ mem.capacity - addr at hlarge
      cases h
      exact .inr ⟨hlt, by omega, rfl⟩
  · next hge =>
    cases h
    exact .inl ⟨Nat.le_of_not_lt hge, rfl⟩

end Memory

namespace Computer

/-- The errors an operation can end with where every address has a cell. -/
inductive Operation.Permits : Operation → Error → Prop where
  | assembly {source : Text} {e : Assembly.Error} (h : Assembly.assemble? source = .error e) :
    Permits (.loadAssembly source) (.assembly e)
  | run (n : Nat) {fault : Processor.Fault} (h : fault.OfWord) : Permits (.run n) (.fault fault)
  | runFrame {fault : Processor.Fault} (h : fault.OfWord) : Permits .runFrame (.fault fault)
  | step {fault : Processor.Fault} (h : fault.OfWord) : Permits .step (.fault fault)
  | imageTooLarge {words : List Word} (h : Word.count < words.length) :
    Permits (.loadImage words) (.memory (.programTooLarge words.length Word.count))
  | read {addr : Nat} (h : Word.count ≤ addr) :
    Permits (.read addr) (.memory (.outOfRange addr Word.count))
  | write {addr : Nat} (h : Word.count ≤ addr) (value : Nat) :
    Permits (.write addr value) (.memory (.outOfRange addr Word.count))
  | load {addr : Nat} (h : Word.count ≤ addr) (words : List Word) :
    Permits (.load addr words) (.memory (.outOfRange addr Word.count))
  | tooLarge {addr : Nat} {words : List Word} (h : addr < Word.count)
    (h' : Word.count < addr + words.length) :
    Permits (.load addr words) (.memory (.programTooLarge words.length (Word.count - addr)))

/-- A furnished computer with a cell for every address. -/
structure Full (c : Computer) : Prop extends c.Furnished where
  full : c.board.Full

variable {α : Type} {E : Error → Prop}

namespace Full

theorem of_sameWiring {c : Computer} (h : c.Full) {board : Board}
    (hsame : SameWiring (c.board.mem, c.board.world) (board.mem, board.world)) :
    ({ c with board } : Computer).Full :=
  ⟨h.toFurnished.of_sameWiring hsame, hsame.capacity.trans h.full⟩

theorem keyUp {c : Computer} (h : c.Full) (code : Word) : (c.keyUp code).Full :=
  ⟨h.toFurnished.keyUp code, h.full⟩

theorem takeDirty {c : Computer} (h : c.Full) : c.takeDirty.2.Full := by
  refine ⟨h.toFurnished.takeDirty, ?_⟩
  unfold Computer.takeDirty
  split
  · exact h.full
  · exact h.full

end Full

/-! ## The parts of an operation -/

/-- What a board can do is guarded as it is on the board alone. -/
theorem guarded_onBoard {act : Board.Action α} {F : Processor.Fault → Prop}
    (hact : Uniform displaySlot act) (h : Guarded Processor.Full F act)
    (hF : ∀ fault, F fault → E (.fault fault)) : Guarded Full E (onBoard act) where
  keeps := by
    refine keeps_iff.mpr fun c hc => ?_
    rw [stateOf_onBoard]
    exact hc.of_sameWiring (hc.toWired.sameWiring_act hact)
  error := by
    intro c hc e t hend
    rw [onBoard_eq] at hend
    cases hacted : act c.board with
    | ok a board =>
      simp only [hacted] at hend
      cases hend
    | error fault board =>
      simp only [hacted] at hend
      cases hend
      exact hF _ (h.error hc.full hacted)

theorem guarded_onMemory {wrap : Memory.Error → Error} {access : Memory.Access Wire Bus α}
    (haccess : ∀ s, Keeps (SameWiring s) access)
    (hE : ∀ {mem bus}, mem.capacity = Word.count →
      ∀ {e s}, access (mem, bus) = .error e s → E (wrap e)) :
    Guarded Full E (onMemory wrap access) where
  keeps := by
    refine keeps_iff.mpr fun c hc => ?_
    rw [stateOf_onMemory]
    exact hc.of_sameWiring (hc.toWired.sameWiring_access haccess)
  error := by
    intro c hc e t hend
    rw [onMemory_eq] at hend
    cases haccessed : access (c.board.mem, c.board.world) with
    | ok a s =>
      simp only [haccessed] at hend
      cases hend
    | error e' s =>
      simp only [haccessed] at hend
      cases hend
      exact hE hc.full haccessed

/-- **The wires can always be moved.** -/
theorem guarded_rewire : Guarded Full E rewire :=
  .of_exists_ok fun c hc => by
    obtain ⟨mem, hrewire, hcells, -⟩ := exists_rewire hc.toWired
    have hfurnished := keeps_rewire.of_ok hc.toFurnished hrewire
    exact ⟨(), _, hrewire, hfurnished, (Memory.capacity_congr hcells).trans hc.full⟩

theorem guarded_tickDevices : Guarded Full E tickDevices :=
  Guarded.get.bind fun c =>
    (guarded_onBoard (Bus.uniform_tick c.now) (Bus.guarded_tick (E := fun _ => False) c.now)
      fun _ h => h.elim).bind fun _ => guarded_rewire

theorem guarded_run (n : Nat) (hE : ∀ fault : Processor.Fault, fault.OfWord → E (.fault fault)) :
    Guarded Full E (run n) :=
  (guarded_onBoard (Bus.uniform_exec n) (Processor.guarded_exec n) hE).bind fun _ =>
    guarded_tickDevices

theorem guarded_loadImage {words : List Word}
    (hE : Word.count < words.length → E (.memory (.programTooLarge words.length Word.count))) :
    Guarded Full E (loadImage words) := by
  refine (guarded_onMemory (fun _ => SameWiring.keeps_load 0 words) ?_).bind fun _ =>
    (Guarded.modify fun c hc => ?_).bind fun _ => guarded_rewire
  · intro mem bus hcapacity e s hload
    rcases Memory.load_eq_error hload with ⟨hle, -⟩ | ⟨-, hlarge, rfl⟩
    · rw [hcapacity] at hle
      exact absurd hle (by decide)
    · rw [hcapacity, Nat.zero_add] at hlarge
      rw [hcapacity]
      exact hE hlarge
  · exact ⟨hc.toFurnished.reset, hc.full⟩

/-- **A source text that is a program fits.** -/
theorem guarded_loadAssembly {source : Text}
    (hE : ∀ e, Assembly.assemble? source = .error e → E (.assembly e)) :
    Guarded Full E (loadAssembly source) := by
  unfold loadAssembly
  split
  · next hsource => exact .throw (hE _ hsource)
  · next program hsource =>
    refine (guarded_loadImage fun hlarge => ?_).bind fun _ => .pure _
    exact absurd hlarge (Nat.not_lt.mpr (Assembly.length_words_le hsource))

/-! ## Operations -/

/-- **An operation keeps a full computer full**, and ends with no error that is not permitted. -/
theorem Operation.guarded (op : Operation) : Guarded Full op.Permits op.act := by
  cases op with
  | loadAssembly source =>
    exact (guarded_loadAssembly fun _ => .assembly).bind fun _ => .pure ()
  | loadImage words => exact guarded_loadImage .imageTooLarge
  | run n => exact guarded_run n fun _ => .run n
  | runFrame => exact Guarded.get.bind fun _ => guarded_run _ fun _ => .runFrame
  | step =>
    exact ((guarded_onBoard Bus.uniform_step Processor.guarded_step fun _ => .step).bind fun _ =>
      guarded_rewire.bind fun _ => .pure _).bind fun _ => .pure ()
  | tickDevices => exact guarded_tickDevices
  | reset => exact .modify fun _ hc => ⟨hc.toFurnished.reset, hc.full⟩
  | keyDown code =>
    exact (guarded_onBoard (Bus.uniform_pressKey keyboardSlot code)
      (Bus.guarded_pressKey (E := fun _ => False) keyboardSlot code) fun _ h => h.elim).bind
      fun _ => .pure ()
  | keyUp code => exact .modify fun _ hc => hc.keyUp code
  | takeDirty => exact .modify fun _ hc => hc.takeDirty
  | advance nanoseconds =>
    exact .modify fun c hc =>
      ⟨(hc.toFurnished.after (.advance nanoseconds) :), hc.full⟩
  | setRegisters regs =>
    exact guarded_onBoard (fun _ _ => Processor.lockstep_onRegs fun _ => regs)
      ((Processor.guards_full (E := fun _ => False)).onRegs fun _ => regs) fun _ h => h.elim
  | read addr =>
    refine (guarded_onMemory (fun _ => SameWiring.keeps_read addr) ?_).bind fun _ => .pure ()
    intro mem bus hcapacity e s hread
    by_cases hlt : addr < mem.capacity
    · rw [Memory.read_eq hlt] at hread
      cases hread
    · rw [Memory.read_eq_error (Nat.le_of_not_lt hlt), hcapacity] at hread
      cases hread
      exact .read (hcapacity ▸ Nat.le_of_not_lt hlt)
  | write addr value =>
    refine guarded_onMemory (fun _ => SameWiring.keeps_write addr value) ?_
    intro mem bus hcapacity e s hwrite
    by_cases hlt : addr < mem.capacity
    · rw [Memory.write_eq hlt] at hwrite
      cases hwrite
    · rw [Memory.write_eq_error (Nat.le_of_not_lt hlt), hcapacity] at hwrite
      cases hwrite
      exact .write (hcapacity ▸ Nat.le_of_not_lt hlt) value
  | load addr words =>
    refine guarded_onMemory (fun _ => SameWiring.keeps_load addr words) ?_
    intro mem bus hcapacity e s hload
    rcases Memory.load_eq_error hload with ⟨hle, rfl⟩ | ⟨hlt, hlarge, rfl⟩
    · rw [hcapacity] at hle ⊢
      exact .load hle words
    · rw [hcapacity] at hlt hlarge ⊢
      exact .tooLarge hlt hlarge
  | clear =>
    exact .modify fun c hc =>
      ⟨(hc.toFurnished.after .clear :), (Memory.capacity_clear _).trans hc.full⟩

/-- A computer is built with the cells of its configuration. -/
theorem capacity_of_ofConfig {config : Config} {c : Computer} (h : ofConfig config = .ok c) :
    c.mem.capacity = config.memoryWords.toNat := by
  obtain ⟨bus, -, -, rfl⟩ := of_ofConfig h
  exact (Bus.capacity_attached _ _).trans (Memory.capacity_ofCapacity _)

/-- The computer after some operations, one after the other. -/
def afterAll (ops : List Operation) (c : Computer) : Computer :=
  ops.foldl (fun c op => op.after c) c

theorem Full.afterAll {c : Computer} (h : c.Full) (ops : List Operation) :
    (c.afterAll ops).Full := by
  induction ops generalizing c with
  | nil => exact h
  | cons op ops ih => exact ih (keeps_iff.mp op.guarded.keeps c h)

theorem full_of_ofConfig {config : Config} {c : Computer} (h : ofConfig config = .ok c)
    (hwords : config.memoryWords.toNat = Word.count) : c.Full :=
  ⟨furnished_of_ofConfig h, (capacity_of_ofConfig h).trans hwords⟩

/-- **What can go wrong where every address has a cell.**  After any operations, whether or not they
have succeeded, an operation succeeds or ends with an error that is permitted to it: a tick of the
devices, a key or a reset with none at all, the load of a source text with an error of the
assembler, and a run or a step with the fault of an instruction word, which has one of the three
numbers without an operation or a literal as its destination.  Double words are wide enough for
every operation of the arithmetic, so that nothing is lost there either. -/
theorem succeeds_or_permits {config : Config} {c : Computer} (h : ofConfig config = .ok c)
    (hwords : config.memoryWords.toNat = Word.count) (ops : List Operation) :
    (∀ op : Operation, op.succeeds (c.afterAll ops) = true ∨
        ∃ e, op.act (c.afterAll ops) = .error e (op.after (c.afterAll ops)) ∧ op.Permits e) ∧
      Operation.tickDevices.succeeds (c.afterAll ops) = true ∧
      (∀ code, (Operation.keyDown code).succeeds (c.afterAll ops) = true) ∧
      ∀ code a b, Alu.compute32? code a b = some (Alu.compute code a b) := by
  have hfull := (full_of_ofConfig h hwords).afterAll ops
  have hops : ∀ op : Operation, op.succeeds (c.afterAll ops) = true ∨
      ∃ e, op.act (c.afterAll ops) = .error e (op.after (c.afterAll ops)) ∧ op.Permits e := by
    intro op
    cases hsucceeds : op.succeeds (c.afterAll ops) with
    | true => exact .inl rfl
    | false =>
      obtain ⟨e, hend⟩ := Operation.act_of_not_succeeds hsucceeds
      exact .inr ⟨e, hend, op.guarded.error hfull hend⟩
  refine ⟨hops, (hops .tickDevices).resolve_right ?_, fun code =>
    (hops (.keyDown code)).resolve_right ?_, fun code a b => Alu.compute32?_eq a b code⟩
  · rintro ⟨e, -, ⟨⟩⟩
  · rintro ⟨e, -, ⟨⟩⟩

/-- A computer can be built if its configuration is valid and its wires lie within the memory. -/
theorem exists_ofConfig {config : Config} {bus : Bus} (hvalid : config.validate = .ok ())
    (hbus : wiredBus config = .ok bus)
    (hwires : ∀ entry ∈ bus.allWires, entry.1 < config.memoryWords.toNat) :
    ∃ c, ofConfig config = .ok c := by
  have hmemory : ∀ entry ∈ bus.allWires,
      entry.1 < (Memory.ofCapacity config.memoryWords.toNat : Memory Wire).capacity := by
    rwa [Memory.capacity_ofCapacity]
  have hattach := Bus.attach_eq hmemory
  unfold ofConfig
  simp only [hvalid, hbus, hattach]
  exact ⟨_, rfl⟩

/-- A clock that interrupts, while PC and SP stand at the two ends of the addresses. -/
def interrupting : List Operation :=
  [.write 0xF000 7, .write 0xF001 1, .advance 1000000000,
    .setRegisters { pc := 0xFFFF, sp := 0, ia := 1 }]

theorem succeeds_or_permits_interrupting :
    ∃ c, ofConfig {} = .ok c ∧ Operation.tickDevices.succeeds (c.afterAll interrupting) = true := by
  have hbus : ∃ bus, wiredBus {} = .ok bus ∧ ∀ entry ∈ bus.allWires, entry.1 < Word.count :=
    ⟨_, rfl, by decide +kernel⟩
  obtain ⟨bus, hbus, hwires⟩ := hbus
  obtain ⟨c, h⟩ := exists_ofConfig rfl hbus hwires
  exact ⟨c, h, (succeeds_or_permits h rfl interrupting).2.1⟩

end Computer

end WordMachine
