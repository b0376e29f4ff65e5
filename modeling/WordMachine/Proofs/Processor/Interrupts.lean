import WordMachine.Proofs.Guarded
import WordMachine.Proofs.Processor.Meaning

/-!
# Proofs/Processor/Interrupts — interrupts nest, and a handler that restores undoes them

An interrupt saves PC and A in the two cells below SP.  So interrupts delivered one after the other
leave a row of frames there, in which each but the first has the PC and the A that the one before
has left (`Nested`).  Only these cells must be free of observers (`Room`), and nothing but these
cells and the registers PC, A and SP changes: `interrupts_eq`, `nested_taken`.

A handler `Restores` if it is `SET A, POP` and `SET PC, POP`.  Two of its steps undo one interrupt
(`exec_undo`), so two steps for every frame lead back to the registers from before the first:
`exists_unwound`.

Where cells are missing an interrupt may fail, half of it done; that depends on IA, SP and the number
of cells alone (`Jammed`, `failed_interrupt_iff`).
-/

namespace WordMachine

/-- The cell that a push goes to after `n` others. -/
def Word.below (sp : Word) (n : Nat) : Word := sp - UInt16.ofNat (n + 1)

namespace Word

theorem below_sub_two (sp : Word) (n : Nat) : below (sp - 2) n = below sp (n + 2) := by
  have htwo : (2 : Word).toNat = 2 := rfl
  rw [below, below, ← UInt16.toNat_inj]
  simp only [UInt16.toNat_sub, UInt16.toNat_ofNat']
  omega

theorem sub_one_sub_one (sp : Word) : sp - 1 - 1 = sp - 2 := by
  rw [UInt16.sub_eq_add_neg, UInt16.sub_eq_add_neg, UInt16.sub_eq_add_neg, UInt16.add_assoc]
  rfl

/-- Up to as many pushes as there are words, each has a cell of its own. -/
theorem below_inj {sp : Word} {m n : Nat} (hm : m < count) (hn : n < count)
    (h : below sp m = below sp n) : m = n := by
  have hsp := sp.toNat_lt_count
  rw [below, below, ← UInt16.toNat_inj] at h
  simp only [UInt16.toNat_sub, UInt16.toNat_ofNat'] at h
  simp only [count] at *
  omega

end Word

theorem Registers.set_set (regs : Registers) (r : Register) (v w : Word) :
    (regs.set r v).set r w = regs.set r w := by
  simp [set]

/-- A register keeps its word if it is given the same. -/
theorem Registers.set_get (regs : Registers) (r : Register) : regs.set r (regs.get r) = regs := by
  simp [set, get]

namespace Processor

open Word (below below_sub_two below_inj)

variable {ω σ : Type} {p q : Processor ω σ} {messages : List Word} {message : Word}

/-! ## One interrupt -/

/-- Every address has a cell, and nobody observes those that the next `count` pushes go to. -/
structure Room (p : Processor ω σ) (count : Nat) : Prop where
  full : p.Full
  unobserved : ∀ n < count, p.mem.observer? (below p.regs.sp n).toNat = none

/-- The processor after an interrupt has saved PC and A. -/
def interrupted (message : Word) (p : Processor ω σ) : Processor ω σ :=
  { p with
    regs := { p.regs with pc := p.regs.ia, sp := p.regs.sp - 2 }.set .a message
    mem := (p.mem.store (below p.regs.sp 0).toNat p.regs.pc).store (below p.regs.sp 1).toNat
      (p.regs.get .a) }

@[simp] theorem ia_interrupted : (p.interrupted message).regs.ia = p.regs.ia := rfl

@[simp] theorem pc_interrupted : (p.interrupted message).regs.pc = p.regs.ia := rfl

@[simp] theorem sp_interrupted : (p.interrupted message).regs.sp = p.regs.sp - 2 := rfl

@[simp] theorem a_interrupted : (p.interrupted message).regs.get .a = message := by
  rw [interrupted, Registers.get_set, if_pos rfl]

@[simp] theorem observer?_interrupted (addr : Nat) :
    (p.interrupted message).mem.observer? addr = p.mem.observer? addr := rfl

theorem full_interrupted (h : p.Full) : (p.interrupted message).Full := by
  rw [Full, interrupted, Memory.capacity_store, Memory.capacity_store]
  exact h

/-- The two cells below SP hold PC and A, and all others what they held. -/
theorem word_interrupted (h : p.Full) (addr : Word) :
    (p.interrupted message).word addr =
      if below p.regs.sp 1 = addr then p.regs.get .a
      else if below p.regs.sp 0 = addr then p.regs.pc else p.word addr := by
  have hlt := h.lt_capacity addr
  rw [word, interrupted, Memory.word_store, Memory.word_store, Memory.capacity_store]
  simp only [UInt16.toNat_inj, hlt, and_true]
  rfl

theorem Room.interrupted {count : Nat} (h : p.Room (count + 2)) :
    (p.interrupted message).Room count where
  full := full_interrupted h.full
  unobserved n hn := by
    rw [sp_interrupted, below_sub_two, observer?_interrupted]
    exact h.unobserved (n + 2) (by omega)

/-- An interrupt would be delivered, but there is no cell for one of the two words that it saves. -/
def Jammed (p : Processor ω σ) : Prop :=
  p.regs.ia ≠ 0 ∧
    (p.mem.capacity ≤ (below p.regs.sp 0).toNat ∨ p.mem.capacity ≤ (below p.regs.sp 1).toNat)

instance (p : Processor ω σ) : Decidable p.Jammed := inferInstanceAs (Decidable (_ ∧ _))

theorem not_jammed_of_full (h : p.Full) : ¬ p.Jammed := by
  have hlt : ∀ n, (below p.regs.sp n).toNat < p.mem.capacity := fun n => h.lt_capacity _
  simp [Jammed, hlt]

section Actions

variable [Observer ω σ]

theorem interrupt_of_masked (hia : p.regs.ia = 0) : interrupt message p = .ok false p := by
  rw [interrupt, bind_of_ok (rfl : ofRegs (·.ia) p = .ok p.regs.ia p), if_pos hia]
  rfl

/-- A cell that nobody observes reads as what it holds. -/
theorem read_of_unobserved {addr : Word} (hfull : p.Full)
    (hobserver : p.mem.observer? addr.toNat = none) : read addr p = .ok (p.word addr) p := by
  rw [read_eq (hfull.lt_capacity addr), Memory.asked, hobserver]
  rfl

/-- The processor after a push has stored its word and told the observer of its cell. -/
def pushed (w : Word) (p : Processor ω σ) : Processor ω σ :=
  { p with
    regs := { p.regs with sp := p.regs.sp - 1 }
    mem := p.mem.store (p.regs.sp - 1).toNat w
    world := p.mem.told (p.regs.sp - 1).toNat w p.world }

/-- **A push is made where there is a cell for it**… -/
theorem push_eq (hlt : (p.regs.sp - 1).toNat < p.mem.capacity) (w : Word) :
    push w p = .ok () (p.pushed w) :=
  write_eq (p := p.withRegs { p.regs with sp := p.regs.sp - 1 }) hlt w

/-- …and fails where there is none, and then nothing comes after it. -/
theorem failed_push_bind_iff {α : Type} (w : Word) (k : Unit → Action ω σ α) :
    Failed ((push w >>= k) p) ↔
      p.mem.capacity ≤ (p.regs.sp - 1).toNat ∨ Failed (k () (p.pushed w)) := by
  by_cases hlt : (p.regs.sp - 1).toNat < p.mem.capacity
  · rw [bind_of_ok (push_eq hlt w), or_iff_right (Nat.not_le.mpr hlt)]
  · have hle := Nat.le_of_not_lt hlt
    have hpush : push w p = .error _ _ :=
      write_eq_error (p := p.withRegs { p.regs with sp := p.regs.sp - 1 }) hle w
    rw [bind_of_error hpush]
    exact iff_of_true trivial (.inl hle)

/-- **An interrupt saves PC and A**, and whoever observes the two cells is told of them, the one
after the other. -/
theorem interrupt_eq_told (hia : p.regs.ia ≠ 0) (hfull : p.Full) :
    interrupt message p = .ok true
      { p.interrupted message with
        world := p.mem.told (below p.regs.sp 1).toNat (p.regs.get .a)
          (p.mem.told (below p.regs.sp 0).toNat p.regs.pc p.world) } := by
  have hfull' : (p.pushed p.regs.pc).Full := (Memory.capacity_store _ _ _).trans hfull
  rw [interrupt, bind_of_ok (rfl : ofRegs (·.ia) p = .ok p.regs.ia p), if_neg hia]
  change (push p.regs.pc >>= _) p = _
  rw [bind_of_ok (push_eq (hfull.lt_capacity _) _)]
  change (push (p.regs.get .a) >>= _) _ = _
  rw [bind_of_ok (push_eq (hfull'.lt_capacity _) _)]
  change EStateM.Result.ok true
    { p with
      regs := { p.regs with pc := p.regs.ia, sp := p.regs.sp - 1 - 1 }.set .a message
      mem := (p.mem.store (p.regs.sp - 1).toNat p.regs.pc).store (p.regs.sp - 1 - 1).toNat
        (p.regs.get .a)
      world := p.mem.told (p.regs.sp - 1 - 1).toNat (p.regs.get .a)
        (p.mem.told (p.regs.sp - 1).toNat p.regs.pc p.world) } = _
  rw [Word.sub_one_sub_one]
  rfl

/-- **An interrupt that finds room is delivered**, and nobody is told. -/
theorem interrupt_eq (hia : p.regs.ia ≠ 0) {count : Nat} (h : p.Room (count + 2)) :
    interrupt message p = .ok true (p.interrupted message) := by
  rw [interrupt_eq_told hia h.full]
  simp only [Memory.told, h.unobserved 0 (by omega), h.unobserved 1 (by omega)]
  rfl

/-- **An interrupt fails just if the processor is jammed**, by its first push or by its second. -/
theorem failed_interrupt_iff (message : Word) (p : Processor ω σ) :
    Failed (interrupt message p) ↔ p.Jammed := by
  by_cases hia : p.regs.ia = 0
  · rw [interrupt_of_masked hia]
    exact iff_of_false id fun h => h.1 hia
  · have hsecond : (p.pushed p.regs.pc).regs.sp - 1 = below p.regs.sp 1 :=
      Word.sub_one_sub_one p.regs.sp
    have hcapacity : (p.pushed p.regs.pc).mem.capacity = p.mem.capacity :=
      Memory.capacity_store _ _ _
    rw [interrupt, bind_of_ok (rfl : ofRegs (·.ia) p = .ok p.regs.ia p), if_neg hia, Jammed]
    change Failed ((push p.regs.pc >>= _) p) ↔ _
    rw [failed_push_bind_iff]
    change _ ∨ Failed ((push (p.regs.get .a) >>= _) _) ↔ _
    rw [failed_push_bind_iff, hsecond, hcapacity]
    -- what comes after the pushes never fails
    exact ⟨fun h => ⟨hia, h.imp_right fun h' => h'.resolve_right id⟩, fun h => h.2.imp_right .inl⟩

end Actions

/-! ## One interrupt after the other -/

/-- What interrupts with these messages, delivered one after the other, make of a processor.  The
frame with number `i` has its PC in the cell of push `2 * i` and its A in that of push
`2 * i + 1`. -/
structure Nested (p : Processor ω σ) (messages : List Word) (q : Processor ω σ) : Prop where
  none_delivered : messages = [] → q.regs = p.regs
  regs : ∀ last, messages.getLast? = some last →
    q.regs = { p.regs with
      pc := p.regs.ia, sp := p.regs.sp - UInt16.ofNat (2 * messages.length) }.set .a last
  savedPc : ∀ i < messages.length,
    q.word (below p.regs.sp (2 * i)) = if i = 0 then p.regs.pc else p.regs.ia
  savedA : ∀ i < messages.length,
    some (q.word (below p.regs.sp (2 * i + 1))) = (p.regs.get .a :: messages)[i]?
  elsewhere : ∀ addr, (∀ n < 2 * messages.length, below p.regs.sp n ≠ addr) →
    q.word addr = p.word addr
  observer? : ∀ addr, q.mem.observer? addr = p.mem.observer? addr
  capacity : q.mem.capacity = p.mem.capacity
  world : q.world = p.world
  cycles : q.cycles = p.cycles
  last : q.last = p.last

namespace Nested

theorem nil (p : Processor ω σ) : Nested p [] p where
  none_delivered _ := rfl
  regs _ h := by cases h
  savedPc _ h := absurd h (Nat.not_lt_zero _)
  savedA _ h := absurd h (Nat.not_lt_zero _)
  elsewhere _ _ := rfl
  observer? _ := rfl
  capacity := rfl
  world := rfl
  cycles := rfl
  last := rfl

/-- **One more interrupt, before all others**, puts its frame over theirs. -/
theorem cons (hfull : p.Full) (hlength : 2 * (message :: messages).length ≤ Word.count)
    (h : Nested (p.interrupted message) messages q) : Nested p (message :: messages) q := by
  simp only [List.length_cons, Word.count] at hlength
  have hbelow : ∀ n, below (p.interrupted message).regs.sp n = below p.regs.sp (n + 2) :=
    below_sub_two p.regs.sp
  -- The first frame lies outside the others, so it is what the first interrupt has saved.
  have hfirst : ∀ n < 2, q.word (below p.regs.sp n) =
      (p.interrupted message).word (below p.regs.sp n) := by
    refine fun n hn => h.elsewhere _ fun m hm heq => ?_
    rw [hbelow] at heq
    have := below_inj (by simp only [Word.count]; omega) (by simp only [Word.count]; omega) heq
    omega
  have hne : below p.regs.sp 1 ≠ below p.regs.sp 0 := fun heq => by
    cases below_inj (by decide) (by decide) heq
  refine
    { none_delivered := fun hnil => absurd hnil (List.cons_ne_nil _ _)
      regs := ?regs
      savedPc := ?savedPc
      savedA := ?savedA
      elsewhere := ?elsewhere
      observer? := h.observer?
      capacity := ?capacity
      world := h.world
      cycles := h.cycles
      last := h.last }
  case regs =>
    intro last hlast
    cases hmessages : messages with
    | nil =>
      rw [hmessages] at hlast
      cases hlast
      exact h.none_delivered hmessages
    | cons next rest =>
      have hrest : messages.getLast? = some last := by
        rw [hmessages] at hlast ⊢
        rwa [List.getLast?_cons_cons] at hlast
      have hsp : p.regs.sp - 2 - UInt16.ofNat (2 * messages.length) =
          p.regs.sp - UInt16.ofNat (2 * (message :: messages).length) := by
        rw [← UInt16.toNat_inj]
        simp only [UInt16.toNat_sub, UInt16.toNat_ofNat', List.length_cons]
        have htwo : (2 : Word).toNat = 2 := rfl
        omega
      rw [h.regs last hrest, ← hmessages, ← hsp]
      exact Registers.set_set { p.regs with
        pc := p.regs.ia, sp := p.regs.sp - 2 - UInt16.ofNat (2 * messages.length) } .a message last
  case savedPc =>
    intro i hi
    cases i with
    | zero =>
      rw [hfirst 0 (by omega), word_interrupted hfull, if_neg hne, if_pos rfl, if_pos rfl]
    | succ i =>
      have hi' : i < messages.length := Nat.lt_of_succ_lt_succ hi
      have hsaved := h.savedPc i hi'
      rw [hbelow, pc_interrupted, ia_interrupted, ite_self] at hsaved
      rw [if_neg (Nat.succ_ne_zero i)]
      exact hsaved
  case savedA =>
    intro i hi
    cases i with
    | zero =>
      rw [hfirst 1 (by omega), word_interrupted hfull, if_pos rfl]
      rfl
    | succ i =>
      have hsaved := h.savedA i (Nat.lt_of_succ_lt_succ hi)
      rw [hbelow, a_interrupted] at hsaved
      exact hsaved
  case elsewhere =>
    intro addr haddr
    have hrest : q.word addr = (p.interrupted message).word addr :=
      h.elsewhere addr fun n hn heq =>
        haddr (n + 2) (by rw [List.length_cons]; omega) ((hbelow n).symm.trans heq)
    rw [hrest, word_interrupted hfull, if_neg (haddr 1 (by rw [List.length_cons]; omega)),
      if_neg (haddr 0 (by rw [List.length_cons]; omega))]
  case capacity =>
    rw [h.capacity, interrupted, Memory.capacity_store, Memory.capacity_store]

end Nested

/-- Interrupts with these messages are dropped, or there is room for all of them. -/
def Takes (p : Processor ω σ) (messages : List Word) : Prop :=
  p.regs.ia = 0 ∨ p.Room (2 * messages.length)

/-- The processor after interrupts with these messages, which are dropped while IA is 0. -/
def taken (p : Processor ω σ) (messages : List Word) : Processor ω σ :=
  if p.regs.ia = 0 then p else messages.foldl (fun p message => p.interrupted message) p

theorem taken_of_masked (hia : p.regs.ia = 0) : p.taken messages = p := if_pos hia

@[simp] theorem taken_nil : p.taken [] = p := ite_self p

theorem taken_cons (hia : p.regs.ia ≠ 0) :
    p.taken (message :: messages) = (p.interrupted message).taken messages := by
  rw [taken, taken, if_neg hia, ia_interrupted, if_neg hia]
  rfl

/-- The first interrupt leaves room for the others. -/
theorem Takes.interrupted (hia : p.regs.ia ≠ 0) (h : p.Takes (message :: messages)) :
    (p.interrupted message).Takes messages :=
  .inr (Room.interrupted (h.resolve_left hia))

/-- Interrupts may be delivered in two parts… -/
theorem taken_append (others : List Word) :
    p.taken (messages ++ others) = (p.taken messages).taken others := by
  induction messages generalizing p with
  | nil => rw [List.nil_append, taken_nil]
  | cons message messages ih =>
    by_cases hia : p.regs.ia = 0
    · rw [taken_of_masked hia, taken_of_masked hia, taken_of_masked hia]
    · rw [List.cons_append, taken_cons hia, taken_cons hia, ih]

/-- …and if there is room for all, then for either part. -/
theorem Takes.append {others : List Word} (h : p.Takes (messages ++ others)) :
    p.Takes messages ∧ (p.taken messages).Takes others := by
  induction messages generalizing p with
  | nil =>
    refine ⟨?_, by rwa [taken_nil]⟩
    exact h.imp_right fun hroom => ⟨hroom.full, fun n hn => absurd hn (Nat.not_lt_zero n)⟩
  | cons message messages ih =>
    by_cases hia : p.regs.ia = 0
    · rw [taken_of_masked hia]
      exact ⟨.inl hia, .inl hia⟩
    · have hroom : p.Room (2 * (message :: (messages ++ others)).length) := h.resolve_left hia
      rw [taken_cons hia]
      refine ⟨.inr ⟨hroom.full, fun n hn => hroom.unobserved n ?_⟩, (ih (h.interrupted hia)).2⟩
      simp only [List.length_cons, List.length_append] at hn ⊢
      omega

/-- The processor with another world behind its memory. -/
def withWorld (p : Processor ω σ) (world : σ) : Processor ω σ := { p with world }

theorem takes_withWorld {world : σ} : (p.withWorld world).Takes messages ↔ p.Takes messages :=
  ⟨fun h => h.imp_right fun hroom => ⟨hroom.1, hroom.2⟩,
    fun h => h.imp_right fun hroom => ⟨hroom.1, hroom.2⟩⟩

/-- Interrupts leave the world alone, whatever it is. -/
theorem taken_withWorld (world : σ) :
    (p.withWorld world).taken messages = (p.taken messages).withWorld world := by
  by_cases hia : p.regs.ia = 0
  · have hia' : (p.withWorld world).regs.ia = 0 := hia
    rw [taken_of_masked hia, taken_of_masked hia']
  · have hia' : (p.withWorld world).regs.ia ≠ 0 := hia
    rw [taken, taken, if_neg hia, if_neg hia']
    exact List.foldl_hom (withWorld · world) fun _ _ => rfl

/-- Interrupts that find room for their frames leave these nested. -/
theorem nested_taken (hia : p.regs.ia ≠ 0) (hfull : p.Full)
    (hlength : 2 * messages.length ≤ Word.count) : Nested p messages (p.taken messages) := by
  induction messages generalizing p with
  | nil =>
    rw [taken_nil]
    exact .nil p
  | cons message messages ih =>
    have hshorter : 2 * messages.length ≤ Word.count := by
      rw [List.length_cons] at hlength
      omega
    rw [taken_cons hia]
    exact (ih (p := p.interrupted message) hia (full_interrupted hfull) hshorter).cons hfull hlength

section Actions

variable [Observer ω σ]

/-- Deliver interrupts with these messages one after the other. -/
def interrupts : (messages : List Word) → Action ω σ Unit
  | [] => return
  | message :: messages => do
    let _ ← interrupt message
    interrupts messages

/-- **Interrupts are all dropped or all delivered.** -/
theorem interrupts_eq (h : p.Takes messages) :
    interrupts messages p = .ok () (p.taken messages) := by
  induction messages generalizing p with
  | nil =>
    rw [taken_nil]
    rfl
  | cons message messages ih =>
    by_cases hia : p.regs.ia = 0
    · rw [interrupts, bind_of_ok (interrupt_of_masked hia), ih (.inl hia), taken_of_masked hia,
        taken_of_masked hia]
    · rw [interrupts, bind_of_ok (interrupt_eq hia (h.resolve_left hia)), ih (h.interrupted hia),
        taken_cons hia]

/-! ## The way back -/

/-- `SET A, POP` -/
def takeA : Instruction := ⟨.set, .register .a, .stack⟩

/-- `SET PC, POP` -/
def takePc : Instruction := ⟨.set, .pc, .stack⟩

/-- The handler takes A and then PC from the stack, and to read it has no effect. -/
structure Restores (p : Processor ω σ) : Prop where
  readA : read p.regs.ia p = .ok takeA.encode p
  readPc : read (p.regs.ia + 1) p = .ok takePc.encode p

/-- A handler that nobody observes needs to hold its two words. -/
theorem restores_of_words (hfull : p.Full) (hA : p.word p.regs.ia = takeA.encode)
    (hPc : p.word (p.regs.ia + 1) = takePc.encode)
    (hobserverA : p.mem.observer? p.regs.ia.toNat = none)
    (hobserverPc : p.mem.observer? (p.regs.ia + 1).toNat = none) : p.Restores where
  readA := hA ▸ read_of_unobserved hfull hobserverA
  readPc := hPc ▸ read_of_unobserved hfull hobserverPc

/-- A read depends on the cell, its observer and the world alone. -/
theorem read_congr {addr w : Word} (hp : p.Full) (hq : q.Full) (hword : q.word addr = p.word addr)
    (hobserver : q.mem.observer? addr.toNat = p.mem.observer? addr.toNat)
    (hworld : q.world = p.world) (h : read addr p = .ok w p) : read addr q = .ok w q := by
  have hasked : q.mem.asked addr.toNat q.world = p.mem.asked addr.toNat p.world := by
    rw [Memory.asked, Memory.asked, hobserver, hworld]
  have hcell : q.mem.word addr.toNat = p.mem.word addr.toNat := hword
  rw [read_eq (hp.lt_capacity addr), EStateM.Result.ok.injEq] at h
  obtain ⟨hanswer, hstate⟩ := h
  have hsame : (p.mem.asked addr.toNat p.world).2 = q.world :=
    (congrArg Processor.world hstate).trans hworld.symm
  rw [read_eq (hq.lt_capacity addr), hasked, hcell, hanswer, hsame]

/-- A handler stays one as long as its cells and what observes them stay. -/
theorem Restores.congr (h : p.Restores) (hp : p.Full) (hq : q.Full) (hia : q.regs.ia = p.regs.ia)
    (hA : q.word p.regs.ia = p.word p.regs.ia)
    (hPc : q.word (p.regs.ia + 1) = p.word (p.regs.ia + 1))
    (hobserver : ∀ addr, q.mem.observer? addr = p.mem.observer? addr) (hworld : q.world = p.world) :
    q.Restores where
  readA := hia ▸ read_congr hp hq hA (hobserver _) hworld h.readA
  readPc := hia ▸ read_congr hp hq hPc (hobserver _) hworld h.readPc

/-- **A step of `SET x, POP`**, where `x` is a register, performs it. -/
theorem step_take {o : Operand} {x : Place} (hresolve : resolve o = (pure x : Action ω σ Place))
    (hstore : ∀ (w : Word) (p : Processor ω σ), store w x p = .ok () (p.put w x))
    (hliteral : o.isLiteral = false)
    (hread : read p.regs.pc p = .ok (Instruction.encode ⟨.set, o, .stack⟩) p) (hfull : p.Full)
    (hobserver : p.mem.observer? p.regs.sp.toNat = none) :
    step p = .ok ⟨.set, o, .stack⟩
      (((p.goto (p.regs.pc + 1)).perform .set x .stack).completed ⟨.set, o, .stack⟩) := by
  have haccept : accept p.regs.pc (Instruction.encode ⟨.set, o, .stack⟩) =
      .ok ⟨.set, o, .stack⟩ := by
    rw [accept, Instruction.decode_encode]
    simp only [hliteral, Bool.and_false]
    rfl
  have hload : load .stack (p.goto (p.regs.pc + 1)) = .ok (p.word p.regs.sp)
      ((p.goto (p.regs.pc + 1)).fetch .stack).2 := by
    have hpop : read p.regs.sp (p.goto (p.regs.pc + 1)) =
        .ok (p.word p.regs.sp) (p.goto (p.regs.pc + 1)) :=
      read_of_unobserved (p := p.goto (p.regs.pc + 1)) hfull hobserver
    change (read p.regs.sp >>= _) (p.goto (p.regs.pc + 1)) = _
    rw [bind_of_ok hpop]
    rfl
  have hexecute : execute ⟨.set, o, .stack⟩ (p.goto (p.regs.pc + 1)) =
      .ok () ((p.goto (p.regs.pc + 1)).perform .set x .stack) := by
    change (resolve o >>= fun x => load .stack >>= fun w => store w x) _ = _
    rw [hresolve, pure_bind, bind_of_ok hload, hstore]
    rfl
  change (read p.regs.pc >>= _) p = _
  rw [bind_of_ok hread, haccept]
  change (execute ⟨.set, o, .stack⟩ >>= _) (p.goto (p.regs.pc + 1)) = _
  rw [bind_of_ok hexecute]
  rfl

/-- **Two steps of a handler that restores undo an interrupt.** -/
theorem exec_restores (hfull : p.Full) (h : p.Restores) (hpc : p.regs.pc = p.regs.ia)
    (hA : p.mem.observer? p.regs.sp.toNat = none)
    (hPc : p.mem.observer? (p.regs.sp + 1).toNat = none) :
    exec 2 p = .ok ()
      { p with
        regs := { p.regs with
          pc := p.word (p.regs.sp + 1), sp := p.regs.sp + 2 }.set .a (p.word p.regs.sp)
        cycles := p.cycles + 2
        last := some takePc } := by
  let p' := ((p.goto (p.regs.pc + 1)).perform .set (.register .a) .stack).completed takeA
  have hfirst : step p = .ok takeA p' :=
    step_take (o := .register .a) rfl (fun _ _ => rfl) rfl (hpc.symm ▸ h.readA) hfull hA
  have hp' : p'.Restores := h.congr hfull hfull rfl rfl rfl (fun _ => rfl) rfl
  have hpc' : p'.regs.pc = p'.regs.ia + 1 := congrArg (· + 1) hpc
  have hsecond := step_take (p := p') (o := .pc) rfl (fun _ _ => rfl) rfl (hpc'.symm ▸ hp'.readPc)
    hfull hPc
  rw [exec, bind_of_ok hfirst, exec, bind_of_ok hsecond]
  have htwo : p.regs.sp + 1 + 1 = p.regs.sp + 2 := UInt16.add_assoc _ _ _
  rw [← htwo]
  rfl

/-- **The handler leads back to the registers from before an interrupt**, if it is entered with those
from after it and the frame is as it was saved. -/
theorem exec_undo (hfull : q.Full) (h : q.Restores) (hregs : q.regs = (p.interrupted message).regs)
    (hsavedPc : q.word (below p.regs.sp 0) = p.regs.pc)
    (hsavedA : q.word (below p.regs.sp 1) = p.regs.get .a)
    (hobserver : ∀ n < 2, q.mem.observer? (below p.regs.sp n).toNat = none) :
    exec 2 q = .ok ()
      { q with regs := p.regs, cycles := q.cycles + 2, last := some takePc } := by
  have hsp : q.regs.sp = below p.regs.sp 1 := by rw [hregs]; rfl
  have hsp' : q.regs.sp + 1 = below p.regs.sp 0 := by
    rw [hsp, below, below, ← UInt16.toNat_inj]
    simp only [UInt16.toNat_add, UInt16.toNat_sub, UInt16.toNat_ofNat']
    have hone : (1 : Word).toNat = 1 := rfl
    omega
  have hback : q.regs.sp + 2 = p.regs.sp := by
    rw [hregs]
    exact UInt16.sub_add_cancel _ _
  have hexec := exec_restores hfull h (by rw [hregs]; rfl) (hsp ▸ hobserver 1 (by omega))
    (hsp' ▸ hobserver 0 (by omega))
  rw [hsp', hsp, hsavedPc, hsavedA, ← hsp, hback, hregs] at hexec
  have hall : { (p.interrupted message).regs with pc := p.regs.pc, sp := p.regs.sp }.set .a
      (p.regs.get .a) = p.regs :=
    (Registers.set_set p.regs .a message _).trans (Registers.set_get p.regs .a)
  rwa [hall] at hexec

theorem exec_add (m n : Nat) : (exec (m + n) : Action ω σ Unit) = (do exec m; exec n) := by
  induction m with
  | zero => rw [Nat.zero_add, exec, pure_bind]
  | succ m ih =>
    rw [Nat.succ_add, exec, exec, bind_assoc]
    simp only [ih]

/-- **As many pairs of steps as there were interrupts lead back to the registers from before them.**
Nothing else is written on the way. -/
theorem exists_unwound (hia : p.regs.ia ≠ 0) (h : p.Room (2 * messages.length))
    (hlength : 2 * messages.length ≤ Word.count) (hrestores : p.Restores)
    (hapart : ∀ n < 2 * messages.length,
      below p.regs.sp n ≠ p.regs.ia ∧ below p.regs.sp n ≠ p.regs.ia + 1) :
    ∃ r, exec (2 * messages.length) (p.taken messages) = .ok () r ∧ r.regs = p.regs ∧
      r.mem = (p.taken messages).mem ∧ r.world = p.world ∧
      r.cycles = p.cycles + 2 * messages.length := by
  induction messages generalizing p with
  | nil =>
    rw [taken_nil]
    exact ⟨p, rfl, rfl, rfl, rfl, rfl⟩
  | cons message messages ih =>
    have hnested : Nested p (message :: messages) (p.taken (message :: messages)) :=
      nested_taken hia h.full hlength
    let p' := p.interrupted message
    have hshorter : 2 * messages.length ≤ Word.count := by
      rw [List.length_cons] at hlength
      omega
    -- The frame of the first interrupt does not touch the handler, so the rest unwinds as it would
    -- without that interrupt.
    have hword : ∀ addr, below p.regs.sp 0 ≠ addr → below p.regs.sp 1 ≠ addr →
        p'.word addr = p.word addr := fun addr hzero hone => by
      rw [word_interrupted h.full, if_neg hone, if_neg hzero]
    have hzero := hapart 0 (by rw [List.length_cons]; omega)
    have hone := hapart 1 (by rw [List.length_cons]; omega)
    have hrestores' : p'.Restores := hrestores.congr h.full (full_interrupted h.full) rfl
      (hword _ hzero.1 hone.1) (hword _ hzero.2 hone.2) (fun _ => rfl) rfl
    have hapart' : ∀ n < 2 * messages.length,
        below p'.regs.sp n ≠ p'.regs.ia ∧ below p'.regs.sp n ≠ p'.regs.ia + 1 := fun n hn => by
      rw [show p'.regs.sp = p.regs.sp - 2 from rfl, below_sub_two]
      exact hapart (n + 2) (by rw [List.length_cons]; omega)
    rw [taken_cons hia] at hnested ⊢
    generalize hq : p'.taken messages = q at hnested ⊢
    obtain ⟨r, hr, hregs, hmem, hworld, hcycles⟩ :=
      ih (p := p') hia (Room.interrupted h) hshorter hrestores' hapart'
    rw [hq] at hr hmem
    have hsame : ∀ addr, r.word addr = q.word addr := fun addr => by rw [word, word, hmem]
    have hobserver : ∀ addr, r.mem.observer? addr = p.mem.observer? addr := fun addr => by
      rw [hmem, hnested.observer?]
    have hfull : r.Full := by
      rw [Full, hmem, hnested.capacity]
      exact h.full
    have hcell : ∀ addr, (∀ n < 2 * (message :: messages).length, below p.regs.sp n ≠ addr) →
        r.word addr = p.word addr := fun addr haddr =>
      (hsame addr).trans (hnested.elsewhere addr haddr)
    have hlast : r.Restores := hrestores.congr h.full hfull (by rw [hregs]; rfl)
      (hcell _ fun n hn => (hapart n hn).1) (hcell _ fun n hn => (hapart n hn).2) hobserver hworld
    have hundo := exec_undo hfull hlast hregs
      ((hsame _).trans (hnested.savedPc 0 (by rw [List.length_cons]; omega)))
      ((hsame _).trans (Option.some.inj (hnested.savedA 0 (by rw [List.length_cons]; omega))))
      fun n hn => (hobserver _).trans (h.unobserved n (by rw [List.length_cons]; omega))
    let r' : Processor ω σ :=
      { r with regs := p.regs, cycles := r.cycles + 2, last := some takePc }
    refine ⟨r', ?_, rfl, hmem, hworld, ?_⟩
    · rw [List.length_cons, Nat.mul_succ, exec_add, bind_of_ok hr]
      exact hundo
    · change r.cycles + 2 = _
      rw [hcycles, List.length_cons]
      change p.cycles + 2 * messages.length + 2 = _
      omega

end Actions

end Processor

end WordMachine
