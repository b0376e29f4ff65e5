import WordMachine.Proofs.Lockstep
import WordMachine.Proofs.Memory.Access

/-!
# Proofs/Guarded — which errors an action can end with

An action is **guarded** by a property and a kind of errors if it keeps the property, and no other
error comes up while the property lasts.  If there are no errors of the kind it succeeds.

All that a processor does is made of reads, writes and changes of registers.  So if these are
guarded (`Processor.Guards`), it all is, but for what an instruction word itself can be at fault for
(`Fault.OfWord`).  Where every address has a cell (`Processor.Full`), no access is refused, whatever
PC, SP and the operands hold, and there are no other faults than those.  Main statements:
`guarded_step` and `guarded_exec`.
-/

namespace WordMachine

variable {ε S α β : Type}

/-- The action keeps the property, and any error it ends with is of the kind. -/
structure Guarded (P : S → Prop) (E : ε → Prop) (f : EStateM ε S α) : Prop where
  keeps : Keeps P f
  error : ∀ {s : S}, P s → ∀ {e : ε} {t : S}, f s = .error e t → E e

namespace Guarded

variable {P : S → Prop} {E : ε → Prop}

theorem of_exists_ok {f : EStateM ε S α} (h : ∀ s, P s → ∃ a t, f s = .ok a t ∧ P t) :
    Guarded P E f where
  keeps := keeps_iff.mpr fun s hs => by
    obtain ⟨a, t, hok, ht⟩ := h s hs
    rw [hok]
    exact ht
  error := by
    intro s hs e t hend
    obtain ⟨a, t', hok, -⟩ := h s hs
    rw [hok] at hend
    cases hend

protected theorem pure (a : α) : Guarded P E (Pure.pure a : EStateM ε S α) :=
  of_exists_ok fun s hs => ⟨a, s, rfl, hs⟩

protected theorem get : Guarded P E (get : EStateM ε S S) :=
  of_exists_ok fun s hs => ⟨s, s, rfl, hs⟩

protected theorem modify {f : S → S} (hf : ∀ s, P s → P (f s)) :
    Guarded P E (modify f : EStateM ε S PUnit) :=
  of_exists_ok fun s hs => ⟨_, f s, rfl, hf s hs⟩

protected theorem throw {e : ε} (he : E e) : Guarded P E (throw e : EStateM ε S α) where
  keeps := Lockstep.throw e
  error := by
    intro s _ e' t hend
    cases hend
    exact he

protected theorem bind {f : EStateM ε S α} {k : α → EStateM ε S β} (hf : Guarded P E f)
    (hk : ∀ a, Guarded P E (k a)) : Guarded P E (f >>= k) where
  keeps := hf.keeps.bind fun a => (hk a).keeps
  error := by
    intro s hs e t hend
    rcases of_bind_error hend with hfirst | ⟨a, u, hfirst, hlast⟩
    · exact hf.error hs hfirst
    · exact (hk a).error (hf.keeps.of_ok hs hfirst) hlast

protected theorem forM {f : β → EStateM ε S PUnit} (h : ∀ x, Guarded P E (f x)) :
    ∀ xs : List β, Guarded P E (xs.forM f)
  | [] => Guarded.pure _
  | x :: xs => (h x).bind fun _ => Guarded.forM h xs

end Guarded

namespace Processor

/-! ## What an instruction word can be at fault for -/

/-- A fault that the instruction word at PC has by itself. -/
inductive Fault.OfWord : Fault → Prop where
  /-- The three numbers without an operation. -/
  | unknownOpcode {number : Nat} (h : number = 7 ∨ number = 8 ∨ number = 9) :
    OfWord (.decode (.unknownOpcode number))
  | illegalWrite (pc : Word) {operand : Fin 64} (h : (Operand.ofCode operand).isLiteral = true) :
    OfWord (.illegalWrite pc operand)

theorem ofNumber?_eq_none {number : Fin 16} (h : Opcode.ofNumber? number = none) :
    (number : Nat) = 7 ∨ (number : Nat) = 8 ∨ (number : Nat) = 9 := by
  revert number
  decide

/-- **A word that is not accepted has a fault of its own.** -/
theorem ofWord_of_accept {pc word : Word} {fault : Fault} (h : accept pc word = .error fault) :
    fault.OfWord := by
  unfold accept at h
  cases hdecode : Instruction.decode word with
  | error e =>
    simp only [hdecode] at h
    cases h
    cases hop : Opcode.ofNumber? (Fields.ofWord word).op with
    | none =>
      simp only [Instruction.decode, Instruction.operation, hop] at hdecode
      cases hdecode
      exact .unknownOpcode (ofNumber?_eq_none hop)
    | some op =>
      simp only [Instruction.decode, Instruction.operation, hop] at hdecode
      cases hdecode
  | ok i =>
    simp only [hdecode] at h
    split at h
    · next hliteral =>
      cases h
      refine .illegalWrite pc ?_
      rw [Operand.ofCode_code]
      exact (Bool.and_eq_true_iff.mp hliteral).2
    · cases h

/-! ## What a processor is made of -/

variable {ω σ : Type} {P : Processor ω σ → Prop} {E : Fault → Prop}

theorem guarded_ofRegs (f : Registers → α) : Guarded P E (ofRegs f) :=
  .of_exists_ok fun p hp => ⟨f p.regs, p, rfl, hp⟩

/-- Registers, reads and writes are guarded. -/
structure Guards [Observer ω σ] (P : Processor ω σ → Prop) (E : Fault → Prop) : Prop where
  onRegs : ∀ f, Guarded P E (onRegs f)
  read : ∀ addr, Guarded P E (read addr)
  write : ∀ addr w, Guarded P E (write addr w)

namespace Guards

variable [Observer ω σ] (h : Guards P E)
include h

theorem push (w : Word) : Guarded P E (push w) :=
  (h.onRegs _).bind fun _ => (guarded_ofRegs _).bind fun sp => h.write sp w

theorem pop : Guarded P E pop :=
  (guarded_ofRegs _).bind fun sp => (h.read sp).bind fun _ => (h.onRegs _).bind fun _ => .pure _

theorem nextWord : Guarded P E nextWord :=
  (guarded_ofRegs _).bind fun pc => (h.onRegs _).bind fun _ => h.read pc

theorem resolve (o : Operand) : Guarded P E (resolve o) := by
  cases o with
  | indirect r | peek => exact (guarded_ofRegs _).bind fun _ => .pure _
  | indirectOffset r | pick =>
    exact h.nextWord.bind fun _ => (guarded_ofRegs _).bind fun _ => .pure _
  | indirectNext | nextLiteral => exact h.nextWord.bind fun _ => .pure _
  | _ => exact .pure _

theorem load (x : Place) : Guarded P E (load x) := by
  cases x with
  | register r => exact guarded_ofRegs (·.get r)
  | cell addr => exact h.read addr
  | stack => exact h.pop
  | sp => exact guarded_ofRegs (·.sp)
  | pc => exact guarded_ofRegs (·.pc)
  | ex => exact guarded_ofRegs (·.ex)
  | literal w => exact .pure w

theorem store (w : Word) (x : Place) : Guarded P E (store w x) := by
  cases x with
  | register r => exact h.onRegs fun regs => regs.set r w
  | cell addr => exact h.write addr w
  | stack => exact h.push w
  | sp => exact h.onRegs fun regs => { regs with sp := w }
  | pc => exact h.onRegs fun regs => { regs with pc := w }
  | ex => exact h.onRegs fun regs => { regs with ex := w }
  | literal v => exact .pure ()

/-- **An instruction that is carried out is guarded**, whatever it is. -/
theorem execute (i : Instruction) : Guarded P E (execute i) := by
  obtain ⟨op, a, b⟩ := i
  unfold Processor.execute
  split
  · exact .pure ()
  · exact (h.resolve a).bind fun destination => (h.resolve b).bind fun source =>
      (h.load source).bind fun w => h.store w destination
  · refine (h.resolve a).bind fun destination => (h.resolve b).bind fun source =>
      (h.load source).bind fun v => (h.load destination).bind fun w => ?_
    dsimp only
    split
    · exact (h.onRegs _).bind fun _ => h.store _ destination
    · exact h.store (Alu.compute op w v).result destination

/-- A step may in addition end with what the instruction word is at fault for. -/
theorem step (hcomplete : ∀ i, Guarded P E (complete i)) (hE : ∀ {fault}, fault.OfWord → E fault) :
    Guarded P E step := by
  refine (guarded_ofRegs _).bind fun pc => (h.read pc).bind fun word => ?_
  split
  · next haccept => exact .throw (hE (ofWord_of_accept haccept))
  · exact (h.onRegs _).bind fun _ => (h.execute _).bind fun _ =>
      (hcomplete _).bind fun _ => .pure _

theorem interrupt (message : Word) : Guarded P E (interrupt message) := by
  refine (guarded_ofRegs _).bind fun ia => ?_
  split
  · exact .pure false
  · exact (guarded_ofRegs _).bind fun pc => (h.push pc).bind fun _ =>
      (guarded_ofRegs _).bind fun a => (h.push a).bind fun _ =>
      (h.onRegs _).bind fun _ => .pure true

end Guards

/-! ## Processors whose every address has a cell -/

/-- Every address has a cell. -/
def Full (p : Processor ω σ) : Prop := p.mem.capacity = Word.count

theorem Full.lt_capacity {p : Processor ω σ} (hp : p.Full) (addr : Word) :
    addr.toNat < p.mem.capacity :=
  lt_of_lt_of_eq addr.toNat_lt_count hp.symm

variable [Observer ω σ]

/-- **No read and no write is refused.** -/
theorem guards_full : Guards (Full (ω := ω) (σ := σ)) E where
  onRegs _ := .of_exists_ok fun _ hp => ⟨(), _, rfl, hp⟩
  read addr := .of_exists_ok fun _ hp => ⟨_, _, read_eq (hp.lt_capacity addr), hp⟩
  write addr w := .of_exists_ok fun _ hp =>
    ⟨(), _, write_eq (hp.lt_capacity addr) w, (Memory.capacity_store _ _ _).trans hp⟩

/-- **Only the instruction word can be at fault in a step**… -/
theorem guarded_step : Guarded (Full (ω := ω) (σ := σ)) Fault.OfWord step :=
  guards_full.step (fun _ => .of_exists_ok fun _ hp => ⟨(), _, rfl, hp⟩) id

/-- …and so in a run. -/
theorem guarded_exec (n : Nat) : Guarded (Full (ω := ω) (σ := σ)) Fault.OfWord (exec n) := by
  induction n with
  | zero => exact .pure ()
  | succ n ih => exact guarded_step.bind fun _ => ih

end Processor

end WordMachine
