import WordMachine.Processor.Basic

/-!
# Proofs/Lockstep — two actions side by side

Two actions are in **lockstep** under a relation of their states if from related states they end
the same way, with the same answer or the same error, and in related states again.  An action that
is in lockstep with itself under equality and a property **keeps** the property; it **spares** the
property if it keeps it whenever it fails.

A processor reaches its memory through reads and writes alone.  So if these are in lockstep under a
relation `R` of memories and worlds (`Memory.Agreement`), then everything a processor does is in
lockstep under `Processor.Alike R`: `lockstep_step`, `lockstep_exec`, `lockstep_interrupt`.
-/

namespace WordMachine

variable {ε S T α β : Type}

/-! ## One action after the other -/

theorem exists_of_except_ok {x : Except ε α} {k : α → Except ε β} {b : β}
    (h : (x >>= k) = .ok b) : ∃ a, x = .ok a ∧ k a = .ok b := by
  cases x with
  | ok a => exact ⟨a, rfl, h⟩
  | error e => cases h

theorem bind_of_except_ok {x : Except ε α} {k : α → Except ε β} {a : α} (h : x = .ok a) :
    (x >>= k) = k a := by
  rw [h]
  rfl

theorem exists_of_except_map_ok {x : Except ε α} {g : α → β} {b : β} (h : x.map g = .ok b) :
    ∃ a, x = .ok a ∧ b = g a := by
  cases x with
  | ok a => exact ⟨a, rfl, (Except.ok.inj h).symm⟩
  | error e => cases h

theorem bind_of_ok {f : EStateM ε S α} {k : α → EStateM ε S β} {s t : S} {a : α}
    (h : f s = .ok a t) : (f >>= k) s = k a t := by
  change EStateM.bind f k s = k a t
  rw [EStateM.bind, h]

theorem bind_of_error {f : EStateM ε S α} {k : α → EStateM ε S β} {s t : S} {e : ε}
    (h : f s = .error e t) : (f >>= k) s = .error e t := by
  change EStateM.bind f k s = _
  rw [EStateM.bind, h]

theorem exists_of_bind_ok {f : EStateM ε S α} {k : α → EStateM ε S β} {s u : S} {b : β}
    (h : (f >>= k) s = .ok b u) : ∃ a t, f s = .ok a t ∧ k a t = .ok b u := by
  cases hf : f s with
  | ok a t => exact ⟨a, t, rfl, (bind_of_ok hf).symm.trans h⟩
  | error e t =>
    rw [bind_of_error hf] at h
    cases h

/-- An action has failed if its first part has, or if what comes after has. -/
theorem of_bind_error {f : EStateM ε S α} {k : α → EStateM ε S β} {s u : S} {e : ε}
    (h : (f >>= k) s = .error e u) :
    f s = .error e u ∨ ∃ a t, f s = .ok a t ∧ k a t = .error e u := by
  cases hf : f s with
  | ok a t => exact .inr ⟨a, t, rfl, (bind_of_ok hf).symm.trans h⟩
  | error e' t =>
    rw [bind_of_error hf] at h
    cases h
    exact .inl rfl

/-- Changing the answer does not fail. -/
theorem of_map_error {f : EStateM ε S α} {g : α → β} {s u : S} {e : ε}
    (h : (do let a ← f; return g a : EStateM ε S β) s = .error e u) : f s = .error e u := by
  rcases of_bind_error h with hfirst | ⟨a, t, -, hlast⟩
  · exact hfirst
  · cases hlast

/-! ## Lockstep of actions -/

/-- Two results with the same answer or the same error, in related states. -/
inductive SameEnd (R : S → T → Prop) : EStateM.Result ε S α → EStateM.Result ε T α → Prop where
  | ok (a : α) {s : S} {t : T} (h : R s t) : SameEnd R (.ok a s) (.ok a t)
  | error (e : ε) {s : S} {t : T} (h : R s t) : SameEnd R (.error e s) (.error e t)

/-- From related states the two actions end the same way, in related states. -/
def Lockstep (R : S → T → Prop) (f : EStateM ε S α) (g : EStateM ε T α) : Prop :=
  ∀ ⦃s t⦄, R s t → SameEnd R (f s) (g t)

namespace Lockstep

variable {R : S → T → Prop}

protected theorem pure (a : α) :
    Lockstep R (Pure.pure a : EStateM ε S α) (Pure.pure a : EStateM ε T α) :=
  fun _ _ h => .ok a h

protected theorem throw (e : ε) :
    Lockstep R (throw e : EStateM ε S α) (throw e : EStateM ε T α) :=
  fun _ _ h => .error e h

/-- **What goes on with the same answer stays in lockstep.** -/
protected theorem bind {f : EStateM ε S α} {g : EStateM ε T α} {k : α → EStateM ε S β}
    {l : α → EStateM ε T β} (h : Lockstep R f g) (hk : ∀ a, Lockstep R (k a) (l a)) :
    Lockstep R (f >>= k) (g >>= l) := by
  intro s t hst
  have hend := h hst
  change SameEnd R (EStateM.bind f k s) (EStateM.bind g l t)
  unfold EStateM.bind
  generalize f s = x at hend ⊢
  generalize g t = y at hend ⊢
  cases hend with
  | ok a hst' => exact hk a hst'
  | error e hst' => exact .error e hst'

protected theorem forM {f : β → EStateM ε S PUnit} {g : β → EStateM ε T PUnit} :
    ∀ xs : List β, (∀ x ∈ xs, Lockstep R (f x) (g x)) → Lockstep R (xs.forM f) (xs.forM g)
  | [], _ => Lockstep.pure _
  | x :: xs, h => (h x List.mem_cons_self).bind fun _ =>
      Lockstep.forM xs fun y hy => h y (List.mem_cons_of_mem x hy)

theorem exists_ok {f : EStateM ε S α} {g : EStateM ε T α} (h : Lockstep R f g) {s s' : S} {t : T}
    (hst : R s t) {a : α} (hf : f s = .ok a s') : ∃ t', g t = .ok a t' ∧ R s' t' := by
  have hend := h hst
  rw [hf] at hend
  generalize g t = y at hend ⊢
  cases hend with
  | ok _ hst' => exact ⟨_, rfl, hst'⟩

/-- What ends well on the right has ended well on the left. -/
theorem exists_ok_left {f : EStateM ε S α} {g : EStateM ε T α} (h : Lockstep R f g) {s : S}
    {t t' : T} (hst : R s t) {a : α} (hg : g t = .ok a t') : ∃ s', f s = .ok a s' ∧ R s' t' := by
  have hend := h hst
  rw [hg] at hend
  generalize f s = x at hend ⊢
  cases hend with
  | ok _ hst' => exact ⟨_, rfl, hst'⟩

theorem exists_error {f : EStateM ε S α} {g : EStateM ε T α} (h : Lockstep R f g) {s s' : S} {t : T}
    (hst : R s t) {e : ε} (hf : f s = .error e s') : ∃ t', g t = .error e t' ∧ R s' t' := by
  have hend := h hst
  rw [hf] at hend
  generalize g t = y at hend ⊢
  cases hend with
  | error _ hst' => exact ⟨_, rfl, hst'⟩

end Lockstep

/-! ## What an action keeps -/

/-- The state an action has ended in, well or not. -/
def stateOf : EStateM.Result ε S α → S
  | .ok _ s => s
  | .error _ s => s

/-- Changing the answer does not change the state… -/
theorem stateOf_map (f : EStateM ε S α) (b : β) (s : S) :
    stateOf ((do let _ ← f; return b : EStateM ε S β) s) = stateOf (f s) := by
  cases h : f s with
  | ok a t => rw [bind_of_ok h]; rfl
  | error e t => rw [bind_of_error h]; rfl

/-- The action has ended with an error. -/
def Failed : EStateM.Result ε S α → Prop
  | .ok _ _ => False
  | .error _ _ => True

/-- …nor does it make an action fail or succeed. -/
theorem failed_map (f : EStateM ε S α) (b : β) (s : S) :
    Failed ((do let _ ← f; return b : EStateM ε S β) s) ↔ Failed (f s) := by
  cases h : f s with
  | ok a t => rw [bind_of_ok h]; rfl
  | error e t => rw [bind_of_error h]; rfl

/-- The action ends in a state with the property whenever it starts in one. -/
def Keeps (P : S → Prop) (f : EStateM ε S α) : Prop := Lockstep (fun s t => s = t ∧ P s) f f

theorem keeps_iff {P : S → Prop} {f : EStateM ε S α} :
    Keeps P f ↔ ∀ s, P s → P (stateOf (f s)) := by
  constructor
  · intro h s hs
    have hend := h ⟨rfl, hs⟩
    generalize f s = x at hend ⊢
    cases hend with
    | ok a hst => exact hst.2
    | error e hst => exact hst.2
  · rintro h s _ ⟨rfl, hs⟩
    have hP := h s hs
    generalize f s = x at hP ⊢
    cases x with
    | ok a s' => exact .ok a ⟨rfl, hP⟩
    | error e s' => exact .error e ⟨rfl, hP⟩

theorem Keeps.of_ok {P : S → Prop} {f : EStateM ε S α} (h : Keeps P f) {s t : S} (hs : P s) {a : α}
    (hf : f s = .ok a t) : P t := by
  have hP := keeps_iff.mp h s hs
  rwa [hf] at hP

theorem Keeps.of_error {P : S → Prop} {f : EStateM ε S α} (h : Keeps P f) {s t : S} (hs : P s)
    {e : ε} (hf : f s = .error e t) : P t := by
  have hP := keeps_iff.mp h s hs
  rwa [hf] at hP

theorem Keeps.get {P : S → Prop} : Keeps P (get : EStateM ε S S) := keeps_iff.mpr fun _ h => h

theorem Keeps.modify {P : S → Prop} {f : S → S} (hf : ∀ s, P s → P (f s)) :
    Keeps P (modify f : EStateM ε S PUnit) :=
  keeps_iff.mpr hf

/-- If the action fails, it ends in a state with the property. -/
def Spares (P : S → Prop) (f : EStateM ε S α) : Prop :=
  ∀ ⦃s e t⦄, P s → f s = .error e t → P t

theorem Keeps.spares {P : S → Prop} {f : EStateM ε S α} (h : Keeps P f) : Spares P f := by
  intro s e t hs hf
  exact h.of_error hs hf

theorem Spares.of_forall_ok {P : S → Prop} {f : EStateM ε S α} (h : ∀ s, ∃ a t, f s = .ok a t) :
    Spares P f := by
  intro s e t _ hf
  obtain ⟨a, u, hok⟩ := h s
  rw [hok] at hf
  cases hf

/-- **What comes first keeps the property, what comes last spares it.** -/
theorem Spares.bind {P : S → Prop} {f : EStateM ε S α} {k : α → EStateM ε S β} (hf : Keeps P f)
    (hk : ∀ a, Spares P (k a)) : Spares P (f >>= k) := by
  intro s e t hs h
  rcases of_bind_error h with hfirst | ⟨a, u, hfirst, hlast⟩
  · exact hf.of_error hs hfirst
  · exact hk a (hf.of_ok hs hfirst) hlast

/-- What cannot fail may come after an action that spares the property. -/
theorem Spares.bind_of_forall_ok {P : S → Prop} {f : EStateM ε S α} {k : α → EStateM ε S β}
    (hf : Spares P f) (hk : ∀ a s, ∃ b t, k a s = .ok b t) : Spares P (f >>= k) := by
  intro s e t hs h
  rcases of_bind_error h with hfirst | ⟨a, u, -, hlast⟩
  · exact hf hs hfirst
  · obtain ⟨b, v, hok⟩ := hk a u
    rw [hok] at hlast
    cases hlast

/-! ## Lockstep of processors -/

variable {ω σ ω' σ' : Type}

namespace Memory

/-- Under the relation, a read or a write of one memory is in lockstep with that of the other. -/
structure Agreement [Observer ω σ] [Observer ω' σ'] (R : Memory ω × σ → Memory ω' × σ' → Prop) :
    Prop where
  read (addr : Nat) : Lockstep R (Memory.read addr) (Memory.read addr)
  write (addr value : Nat) : Lockstep R (Memory.write addr value) (Memory.write addr value)

end Memory

namespace Processor

/-- The same registers, count and record, over related memories. -/
structure Alike (R : Memory ω × σ → Memory ω' × σ' → Prop) (p : Processor ω σ)
    (q : Processor ω' σ') : Prop where
  regs : p.regs = q.regs
  memory : R (p.mem, p.world) (q.mem, q.world)
  cycles : p.cycles = q.cycles
  last : p.last = q.last

/-- A processor alike to itself under equality and a property is one that has the property. -/
theorem keeps_of_lockstep {P : Memory ω × σ → Prop} {f : Action ω σ α}
    (h : Lockstep (Alike fun s t => s = t ∧ P s) f f) : Keeps (fun p => P (p.mem, p.world)) f := by
  have halike : (Alike fun s t => s = t ∧ P s) =
      fun p q : Processor ω σ => p = q ∧ P (p.mem, p.world) := by
    funext ⟨regs, mem, world, cycles, last⟩ ⟨regs', mem', world', cycles', last'⟩
    refine propext ⟨?_, ?_⟩
    · rintro ⟨rfl, ⟨hst, hP⟩, rfl, rfl⟩
      cases hst
      exact ⟨rfl, hP⟩
    · rintro ⟨heq, hP⟩
      cases heq
      exact ⟨rfl, ⟨rfl, hP⟩, rfl, rfl⟩
  rwa [halike] at h

/-- An access to the memory keeps the registers. -/
theorem keeps_regs_onMemory {α : Type} {P : Registers → Prop} (access : Memory.Access ω σ α) :
    Keeps (fun p : Processor ω σ => P p.regs) (onMemory access) := by
  refine keeps_iff.mpr fun ⟨regs, mem, world, cycles, last⟩ h => ?_
  simp only [onMemory]
  cases access (mem, world) with
  | ok a s => exact h
  | error e s => exact h

theorem keeps_regs_onRegs {P : Registers → Prop} {f : Registers → Registers}
    (hf : ∀ regs, P regs → P (f regs)) :
    Keeps (fun p : Processor ω σ => P p.regs) (onRegs f) :=
  keeps_iff.mpr fun p h => hf p.regs h

theorem keeps_regs_ofRegs {α : Type} {P : Registers → Prop} (f : Registers → α) :
    Keeps (fun p : Processor ω σ => P p.regs) (ofRegs f) :=
  keeps_iff.mpr fun _ h => h

section Agreement

variable {R : Memory ω × σ → Memory ω' × σ' → Prop}

theorem lockstep_onMemory {f : Memory.Access ω σ α} {g : Memory.Access ω' σ' α}
    (h : Lockstep R f g) : Lockstep (Alike R) (onMemory f) (onMemory g) := by
  rintro ⟨regs, mem, world, cycles, last⟩ ⟨_, mem', world', _, _⟩ ⟨rfl, hR, rfl, rfl⟩
  have hend := h hR
  simp only [onMemory]
  generalize f (mem, world) = x at hend ⊢
  generalize g (mem', world') = y at hend ⊢
  cases hend with
  | ok a hst => exact .ok a ⟨rfl, hst, rfl, rfl⟩
  | error e hst => exact .error _ ⟨rfl, hst, rfl, rfl⟩

theorem lockstep_onRegs (f : Registers → Registers) :
    Lockstep (Alike R) (onRegs f) (onRegs f) := by
  rintro ⟨regs, mem, world, cycles, last⟩ ⟨_, mem', world', _, _⟩ ⟨rfl, hR, rfl, rfl⟩
  exact .ok () ⟨rfl, hR, rfl, rfl⟩

theorem lockstep_ofRegs (f : Registers → α) : Lockstep (Alike R) (ofRegs f) (ofRegs f) := by
  rintro p q h
  simp only [ofRegs, h.regs]
  exact .ok _ h

theorem lockstep_complete (i : Instruction) :
    Lockstep (Alike R) (complete i) (complete i) := by
  rintro ⟨regs, mem, world, cycles, last⟩ ⟨_, mem', world', _, _⟩ ⟨rfl, hR, rfl, rfl⟩
  exact .ok () ⟨rfl, hR, rfl, rfl⟩

variable [Observer ω σ] [Observer ω' σ']

section Reads

variable (hR : ∀ addr, Lockstep R (Memory.read addr) (Memory.read addr))
include hR

theorem lockstep_read (addr : Word) : Lockstep (Alike R) (read addr) (read addr) :=
  lockstep_onMemory (hR _)

theorem lockstep_pop : Lockstep (Alike R) pop pop :=
  (lockstep_ofRegs _).bind fun _ => (lockstep_read hR _).bind fun _ =>
    (lockstep_onRegs _).bind fun _ => .pure _

theorem lockstep_nextWord : Lockstep (Alike R) nextWord nextWord :=
  (lockstep_ofRegs _).bind fun _ => (lockstep_onRegs _).bind fun _ => lockstep_read hR _

theorem lockstep_resolve (o : Operand) : Lockstep (Alike R) (resolve o) (resolve o) := by
  cases o with
  | indirect r | peek => exact (lockstep_ofRegs _).bind fun _ => .pure _
  | indirectOffset r | pick =>
    exact (lockstep_nextWord hR).bind fun _ => (lockstep_ofRegs _).bind fun _ => .pure _
  | indirectNext | nextLiteral => exact (lockstep_nextWord hR).bind fun _ => .pure _
  | _ => exact .pure _

theorem lockstep_load (x : Place) : Lockstep (Alike R) (load x) (load x) := by
  cases x with
  | register r => exact lockstep_ofRegs (·.get r)
  | cell addr => exact lockstep_read hR addr
  | stack => exact lockstep_pop hR
  | sp => exact lockstep_ofRegs (·.sp)
  | pc => exact lockstep_ofRegs (·.pc)
  | ex => exact lockstep_ofRegs (·.ex)
  | literal w => exact .pure w

end Reads

variable (hR : Memory.Agreement R)
include hR

theorem lockstep_write (addr w : Word) : Lockstep (Alike R) (write addr w) (write addr w) :=
  lockstep_onMemory (hR.write _ _)

theorem lockstep_push (w : Word) : Lockstep (Alike R) (push w) (push w) :=
  (lockstep_onRegs _).bind fun _ => (lockstep_ofRegs _).bind fun _ => lockstep_write hR _ _

theorem lockstep_store (w : Word) (x : Place) : Lockstep (Alike R) (store w x) (store w x) := by
  cases x with
  | register r => exact lockstep_onRegs fun regs => regs.set r w
  | cell addr => exact lockstep_write hR addr w
  | stack => exact lockstep_push hR w
  | sp => exact lockstep_onRegs fun regs => { regs with sp := w }
  | pc => exact lockstep_onRegs fun regs => { regs with pc := w }
  | ex => exact lockstep_onRegs fun regs => { regs with ex := w }
  | literal v => exact .pure ()

theorem lockstep_execute (i : Instruction) : Lockstep (Alike R) (execute i) (execute i) := by
  obtain ⟨op, a, b⟩ := i
  unfold execute
  split
  · exact .pure ()
  · exact (lockstep_resolve hR.read a).bind fun destination =>
      (lockstep_resolve hR.read b).bind fun source =>
      (lockstep_load hR.read source).bind fun w => lockstep_store hR w destination
  · refine (lockstep_resolve hR.read a).bind fun destination =>
      (lockstep_resolve hR.read b).bind fun source =>
      (lockstep_load hR.read source).bind fun v =>
      (lockstep_load hR.read destination).bind fun w => ?_
    dsimp only
    split
    · exact (lockstep_onRegs _).bind fun _ => lockstep_store hR _ destination
    · exact (Lockstep.pure _).bind fun _ => lockstep_store hR _ destination

/-- **A step is in lockstep wherever reads and writes are.** -/
theorem lockstep_step : Lockstep (Alike R) step step := by
  refine (lockstep_ofRegs _).bind fun pc => (lockstep_read hR.read pc).bind fun word => ?_
  split
  · exact .throw _
  · exact (lockstep_onRegs _).bind fun _ => (lockstep_execute hR _).bind fun _ =>
      (lockstep_complete _).bind fun _ => .pure _

/-- …and so is a run. -/
theorem lockstep_exec (n : Nat) : Lockstep (Alike R) (exec n) (exec n) := by
  induction n with
  | zero => exact .pure ()
  | succ n ih => exact (lockstep_step hR).bind fun _ => ih

/-- …and the delivery of an interrupt. -/
theorem lockstep_interrupt (message : Word) :
    Lockstep (Alike R) (interrupt message) (interrupt message) := by
  refine (lockstep_ofRegs _).bind fun ia => ?_
  split
  · exact .pure false
  · exact (lockstep_ofRegs _).bind fun pc => (lockstep_push hR pc).bind fun _ =>
      (lockstep_ofRegs _).bind fun a => (lockstep_push hR a).bind fun _ =>
      (lockstep_onRegs _).bind fun _ => .pure true

end Agreement

end Processor

end WordMachine
