import WordMachine.Memory.Probe
import WordMachine.Proofs.Memory.Tap
import WordMachine.Proofs.Processor.Inversion

/-!
# Proofs/Processor/Accesses — which cells an instruction reads and writes, and in which order

A read can change the world behind its cell, so it matters how often and when an instruction reads.
The accesses of a step are its events over the tapped memory, each with the word that was read or
stored (`Memory.entries`).  Of a tapped processor every part of a step is known to add its own
accesses and no others (`Accessed`).

Main statement: `entries_of_step`.  A step reads its own word, the extra words of its operands, the
source and, unless it is SET, the destination, each once, and then writes the destination once.
-/

namespace WordMachine

namespace Memory

variable {ω σ : Type}

/-- An access to a cell, with the word that was read or stored. -/
inductive Entry where
  | read (addr : Nat) (w : Word)
  | write (addr : Nat) (w : Word)
  deriving DecidableEq, Repr

theorem replay_append (m : Memory ω) (events later : List (Event σ)) :
    m.replay (events ++ later) = (m.replay events).replay later :=
  List.foldl_append

variable [Observer ω σ]

/-- The accesses that some events are.  What is read is what the observer answers or else what the
cell holds by then. -/
def entries (m : Memory ω) : List (Event σ) → List Entry
  | [] => []
  | .read addr world :: later =>
    .read addr ((m.asked addr world).1.getD (m.word addr)) :: m.entries later
  | .write addr w _ :: later => .write addr w :: (m.store addr w).entries later

theorem entries_append (m : Memory ω) (events later : List (Event σ)) :
    m.entries (events ++ later) = m.entries events ++ (m.replay events).entries later := by
  induction events generalizing m with
  | nil => rfl
  | cons event events ih =>
    cases event with
    | read addr world => exact congrArg (List.cons _) (ih m)
    | write addr w world => exact congrArg (List.cons _) (ih (m.store addr w))

end Memory

open Memory (Entry)

/-- The access to an operand's extra word, if it has one. -/
def Operand.extraEntries (addr extra : Word) (o : Operand) : List Entry :=
  if o.usesNextWord then [.read addr.toNat extra] else []

namespace Processor

/-- The access that takes the word of a place, if the place is in memory. -/
def Place.loadEntries (sp w : Word) (x : Place) : List Entry :=
  ((x.address? sp).map fun addr => .read addr.toNat w).toList

/-- The access that puts a word at a place, if the place is in memory. -/
def Place.storeEntries (sp w : Word) (x : Place) : List Entry :=
  ((x.address? (x.pushed sp)).map fun addr => .write addr.toNat w).toList

end Processor

/-- **The accesses of an instruction that is not a NOP**, after that to its own word: the extra words,
the source, the destination unless the operation is SET, and the result.  The operands are where
the registers say at the start; only the stack moves, each time it is popped. -/
def Instruction.entries (i : Instruction) (regs : Registers) (extraA extraB v w r : Word) :
    List Entry :=
  let destination := (Meaning.ofOperand extraA i.a).place regs
  let source := (Meaning.ofOperand extraB i.b).place regs
  let sp := source.popped regs.sp
  i.a.extraEntries (regs.pc + 1) extraA ++ i.b.extraEntries (i.a.after (regs.pc + 1)) extraB ++
    source.loadEntries regs.sp v ++
    if i.opcode = .set then destination.storeEntries sp r
    else destination.loadEntries sp w ++ destination.storeEntries (destination.popped sp) r

namespace Processor

open Memory (Event Tap Tapped)

variable {ω σ : Type} [Observer ω σ]

/-! ## What each part of a step accesses -/

section Parts

variable {t u v : Processor (Tap ω) (σ × List (Event σ))} {before after : List Entry}
  {addr w : Word} {x : Place} {o : Operand} {op : Opcode}

/-- From the one tapped processor to the other these accesses were made. -/
def Accessed (t : Processor (Tap ω) (σ × List (Event σ))) (entries : List Entry)
    (u : Processor (Tap ω) (σ × List (Event σ))) : Prop :=
  ∀ m : Memory ω, t.mem = m.tapped →
    ∃ events, u.mem = (m.replay events).tapped ∧ u.world.2 = t.world.2 ++ events ∧
      m.entries events = entries

namespace Accessed

/-- Registers are not in memory. -/
theorem of_eq (hmem : u.mem = t.mem) (hworld : u.world = t.world) : Accessed t [] u :=
  fun _ hm => ⟨[], hmem.trans hm, by rw [hworld, List.append_nil], rfl⟩

theorem trans (h : Accessed t before u) (h' : Accessed u after v) :
    Accessed t (before ++ after) v := by
  intro m hm
  obtain ⟨events, hmem, hworld, rfl⟩ := h m hm
  obtain ⟨later, hmem', hworld', rfl⟩ := h' _ hmem
  refine ⟨events ++ later, ?_, ?_, m.entries_append events later⟩
  · rw [Memory.replay_append, hmem']
  · rw [hworld', hworld, List.append_assoc]

end Accessed

/-- A read is one access… -/
theorem accessed_read (h : read addr t = .ok w u) :
    u.regs = t.regs ∧ Accessed t [.read addr.toNat w] u := by
  obtain ⟨hlt, rfl, rfl⟩ := of_read_eq_ok h
  refine ⟨rfl, fun m hm => ⟨[.read addr.toNat t.world.1], hm, ?_, ?_⟩⟩
  · rw [hm] at hlt ⊢
    exact congrArg (·.2.2) (Memory.asked_tapped (m := m) hlt t.world.1 t.world.2)
  · rw [hm] at hlt ⊢
    have hasked := congrArg Prod.fst (Memory.asked_tapped (m := m) hlt t.world.1 t.world.2)
    exact congrArg (fun supplied : Option Word => [Entry.read addr.toNat (supplied.getD _)])
      hasked.symm

/-- …and so is a write. -/
theorem accessed_write (h : write addr w t = .ok () u) :
    u.regs = t.regs ∧ Accessed t [.write addr.toNat w] u := by
  obtain ⟨hlt, rfl⟩ := of_write_eq_ok h
  refine ⟨rfl, fun m hm => ⟨[.write addr.toNat w t.world.1], ?_, ?_, rfl⟩⟩
  · rw [hm]
    rfl
  · rw [hm] at hlt ⊢
    exact congrArg Prod.snd (Memory.told_tapped (m := m) hlt w t.world.1 t.world.2)

/-- **Resolving an operand reads its extra word**, if it has one. -/
theorem accessed_resolve (h : resolve o t = .ok x u) :
    ∃ extra, x = (Meaning.ofOperand extra o).place t.regs ∧
      u.regs = { t.regs with pc := o.after t.regs.pc } ∧
      Accessed t (o.extraEntries t.regs.pc extra) u := by
  rcases of_resolve_eq_ok h with ⟨huses, extra, hread, hx⟩ | ⟨huses, rfl, hx⟩
  · obtain ⟨hregs, haccessed⟩ := accessed_read hread
    refine ⟨extra, hx, ?_, ?_⟩
    · rw [hregs, Operand.after, if_pos huses]
      rfl
    · rw [Operand.extraEntries, if_pos huses]
      exact haccessed
  · have hnone : ¬ o.usesNextWord = true := huses ▸ Bool.false_ne_true
    refine ⟨0, hx 0, ?_, ?_⟩
    · rw [Operand.after, if_neg hnone]
    · rw [Operand.extraEntries, if_neg hnone]
      exact .of_eq rfl rfl

/-- **Loading reads the cell**, if the place is one, and pops the stack. -/
theorem accessed_load (h : load x t = .ok w u) :
    u.regs = { t.regs with sp := x.popped t.regs.sp } ∧
      Accessed t (x.loadEntries t.regs.sp w) u := by
  cases x with
  | cell addr => exact accessed_read h
  | stack =>
    change (read t.regs.sp >>= _) t = _ at h
    obtain ⟨w', u', hread, hpop⟩ := exists_of_bind_ok h
    obtain ⟨hregs, haccessed⟩ := accessed_read hread
    cases hpop
    refine ⟨?_, haccessed⟩
    rw [← hregs]
    rfl
  | _ =>
    cases h
    exact ⟨rfl, .of_eq rfl rfl⟩

/-- **Storing writes the cell**, if the place is one. -/
theorem accessed_store (h : store w x t = .ok () u) : Accessed t (x.storeEntries t.regs.sp w) u := by
  cases x with
  | cell addr => exact (accessed_write h).2
  | stack =>
    change write (t.regs.sp - 1) w (t.withRegs { t.regs with sp := t.regs.sp - 1 }) = _ at h
    exact (accessed_write h).2
  | _ =>
    cases h
    exact .of_eq rfl rfl

/-- Working out the result reads the destination, unless the operation is SET. -/
theorem accessed_result {v r : Word} (h : result op x v t = .ok r u) :
    ∃ w, r = (if op = .set then v else (Alu.compute op w v).result) ∧
      u.regs.sp = (if op = .set then t.regs.sp else x.popped t.regs.sp) ∧
      Accessed t (if op = .set then [] else x.loadEntries t.regs.sp w) u := by
  by_cases hset : op = .set
  · simp only [hset, if_true]
    rw [result, if_pos hset] at h
    cases h
    exact ⟨0, rfl, rfl, .of_eq rfl rfl⟩
  · simp only [hset, if_false]
    rw [result, if_neg hset] at h
    obtain ⟨w, u', hload, hdone⟩ := exists_of_bind_ok h
    obtain ⟨hregs, haccessed⟩ := accessed_load hload
    cases hdone
    refine ⟨w, rfl, congrArg Registers.sp hregs, ?_⟩
    exact List.append_nil (x.loadEntries t.regs.sp w) ▸ haccessed.trans (.of_eq rfl rfl)

/-- **An instruction makes its own accesses**, once its word has been taken. -/
theorem accessed_execute {i : Instruction} (hop : i.opcode ≠ .nop) {regs : Registers}
    (hregs : t.regs = { regs with pc := regs.pc + 1 }) (h : execute i t = .ok () u) :
    ∃ extraA extraB v w r,
      r = (if i.opcode = .set then v else (Alu.compute i.opcode w v).result) ∧
        Accessed t (i.entries regs extraA extraB v w r) u := by
  obtain ⟨x, t₁, y, t₂, v, t₃, r, t₄, ha, hb, hload, hresult, hstore⟩ := exists_of_execute hop h
  obtain ⟨extraA, hx, hregs₁, haccessedA⟩ := accessed_resolve ha
  obtain ⟨extraB, hy, hregs₂, haccessedB⟩ := accessed_resolve hb
  obtain ⟨hregs₃, haccessedV⟩ := accessed_load hload
  obtain ⟨w, hr, hsp, haccessedW⟩ := accessed_result hresult
  have hall := haccessedA.trans (haccessedB.trans
    (haccessedV.trans (haccessedW.trans (accessed_store hstore))))
  -- Until the source is loaded, the registers are those of the start but for PC.
  rw [hregs] at hx hregs₁
  rw [hregs₁] at hy hregs₂
  rw [Meaning.place_withPc] at hx
  rw [Meaning.place_withPc, Meaning.place_withPc] at hy
  have hsp₃ : t₃.regs.sp = y.popped regs.sp := by rw [hregs₃, hregs₂]
  rw [hsp, hsp₃, hregs₂, hregs₁, hregs, hx, hy] at hall
  refine ⟨extraA, extraB, v, w, r, hr, ?_⟩
  rw [Instruction.entries]
  by_cases hset : i.opcode = .set
  · simpa [hset] using hall
  · simpa [hset] using hall

end Parts

/-! ## The whole step -/

/-- **A step makes the accesses of its instruction**, each once and in this order, whoever observes
the cells: a NOP reads its own word, and any other instruction what `Instruction.entries` says. -/
theorem entries_of_step {p q : Processor ω σ} {i : Instruction} (h : step p = .ok i q) :
    ∃ first extraA extraB v w r,
      accept p.regs.pc first = .ok i ∧
        r = (if i.opcode = .set then v else (Alu.compute i.opcode w v).result) ∧
        p.mem.entries (events step p) = .read p.regs.pc.toNat first ::
          if i.opcode = .nop then [] else i.entries p.regs extraA extraB v w r := by
  -- The step of the tapped processor ends in the same way, and its log is there to be read off.
  obtain ⟨t, hstep, -⟩ :=
    (lockstep_step (Tapped.agreement (ω := ω) (σ := σ))).exists_ok (tapped_alike p) h
  obtain ⟨first, t', u, hread, haccept, hexecute, rfl⟩ := exists_of_step hstep
  obtain ⟨hregs, hfirst⟩ := accessed_read hread
  have hlog : ∀ {entries}, Accessed p.tapped entries u →
      p.mem.entries (events step p) = entries := by
    intro entries haccessed
    obtain ⟨noted, -, hworld, hentries⟩ := haccessed p.mem rfl
    have hnoted : events step p = noted := by
      rw [events, hstep]
      exact hworld
    rw [hnoted, hentries]
  have hgone : Accessed t' [] (t'.goto (p.regs.pc + 1)) := .of_eq rfl rfl
  by_cases hop : i.opcode = .nop
  · rw [execute_nop hop] at hexecute
    cases hexecute
    refine ⟨first, 0, 0, 0, 0, _, haccept, rfl, ?_⟩
    rw [hlog (hfirst.trans hgone), if_pos hop]
    rfl
  · have hstart : (t'.goto (p.regs.pc + 1)).regs = { p.regs with pc := p.regs.pc + 1 } :=
      congrArg (fun regs : Registers => { regs with pc := p.regs.pc + 1 }) hregs
    obtain ⟨extraA, extraB, v, w, r, hr, haccessed⟩ := accessed_execute hop hstart hexecute
    refine ⟨first, extraA, extraB, v, w, r, haccept, hr, ?_⟩
    rw [hlog (hfirst.trans (hgone.trans haccessed)), if_neg hop]
    rfl

/-- A processor at `SUB PUSH, POP`, where the cell on top of the stack answers for itself. -/
def echoing : Processor Probe Probe.Log where
  regs := { sp := 5 }
  mem := ((Memory.ofCapacity 8).storeAll 0 [0x6183, 0, 0, 0, 0, 0, 9]).setObserver 5
    (some (.echo "echo" 0 5 0xFF))
  world := { held := #[0] }

theorem entries_of_step_echoing :
    ∃ q first v w, step echoing = .ok ⟨.sub, .stack, .stack⟩ q ∧
      echoing.mem.entries (events step echoing) =
        [.read 0 first, .read 5 v, .read 6 w, .write 6 (w - v)] := by
  obtain ⟨q, hstep⟩ : ∃ q, step echoing = .ok ⟨.sub, .stack, .stack⟩ q := ⟨_, rfl⟩
  obtain ⟨first, extraA, extraB, v, w, _, -, rfl, hentries⟩ := entries_of_step hstep
  have hstack : ∀ (regs : Registers) (r : Word),
      Instruction.entries ⟨.sub, .stack, .stack⟩ regs extraA extraB v w r =
        [.read regs.sp.toNat v, .read (regs.sp + 1).toNat w,
          .write (regs.sp + 1 + 1 - 1).toNat r] := fun _ _ => rfl
  exact ⟨q, first, v, w, hstep, hentries.trans (congrArg (List.cons _) (hstack _ _))⟩

end Processor

end WordMachine
