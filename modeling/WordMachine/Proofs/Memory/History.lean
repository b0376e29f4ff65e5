import WordMachine.Proofs.Memory.Access

/-!
# Proofs/Memory/History — a memory and all that was done to it

The past of a memory is what was done to it since it was made, the latest operation first.  What it
refused has changed nothing, and the rest (`succeeded`) says what every cell holds (`stored`), which
observer it has (`carried`) and who has been told of what (`notices`).

A scribe in front of an observer notes what the observer is told, and changes nothing else
(`Scribed`).  With scribes in front of all observers a memory has a log.

Main statement: `log_of_past`.  Memory, observers and log are what the past says.
-/

namespace WordMachine

namespace Memory

variable {ω σ : Type}

/-- What is done to a memory. -/
inductive Operation (ω : Type) where
  | write (addr value : Nat)
  | read (addr : Nat)
  | peek (addr : Nat)
  | load (addr : Nat) (words : List Word)
  | watch (addr : Nat) (observer : ω)
  | unwatch (addr : Nat)
  | clear
  | dump (start count : Nat)

/-- What an operation gives back. -/
inductive Answer where
  | done
  | word (w : Word)
  | cells (cells : List (Nat × Word))

namespace Operation

/-- Do it. -/
def run [Observer ω σ] : Operation ω → Access ω σ Answer
  | .write addr value => do
    Memory.write addr value
    return .done
  | .read addr => do
    return .word (← Memory.read addr)
  | .peek addr => fun s =>
    match s.1.peek addr with
    | .ok w => .ok (.word w) s
    | .error e => .error e s
  | .load addr words => do
    Memory.load addr words
    return .done
  | .watch addr observer => do
    Memory.watch addr observer
    return .done
  | .unwatch addr => do
    Memory.unwatch addr
    return .done
  | .clear => fun (m, world) => .ok .done (m.clear, world)
  | .dump start count => fun (m, world) => .ok (.cells (m.dump start count)) (m, world)

/-- Why a memory with so many cells refuses it, if it does. -/
def refusal? (capacity : Nat) : Operation ω → Option Error
  | .write addr _ | .read addr | .peek addr | .watch addr _ | .unwatch addr =>
    if addr < capacity then none else some (.outOfRange addr capacity)
  | .load addr words =>
    if addr < capacity then
      if words.length ≤ capacity - addr then none
      else some (.programTooLarge words.length (capacity - addr))
    else some (.outOfRange addr capacity)
  | .clear | .dump .. => none

/-- The word that it puts into a cell. -/
def placed? (addr : Nat) : Operation ω → Option Word
  | .write place value => if place = addr then some (UInt16.ofNat value) else none
  | .load start words => if start ≤ addr then words[addr - start]? else none
  | .clear => some 0
  | _ => none

/-- The observer that it gives to an address, or the lack of one. -/
def installed? (addr : Nat) : Operation ω → Option (Option ω)
  | .watch place observer => if place = addr then some (some observer) else none
  | .unwatch place => if place = addr then some none else none
  | _ => none

end Operation

/-- A new memory and the world after all that was done, the latest first. -/
def after [Observer ω σ] (capacity : Nat) (world : σ) (past : List (Operation ω)) : Memory ω × σ :=
  past.foldr (fun op s => stateOf (op.run s)) (ofCapacity capacity, world)

/-- What a memory with so many cells did not refuse. -/
def succeeded (capacity : Nat) (past : List (Operation ω)) : List (Operation ω) :=
  past.filter fun op => (op.refusal? capacity).isNone

/-- The word that was put into a cell last, 0 if none was. -/
def stored (addr : Nat) (past : List (Operation ω)) : Word :=
  (past.findSome? (Operation.placed? addr)).getD 0

/-- The observer that an address was given last, unless it was taken away since. -/
def carried (addr : Nat) (past : List (Operation ω)) : Option ω :=
  (past.findSome? (Operation.installed? addr)).join

/-- The writes to addresses that carried an observer then, each with this observer, the latest
first. -/
def notices : List (Operation ω) → List (ω × Word)
  | [] => []
  | .write addr value :: past =>
    match carried addr past with
    | none => notices past
    | some observer => (observer, UInt16.ofNat value) :: notices past
  | _ :: past => notices past

/-! ## One operation -/

theorem peek_of_lt {m : Memory ω} {addr : Nat} (h : addr < m.capacity) :
    m.peek addr = .ok (m.word addr) := by
  rw [peek, word]
  cases hcell : m.cell? addr with
  | none => exact absurd (cell?_eq_none_iff.mp hcell) (Nat.not_le.mpr h)
  | some w => rfl

theorem peek_of_le {m : Memory ω} {addr : Nat} (h : m.capacity ≤ addr) :
    m.peek addr = .error (.outOfRange addr m.capacity) := by
  rw [peek, cell?_eq_none_iff.mpr h]

namespace Operation

variable [Observer ω σ] {op : Operation ω} {s : Memory ω × σ}

/-- Memory and world after an operation that is not refused. -/
def effect : Operation ω → Memory ω × σ → Memory ω × σ
  | .write addr value, (m, world) =>
    (m.store addr (UInt16.ofNat value), m.told addr (UInt16.ofNat value) world)
  | .read addr, (m, world) => (m, (m.asked addr world).2)
  | .peek _, s | .dump .., s => s
  | .load addr words, (m, world) => (m.storeAll addr words, world)
  | .watch addr observer, (m, world) => (m.setObserver addr (some observer), world)
  | .unwatch addr, (m, world) => (m.setObserver addr none, world)
  | .clear, (m, world) => (m.clear, world)

theorem fits_of_accepted {capacity start : Nat} {words : List Word}
    (h : (load start words : Operation ω).refusal? capacity = none) :
    start < capacity ∧ words.length ≤ capacity - start := by
  simp only [refusal?] at h
  split at h
  · next hin =>
    split at h
    · next hfits => exact ⟨hin, hfits⟩
    · cases h
  · cases h

/-- **An operation that is refused changes nothing**… -/
theorem run_of_refused {e : Error} (h : op.refusal? s.1.capacity = some e) :
    op.run s = .error e s := by
  obtain ⟨m, world⟩ := s
  cases op with
  | write addr value | read addr | watch addr observer | unwatch addr =>
    simp only [refusal?] at h
    split at h
    · cases h
    · next hout =>
      cases h
      exact bind_of_error (if_neg hout)
  | peek addr =>
    simp only [refusal?] at h
    split at h
    · cases h
    · next hout =>
      cases h
      simp only [run, peek_of_le (Nat.le_of_not_lt hout)]
  | load addr words =>
    simp only [refusal?] at h
    split at h
    · next hin =>
      split at h
      · cases h
      · next hlong =>
        cases h
        exact bind_of_error ((if_pos hin).trans (if_neg hlong))
    · next hout =>
      cases h
      exact bind_of_error (if_neg hout)
  | clear | dump start count => cases h

/-- …and any other succeeds. -/
theorem exists_run (h : op.refusal? s.1.capacity = none) :
    ∃ answer, op.run s = .ok answer (op.effect s) := by
  obtain ⟨m, world⟩ := s
  cases op with
  | write addr value =>
    have hin : addr < m.capacity := by simpa [refusal?] using h
    exact ⟨_, bind_of_ok (write_eq hin value world)⟩
  | read addr =>
    have hin : addr < m.capacity := by simpa [refusal?] using h
    exact ⟨_, bind_of_ok (read_eq hin world)⟩
  | peek addr =>
    have hin : addr < m.capacity := by simpa [refusal?] using h
    refine ⟨.word (m.word addr), ?_⟩
    simp only [run, peek_of_lt hin]
    rfl
  | load addr words =>
    obtain ⟨hin, hfits⟩ := fits_of_accepted h
    exact ⟨_, bind_of_ok ((if_pos hin).trans (if_pos hfits))⟩
  | watch addr observer | unwatch addr =>
    have hin : addr < m.capacity := by simpa [refusal?] using h
    exact ⟨_, bind_of_ok (if_pos hin)⟩
  | clear | dump start count => exact ⟨_, rfl⟩

theorem capacity_effect (op : Operation ω) (s : Memory ω × σ) :
    (op.effect s).1.capacity = s.1.capacity := by
  cases op with
  | write addr value => exact capacity_store ..
  | load addr words => exact capacity_storeAll ..
  | clear => exact capacity_clear _
  | read | peek | watch | unwatch | dump => rfl

/-- It puts a word into a cell or leaves the cell as it is… -/
theorem word_effect (h : op.refusal? s.1.capacity = none) (addr : Nat) :
    (op.effect s).1.word addr = (op.placed? addr).getD (s.1.word addr) := by
  obtain ⟨m, world⟩ := s
  cases op with
  | write place value =>
    have hin : place < m.capacity := by simpa [refusal?] using h
    simp only [effect, word_store, placed?]
    by_cases hplace : place = addr
    · subst hplace
      simp [hin]
    · simp [hplace]
  | load start words =>
    obtain ⟨hin, hfits⟩ : start < m.capacity ∧ words.length ≤ m.capacity - start :=
      fits_of_accepted h
    simp only [effect, word, cell?_storeAll, placed?]
    by_cases hcovers : start ≤ addr ∧ addr < start + words.length ∧ addr < m.capacity
    · have hindex : addr - start < words.length := by omega
      rw [if_pos hcovers, if_pos hcovers.1, List.getElem?_eq_getElem hindex, Option.getD_some,
        Option.getD_some]
    · rw [if_neg hcovers]
      by_cases hstart : start ≤ addr
      · have hpast : words.length ≤ addr - start := by omega
        rw [if_pos hstart, List.getElem?_eq_none hpast, Option.getD_none]
      · rw [if_neg hstart, Option.getD_none]
  | clear =>
    simp only [effect, word, cell?_clear, placed?]
    split <;> rfl
  | read | peek | watch | unwatch | dump => rfl

/-- …and likewise with observers. -/
theorem observer?_effect (h : op.refusal? s.1.capacity = none) (addr : Nat) :
    (op.effect s).1.observer? addr = (op.installed? addr).getD (s.1.observer? addr) := by
  obtain ⟨m, world⟩ := s
  cases op with
  | watch place observer | unwatch place =>
    have hin : place < m.capacity := by simpa [refusal?] using h
    simp only [effect, observer?_setObserver, installed?]
    by_cases hplace : place = addr
    · subst hplace
      simp [hin]
    · simp [hplace]
  | load start words => exact observer?_storeAll ..
  | write | read | peek | clear | dump => rfl

end Operation

/-! ## All that was done -/

section Past

variable [Observer ω σ] {capacity : Nat} {world : σ} {kept : List (Operation ω)}

/-- A new memory and the world after operations that it does not refuse, the latest first. -/
def replayed (capacity : Nat) (world : σ) (kept : List (Operation ω)) : Memory ω × σ :=
  kept.foldr Operation.effect (ofCapacity capacity, world)

theorem replayed_cons (op : Operation ω) (kept : List (Operation ω)) :
    replayed capacity world (op :: kept) = op.effect (replayed capacity world kept) := rfl

theorem capacity_replayed (kept : List (Operation ω)) :
    (replayed capacity world kept).1.capacity = capacity := by
  induction kept with
  | nil => exact capacity_ofCapacity capacity
  | cons op kept ih => exact (op.capacity_effect _).trans ih

/-- **What a memory refuses does not count.** -/
theorem after_eq (past : List (Operation ω)) :
    after capacity world past = replayed capacity world (succeeded capacity past) := by
  induction past with
  | nil => rfl
  | cons op past ih =>
    have hafter : after capacity world (op :: past) =
        stateOf (op.run (after capacity world past)) := rfl
    have hcapacity : (replayed capacity world (succeeded capacity past)).1.capacity = capacity :=
      capacity_replayed _
    rw [hafter, ih]
    cases hrefusal : op.refusal? capacity with
    | some e =>
      have hkept : succeeded capacity (op :: past) = succeeded capacity past := by
        simp [succeeded, hrefusal]
      rw [hkept, Operation.run_of_refused (hcapacity.symm ▸ hrefusal)]
      rfl
    | none =>
      have hkept : succeeded capacity (op :: past) = op :: succeeded capacity past := by
        simp [succeeded, hrefusal]
      rw [← hcapacity] at hrefusal
      obtain ⟨answer, hrun⟩ := Operation.exists_run hrefusal
      rw [hkept, hrun]
      rfl

/-- It refuses nothing of what is left. -/
theorem accepted_of_mem_succeeded {past : List (Operation ω)} :
    ∀ op ∈ succeeded capacity past, op.refusal? capacity = none :=
  fun _ hmem => Option.isNone_iff_eq_none.mp (List.mem_filter.mp hmem).2

theorem stored_cons (addr : Nat) (op : Operation ω) (kept : List (Operation ω)) :
    stored addr (op :: kept) = (op.placed? addr).getD (stored addr kept) := by
  rw [stored, List.findSome?_cons]
  cases op.placed? addr <;> rfl

theorem carried_cons (addr : Nat) (op : Operation ω) (kept : List (Operation ω)) :
    carried addr (op :: kept) = (op.installed? addr).getD (carried addr kept) := by
  rw [carried, List.findSome?_cons]
  cases op.installed? addr <;> rfl

/-- **A cell holds what was put into it last**… -/
theorem word_replayed (h : ∀ op ∈ kept, op.refusal? capacity = none) (addr : Nat) :
    (replayed capacity world kept).1.word addr = stored addr kept := by
  induction kept with
  | nil =>
    change ((ofCapacity capacity : Memory ω).cell? addr).getD 0 = 0
    rw [cell?_ofCapacity]
    split <;> rfl
  | cons op kept ih =>
    obtain ⟨hop, hkept⟩ := List.forall_mem_cons.mp h
    rw [replayed_cons, Operation.word_effect (by rw [capacity_replayed, hop]), ih hkept,
      stored_cons]

/-- …**and an address carries the observer it was given last**. -/
theorem observer?_replayed (h : ∀ op ∈ kept, op.refusal? capacity = none) (addr : Nat) :
    (replayed capacity world kept).1.observer? addr = carried addr kept := by
  induction kept with
  | nil => exact observer?_ofCapacity capacity addr
  | cons op kept ih =>
    obtain ⟨hop, hkept⟩ := List.forall_mem_cons.mp h
    rw [replayed_cons, Operation.observer?_effect (by rw [capacity_replayed, hop]), ih hkept,
      carried_cons]

end Past

/-! ## Scribes -/

/-- What stands in front of an observer and notes what it is told, the latest first. -/
structure Scribe (ω : Type) where
  inner : ω

namespace Scribe

variable [Observer ω σ]

def onWrite (scribe : Scribe ω) (w : Word) : σ × List (ω × Word) → σ × List (ω × Word)
  | (world, log) => (Observer.onWrite scribe.inner w world, (scribe.inner, w) :: log)

def onRead (scribe : Scribe ω) : σ × List (ω × Word) → Option Word × σ × List (ω × Word)
  | (world, log) =>
    match Observer.onRead scribe.inner world with
    | (supplied, world) => (supplied, world, log)

instance : Observer (Scribe ω) (σ × List (ω × Word)) := ⟨onWrite, onRead⟩

end Scribe

/-- The same operation, with a scribe in front of the observer that it installs. -/
def Operation.scribed : Operation ω → Operation (Scribe ω)
  | .write addr value => .write addr value
  | .read addr => .read addr
  | .peek addr => .peek addr
  | .load addr words => .load addr words
  | .watch addr observer => .watch addr ⟨observer⟩
  | .unwatch addr => .unwatch addr
  | .clear => .clear
  | .dump start count => .dump start count

/-- The same memory and world, with scribes and their log. -/
structure Scribed (s : Memory ω × σ) (t : Memory (Scribe ω) × (σ × List (ω × Word))) : Prop where
  cell? : ∀ addr, t.1.cell? addr = s.1.cell? addr
  observer? : ∀ addr, t.1.observer? addr = (s.1.observer? addr).map Scribe.mk
  world : t.2.1 = s.2

theorem Operation.refusal?_scribed (op : Operation ω) (capacity : Nat) :
    op.scribed.refusal? capacity = op.refusal? capacity := by
  cases op <;> rfl

theorem succeeded_map_scribed (capacity : Nat) (past : List (Operation ω)) :
    succeeded capacity (past.map Operation.scribed) =
      (succeeded capacity past).map Operation.scribed := by
  simp only [succeeded, List.filter_map, Function.comp_def, Operation.refusal?_scribed]

theorem Scribed.capacity_eq {s : Memory ω × σ} {t : Memory (Scribe ω) × (σ × List (ω × Word))}
    (h : Scribed s t) : t.1.capacity = s.1.capacity :=
  capacity_congr h.cell?

section Log

variable [Observer ω σ] {s : Memory ω × σ} {t : Memory (Scribe ω) × (σ × List (ω × Word))}
  {capacity : Nat} {world : σ} {kept : List (Operation ω)}

/-- A scribe notes what its observer is told… -/
theorem Scribed.told_eq (h : Scribed s t) (addr : Nat) (w : Word) :
    t.1.told addr w t.2 =
      (s.1.told addr w s.2, ((s.1.observer? addr).map fun o => (o, w)).toList ++ t.2.2) := by
  rw [told, told, h.observer? addr, ← h.world]
  cases s.1.observer? addr <;> rfl

/-- …and not what it is asked. -/
theorem Scribed.asked_eq (h : Scribed s t) (addr : Nat) :
    t.1.asked addr t.2 =
      ((s.1.asked addr s.2).1, (s.1.asked addr s.2).2, t.2.2) := by
  rw [asked, asked, h.observer? addr, ← h.world]
  cases s.1.observer? addr <;> rfl

/-- **A scribe makes no difference to any operation**… -/
theorem Scribed.effect (h : Scribed s t) (op : Operation ω) :
    Scribed (op.effect s) (op.scribed.effect t) := by
  cases op with
  | write addr value =>
    refine ⟨fun place => ?_, h.observer?, congrArg Prod.fst (h.told_eq addr _)⟩
    change (t.1.store _ _).cell? _ = (s.1.store _ _).cell? _
    rw [cell?_store, cell?_store, h.capacity_eq, h.cell?]
  | read addr => exact ⟨h.cell?, h.observer?, congrArg (·.2.1) (h.asked_eq addr)⟩
  | load addr words =>
    refine ⟨fun place => ?_, fun place => ?_, h.world⟩
    · change (t.1.storeAll _ _).cell? _ = (s.1.storeAll _ _).cell? _
      rw [cell?_storeAll, cell?_storeAll, h.capacity_eq, h.cell?]
    · change (t.1.storeAll _ _).observer? _ = ((s.1.storeAll _ _).observer? _).map _
      rw [observer?_storeAll, observer?_storeAll, h.observer?]
  | watch addr observer =>
    refine ⟨h.cell?, fun place => ?_, h.world⟩
    change (t.1.setObserver _ _).observer? _ = ((s.1.setObserver _ _).observer? _).map _
    rw [observer?_setObserver, observer?_setObserver, h.capacity_eq, h.observer?]
    split <;> rfl
  | unwatch addr =>
    refine ⟨h.cell?, fun place => ?_, h.world⟩
    change (t.1.setObserver _ _).observer? _ = ((s.1.setObserver _ _).observer? _).map _
    rw [observer?_setObserver, observer?_setObserver, h.capacity_eq, h.observer?]
    split <;> rfl
  | clear =>
    refine ⟨fun place => ?_, h.observer?, h.world⟩
    change t.1.clear.cell? _ = s.1.clear.cell? _
    rw [cell?_clear, cell?_clear, h.capacity_eq]
  | peek | dump => exact h

/-- …so that there are scribes in front of all observers ever after. -/
theorem scribed_replayed (kept : List (Operation ω)) :
    Scribed (replayed capacity world kept)
      (replayed capacity (world, []) (kept.map Operation.scribed)) := by
  induction kept with
  | nil =>
    refine ⟨fun addr => ?_, fun addr => ?_, rfl⟩
    · exact (cell?_ofCapacity ..).trans (cell?_ofCapacity ..).symm
    · change (ofCapacity capacity).observer? addr = ((ofCapacity capacity).observer? addr).map _
      rw [observer?_ofCapacity, observer?_ofCapacity]
      rfl
  | cons op kept ih => exact ih.effect op

theorem notices_cons_write (addr value : Nat) (past : List (Operation ω)) :
    notices (.write addr value :: past) =
      ((carried addr past).map fun o => (o, UInt16.ofNat value)).toList ++ notices past := by
  rw [notices]
  cases carried addr past <;> rfl

/-- **The log holds the writes to addresses that carried an observer**, and nothing else. -/
theorem log_replayed (h : ∀ op ∈ kept, op.refusal? capacity = none) :
    (replayed capacity (world, []) (kept.map Operation.scribed)).2.2 = notices kept := by
  induction kept with
  | nil => rfl
  | cons op kept ih =>
    obtain ⟨-, hkept⟩ := List.forall_mem_cons.mp h
    have hscribed : Scribed (replayed capacity world kept) _ := scribed_replayed kept
    have hcarried : ∀ addr, (replayed capacity world kept).1.observer? addr = carried addr kept :=
      observer?_replayed hkept
    rw [List.map_cons, replayed_cons]
    cases op with
    | write addr value =>
      rw [notices_cons_write, ← hcarried, ← ih hkept]
      exact congrArg Prod.snd (hscribed.told_eq addr (UInt16.ofNat value))
    | read addr => exact (congrArg (·.2.2) (hscribed.asked_eq addr)).trans (ih hkept)
    | peek | load | watch | unwatch | clear | dump => exact ih hkept

end Log

/-- **Observers see exactly the writes.**  After any past, a cell holds the word that was put into it
last, and an address carries the observer it was given last.  A read gives the word that this
observer supplies, or else the stored one.  What is refused changes nothing.  With scribes in front
of the observers nothing else is different, and their log holds the writes that were not refused and
met an observer, each once, with the word that was stored. -/
theorem log_of_past [Observer ω σ] (capacity : Nat) (world : σ) (past : List (Operation ω)) :
    let s := after capacity world past
    let scribed := after capacity (world, []) (past.map Operation.scribed)
    let kept := succeeded capacity past
    s.1.capacity = capacity ∧
      (∀ addr, s.1.observer? addr = carried addr kept) ∧
      (∀ addr, s.1.peek addr =
        if addr < capacity then .ok (stored addr kept) else .error (.outOfRange addr capacity)) ∧
      (∀ addr, read addr s =
        if addr < capacity then
          match carried addr kept with
          | none => .ok (stored addr kept) s
          | some observer =>
            .ok ((Observer.onRead observer s.2).1.getD (stored addr kept))
              (s.1, (Observer.onRead observer s.2).2)
        else .error (.outOfRange addr capacity) s) ∧
      (∀ op : Operation ω,
        match op.refusal? capacity with
        | some e => op.run s = .error e s
        | none => ∃ answer t, op.run s = .ok answer t) ∧
      Scribed s scribed ∧
      scribed.2.2 = notices kept := by
  intro s scribed kept
  have haccepted : ∀ op ∈ kept, op.refusal? capacity = none := accepted_of_mem_succeeded
  have hs : s = replayed capacity world kept := after_eq past
  have ht : scribed = replayed capacity (world, []) (kept.map Operation.scribed) :=
    (after_eq _).trans (congrArg _ (succeeded_map_scribed capacity past))
  have hcapacity : s.1.capacity = capacity := hs ▸ capacity_replayed kept
  have hword : ∀ addr, s.1.word addr = stored addr kept := hs ▸ word_replayed haccepted
  have hobserver : ∀ addr, s.1.observer? addr = carried addr kept :=
    hs ▸ observer?_replayed haccepted
  refine ⟨hcapacity, hobserver, fun addr => ?peek, fun addr => ?read, fun op => ?run,
    hs ▸ ht ▸ scribed_replayed kept, ht ▸ log_replayed haccepted⟩
  case peek =>
    split
    · next hin => rw [peek_of_lt (hcapacity ▸ hin), hword]
    · next hout => rw [peek_of_le (hcapacity ▸ Nat.le_of_not_lt hout), hcapacity]
  case read =>
    split
    · next hin =>
      rw [← hcapacity] at hin
      rw [read_eq hin s.2, asked, hobserver, hword]
      cases carried addr kept <;> rfl
    · next hout =>
      rw [← hcapacity] at hout
      rw [read_eq_error (Nat.le_of_not_lt hout) s.2, hcapacity]
  case run =>
    cases hrefusal : op.refusal? capacity with
    | some e => exact Operation.run_of_refused (hcapacity ▸ hrefusal)
    | none =>
      obtain ⟨answer, hrun⟩ := Operation.exists_run (s := s) (hcapacity ▸ hrefusal)
      exact ⟨answer, _, hrun⟩

/-- The observer that was put there last is told, until it is taken away. -/
example : notices (succeeded 8 [.write 5 2, .unwatch 5, .write 5 0x10001, .watch 5 'b', .watch 5 'a',
    .watch 8 'c']) = [('b', 1)] := by decide

end Memory

end WordMachine
