import WordMachine.Memory.Basic

/-!
# Memory/Lemmas — what each operation does to cells and observers

A memory is seen through `capacity`, `cell?` and `observer?`. Every operation gets one equation for
each of the three, so that nothing else has to know how cells and observers are kept. For the
operations on many addresses these are `cell?_storeAll` and `observer?_setObservers`, and two
memories with the same cells and observers are the same (`ext_cells`).
-/

namespace WordMachine

namespace Memory

variable {ω : Type}

/-! ## Capacity -/

@[simp] theorem capacity_ofCapacity (n : Nat) : (ofCapacity n : Memory ω).capacity = n := by
  simp [ofCapacity, capacity]

@[simp] theorem capacity_store (m : Memory ω) (addr : Nat) (w : Word) :
    (m.store addr w).capacity = m.capacity := by
  simp [store, capacity]

@[simp] theorem capacity_setObserver (m : Memory ω) (addr : Nat) (o : Option ω) :
    (m.setObserver addr o).capacity = m.capacity := rfl

@[simp] theorem capacity_clear (m : Memory ω) : m.clear.capacity = m.capacity := by
  simp [clear, capacity]

theorem size_observers_eq (m : Memory ω) : m.observers.size = m.capacity := m.size_observers

/-! ## Cells and observers -/

theorem cell?_eq_none_iff {m : Memory ω} {addr : Nat} :
    m.cell? addr = none ↔ m.capacity ≤ addr := by
  simp [cell?, capacity]

theorem observer?_eq_none_of_capacity_le {m : Memory ω} {addr : Nat} (h : m.capacity ≤ addr) :
    m.observer? addr = none := by
  have : m.observers.size ≤ addr := by rw [size_observers_eq]; exact h
  simp [observer?, this]

@[simp] theorem cell?_ofCapacity (n addr : Nat) :
    (ofCapacity n : Memory ω).cell? addr = if addr < n then some 0 else none := by
  simp [ofCapacity, cell?, Array.getElem?_replicate]

@[simp] theorem observer?_ofCapacity (n addr : Nat) :
    (ofCapacity n : Memory ω).observer? addr = none := by
  simp only [ofCapacity, observer?, Array.getElem?_replicate]
  split <;> rfl

theorem cell?_store (m : Memory ω) (addr place : Nat) (w : Word) :
    (m.store addr w).cell? place =
      if addr = place ∧ place < m.capacity then some w else m.cell? place := by
  simp only [store, cell?, capacity, Array.getElem?_setIfInBounds]
  by_cases h : addr = place
  · subst h
    by_cases hlt : addr < m.cells.size <;> simp [hlt]
  · simp [h]

@[simp] theorem observer?_store (m : Memory ω) (addr place : Nat) (w : Word) :
    (m.store addr w).observer? place = m.observer? place := rfl

@[simp] theorem cell?_setObserver (m : Memory ω) (addr place : Nat) (o : Option ω) :
    (m.setObserver addr o).cell? place = m.cell? place := rfl

theorem observer?_setObserver (m : Memory ω) (addr place : Nat) (o : Option ω) :
    (m.setObserver addr o).observer? place =
      if addr = place ∧ place < m.capacity then o else m.observer? place := by
  simp only [setObserver, observer?, ← size_observers_eq, Array.getElem?_setIfInBounds]
  by_cases h : addr = place
  · subst h
    by_cases hlt : addr < m.observers.size <;> simp [hlt]
  · simp [h]

@[simp] theorem cell?_clear (m : Memory ω) (addr : Nat) :
    m.clear.cell? addr = if addr < m.capacity then some 0 else none := by
  simp only [clear, cell?, Array.getElem?_replicate]
  rfl

@[simp] theorem observer?_clear (m : Memory ω) (addr : Nat) :
    m.clear.observer? addr = m.observer? addr := rfl

/-- **Two memories are the same if they show the same cells and observers.** -/
theorem ext_cells {m n : Memory ω} (hc : ∀ addr, m.cell? addr = n.cell? addr)
    (ho : ∀ addr, m.observer? addr = n.observer? addr) : m = n := by
  obtain ⟨cells, observers, hsize⟩ := m
  obtain ⟨cells', observers', hsize'⟩ := n
  have hcells : cells = cells' := Array.ext_getElem? fun i => hc i
  subst hcells
  have hlen : observers.size = observers'.size := hsize.trans hsize'.symm
  have hobs : observers = observers' := by
    refine Array.ext hlen fun i hi hi' => ?_
    have := ho i
    simpa [observer?, hi, hi'] using this
  subst hobs
  rfl

/-! ## Many addresses at once -/

private theorem storeAll_cons (m : Memory ω) (addr : Nat) (w : Word) (words : List Word) :
    m.storeAll addr (w :: words) = (m.store addr w).storeAll (addr + 1) words := rfl

@[simp] theorem capacity_storeAll (m : Memory ω) (addr : Nat) (words : List Word) :
    (m.storeAll addr words).capacity = m.capacity := by
  induction words generalizing m addr with
  | nil => rfl
  | cons w words ih => rw [storeAll_cons, ih, capacity_store]

@[simp] theorem observer?_storeAll (m : Memory ω) (addr place : Nat) (words : List Word) :
    (m.storeAll addr words).observer? place = m.observer? place := by
  induction words generalizing m addr with
  | nil => rfl
  | cons w words ih => rw [storeAll_cons, ih, observer?_store]

/-- **The words stand in consecutive cells from `addr` on**, as far as there are cells, and no other
cell has changed. -/
theorem cell?_storeAll (m : Memory ω) (addr place : Nat) (words : List Word) :
    (m.storeAll addr words).cell? place =
      if addr ≤ place ∧ place < addr + words.length ∧ place < m.capacity then
        words[place - addr]?
      else m.cell? place := by
  induction words generalizing m addr with
  | nil =>
    have : ¬(addr ≤ place ∧ place < addr + 0 ∧ place < m.capacity) := by omega
    simp only [List.length_nil, this, if_false]
    rfl
  | cons w words ih =>
    rw [storeAll_cons, ih, cell?_store, capacity_store]
    by_cases hplace : addr = place
    · subst hplace
      have hlater : ¬(addr + 1 ≤ addr) := by omega
      by_cases hlt : addr < m.capacity <;> simp [hlater, hlt]
    · by_cases hin : addr + 1 ≤ place ∧ place < addr + 1 + words.length ∧ place < m.capacity
      · have hin' : addr ≤ place ∧ place < addr + (w :: words).length ∧ place < m.capacity := by
          simp only [List.length_cons]
          omega
        have hindex : place - addr = (place - (addr + 1)) + 1 := by omega
        rw [if_pos hin, if_pos hin', hindex, List.getElem?_cons_succ]
      · have hin' : ¬(addr ≤ place ∧ place < addr + (w :: words).length ∧ place < m.capacity) := by
          simp only [List.length_cons]
          omega
        rw [if_neg hin, if_neg hin', if_neg (by omega)]

private theorem observer?_foldl_setObserver (addrs : List Nat) (m : Memory ω) (place : Nat)
    (o : Option ω) :
    (addrs.foldl (fun m addr => m.setObserver addr o) m).observer? place =
      if place ∈ addrs ∧ place < m.capacity then o else m.observer? place := by
  induction addrs generalizing m with
  | nil => simp
  | cons addr addrs ih =>
    rw [List.foldl_cons, ih, observer?_setObserver, capacity_setObserver]
    by_cases hlt : place < m.capacity
    · by_cases hmem : place ∈ addrs
      · simp [hlt, hmem]
      · by_cases heq : addr = place
        · simp [hlt, hmem, heq]
        · simp [hlt, hmem, heq, Ne.symm heq]
    · simp [hlt]

/-- Exactly the addresses of the span that have a cell get the observer. -/
theorem observer?_setObservers (m : Memory ω) (start stop place : Nat) (o : Option ω) :
    (m.setObservers start stop o).observer? place =
      if start ≤ place ∧ place < stop ∧ place < m.capacity then o else m.observer? place := by
  rw [setObservers, observer?_foldl_setObserver]
  have : (place ∈ List.range' start (min stop m.capacity - start) ∧ place < m.capacity) ↔
      (start ≤ place ∧ place < stop ∧ place < m.capacity) := by
    simp only [List.mem_range'_1]
    omega
  simp only [this]

private theorem cell?_foldl_setObserver (addrs : List Nat) (m : Memory ω) (place : Nat)
    (o : Option ω) :
    (addrs.foldl (fun m addr => m.setObserver addr o) m).cell? place = m.cell? place := by
  induction addrs generalizing m with
  | nil => rfl
  | cons addr addrs ih => rw [List.foldl_cons, ih, cell?_setObserver]

@[simp] theorem cell?_setObservers (m : Memory ω) (start stop place : Nat) (o : Option ω) :
    (m.setObservers start stop o).cell? place = m.cell? place :=
  cell?_foldl_setObserver _ m place o

end Memory

end WordMachine
