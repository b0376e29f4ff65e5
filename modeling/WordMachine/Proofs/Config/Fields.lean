import WordMachine.Config

/-!
# Proofs/Config/Fields — a configuration is what its fields are

A field keeps the value that is set, and the others keep theirs. Beyond the range of its fields a
configuration has only its number of memory cells to be refused for (`validate_eq`).
-/

namespace WordMachine

namespace Config

variable {c c' : Config} {f g : Field} {n : Nat} {key : Text}

theorem get_lt_range (c : Config) (f : Field) : c.get f < f.range := by
  cases f
  case memoryWords => exact c.memoryWords.toNat_lt
  case cyclesPerFrame => exact c.cyclesPerFrame.toNat_lt
  all_goals exact UInt16.toNat_lt _

theorem get_set_self (hn : n < f.range) : (c.set f n).get f = n := by
  cases f
  case memoryWords | cyclesPerFrame => exact UInt64.toNat_ofNat_of_lt' hn
  all_goals exact UInt16.toNat_ofNat_of_lt' hn

theorem get_set_of_ne (h : g ≠ f) : (c.set f n).get g = c.get g := by
  cases f
  all_goals
    cases g
    all_goals first
      | rfl
      | exact absurd rfl h

/-- A configuration is what its fields are. -/
theorem ext_get (h : ∀ f, c.get f = c'.get f) : c = c' := by
  obtain ⟨m, cb, kb, db, r, p⟩ := c
  obtain ⟨m', cb', kb', db', r', p'⟩ := c'
  have hm := UInt64.toNat_inj.mp (h .memoryWords)
  have hcb := UInt16.toNat_inj.mp (h .clockBase)
  have hkb := UInt16.toNat_inj.mp (h .keyboardBase)
  have hdb := UInt16.toNat_inj.mp (h .displayBase)
  have hr := UInt16.toNat_inj.mp (h .clockRate)
  have hp := UInt64.toNat_inj.mp (h .cyclesPerFrame)
  subst hm hcb hkb hdb hr hp
  rfl

theorem Field.mem_all (f : Field) : f ∈ Field.all := by
  cases f
  all_goals decide

theorem Field.ofName?_name (f : Field) : Field.ofName? f.name = some f := by
  cases f
  all_goals decide

theorem Field.ofName?_eq_none (h : ∀ f : Field, f.name ≠ key) : Field.ofName? key = none :=
  List.find?_eq_none.mpr fun f _ => by simp [h f]

theorem validate_eq (c : Config) :
    c.validate = if 1 ≤ c.memoryWords.toNat ∧ c.memoryWords.toNat ≤ Word.count then .ok ()
      else .error (.memoryWords c.memoryWords) := by
  have hzero : c.memoryWords = 0 ↔ c.memoryWords.toNat = 0 := UInt64.toNat_inj.symm
  simp only [validate, hzero]
  by_cases hrange : 1 ≤ c.memoryWords.toNat ∧ c.memoryWords.toNat ≤ Word.count
  · rw [if_neg (by omega), if_pos hrange]
  · rw [if_pos (by omega), if_neg hrange]

theorem validate_eq_ok_iff : c.validate = .ok () ↔
    1 ≤ c.memoryWords.toNat ∧ c.memoryWords.toNat ≤ Word.count := by
  rw [validate_eq]
  split
  · next h => exact iff_of_true rfl h
  · next h => exact iff_of_false (by simp) h

end Config

end WordMachine
