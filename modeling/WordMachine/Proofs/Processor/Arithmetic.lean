import Mathlib.Tactic.Ring
import WordMachine.Memory.Probe
import WordMachine.Proofs.Processor.Unobserved
import WordMachine.Proofs.Processor.Width

/-!
# Proofs/Processor/Arithmetic — what an instruction computes, as equations over the integers

An operation leaves two words, its result and EX.  After a sum, a product, a quotient or a shift to
the right the two together are the whole number: EX is its high half, or what is behind the point.
`Alu.Law` says so operation by operation, without bits that are cut off, and `Alu.law_compute` that
it holds of all words.  A shift by more than 16 is by more than the words have room for, so it has
its own equations; shift counts are taken modulo 32.

Main statement: `law_of_step`.  While no cell is observed, what a step stores at its destination and
leaves in EX obeys the law of its operation.
-/

namespace WordMachine

namespace Alu

/-- **The law of an operation** on words `a` and `b`: its result `r` and EX after it.  EX was `old`
before. -/
def Law (op : Opcode) (a b old r ex : Word) : Prop :=
  let n := b.toNat % 32
  match op with
  | .nop | .set => r = b ∧ ex = old
  | .add => ex.toNat * 65536 + r.toNat = a.toNat + b.toNat
  | .sub => (r.toNat : Int) = ((a.toNat : Int) - b.toNat) % 65536 ∧
      ex.toNat = if a.toNat < b.toNat then 0xFFFF else 0
  | .mul => ex.toNat * 65536 + r.toNat = a.toNat * b.toNat
  | .mli => ex.signed * 65536 + r.toNat = a.signed * b.signed
  | .div =>
    if b.toNat = 0 then r.toNat = 0 ∧ ex.toNat = 0
    else r.toNat * 65536 + ex.toNat = 65536 * a.toNat / b.toNat
  | .and => (∀ k, r.toNat.testBit k = (a.toNat.testBit k && b.toNat.testBit k)) ∧ ex = old
  | .bor => (∀ k, r.toNat.testBit k = (a.toNat.testBit k || b.toNat.testBit k)) ∧ ex = old
  | .xor => (∀ k, r.toNat.testBit k = (a.toNat.testBit k ^^ b.toNat.testBit k)) ∧ ex = old
  | .shr =>
    if n ≤ 16 then r.toNat * 65536 + ex.toNat = a.toNat * 2 ^ (16 - n)
    else r.toNat = 0 ∧ ex.toNat = 0
  | .asr =>
    if n ≤ 16 then r.signed * 65536 + ex.toNat = a.signed * 2 ^ (16 - n)
    else r.toNat = (if a.signed < 0 then 0xFFFF else 0) ∧ ex.toNat = 0
  | .shl => r.toNat = a.toNat * 2 ^ n % 65536 ∧
      ex.toNat = if n ≤ 16 then a.toNat * 2 ^ (16 - n) % 65536 else 0

/-! ## Words of integers -/

theorem toNat_ofInt (z : Int) : ((UInt16.ofInt z).toNat : Int) = z % 65536 := by
  rw [UInt16.ofInt, UInt16.toNat_ofNat']
  omega

/-- The signed reading of a small integer's word is the integer. -/
theorem signed_ofInt {z : Int} (h : -0x8000 ≤ z) (h' : z < 0x8000) :
    Word.signed (UInt16.ofInt z) = z := by
  have hword := toNat_ofInt z
  rw [Word.signed]
  split <;> omega

/-- A number of two words has them as its halves… -/
theorem halves {n : Nat} (h : n < 0x10000 * 0x10000) :
    (UInt16.ofNat (n / 0x10000)).toNat * 65536 + (UInt16.ofNat n).toNat = n := by
  rw [UInt16.toNat_ofNat', UInt16.toNat_ofNat']
  omega

/-- …and so has a signed one, of which the high half is signed. -/
theorem halves_signed {z : Int} (h : -0x80000000 ≤ z) (h' : z < 0x80000000) :
    Word.signed (UInt16.ofInt (z / 0x10000)) * 65536 + (UInt16.ofInt z).toNat = z := by
  rw [signed_ofInt (by omega) (by omega), toNat_ofInt]
  omega

variable {a b : Word} {n : Nat}

/-! ## Shifts

A shift by `n` to the right divides by `2 ^ n`, and what remains is `a * 2 ^ (16 - n)` modulo 65536:
the two are the quotient and the remainder of `a * 2 ^ (16 - n)` divided by 65536. -/

theorem two_pow_mul (h : n ≤ 16) : 2 ^ n * 2 ^ (16 - n) = 65536 := by
  rw [← Nat.pow_add, Nat.add_sub_cancel' h]

theorem two_pow_le (h : n ≤ 16) : 2 ^ (16 - n) ≤ 65536 :=
  two_pow_mul h ▸ Nat.le_mul_of_pos_left _ (Nat.two_pow_pos n)

theorem shiftedOut_eq (h : n ≤ 16) : shiftedOut a n = UInt16.ofNat (a.toNat * 2 ^ (16 - n)) := by
  have hcount : (48 - n % 32) % 32 = 16 - n := by omega
  rw [shiftedOut, Nat.shiftLeft_eq, hcount]

/-- Of a product the low word is the same in both readings. -/
theorem ofInt_signed_mul (k : Nat) :
    UInt16.ofInt (a.signed * k) = UInt16.ofNat (a.toNat * k) := by
  have hword : a.signed % 65536 = (a.toNat : Int) % 65536 := by
    rw [Word.signed]
    split <;> omega
  have hlow : a.signed * k % 65536 = ((a.toNat * k % 65536 : Nat) : Int) := by
    rw [Int.natCast_emod, Int.natCast_mul, Int.mul_emod, hword, ← Int.mul_emod]
    rfl
  rw [← UInt16.toNat_inj, ← Int.ofNat_inj, toNat_ofInt, hlow, UInt16.toNat_ofNat']

/-- A shift by more than 16 leaves nothing in EX: it would be 17 or more places up. -/
theorem shiftedOut_of_lt (h : 16 < n) (h' : n < 32) : (shiftedOut a n).toNat = 0 := by
  have hcount : (48 - n % 32) % 32 = 16 + (32 - n) := by omega
  rw [shiftedOut, UInt16.toNat_ofNat', Nat.shiftLeft_eq, hcount, Nat.pow_add, Nat.mul_left_comm]
  exact Nat.mul_mod_right _ _

theorem shiftRight_eq (h : n ≤ 16) : a.toNat >>> n = a.toNat * 2 ^ (16 - n) / 65536 := by
  rw [Nat.shiftRight_eq_div_pow, ← two_pow_mul h, Nat.mul_div_mul_right _ _ (Nat.two_pow_pos _)]

theorem signed_shiftRight_eq (h : n ≤ 16) :
    a.signed >>> n = a.signed * 2 ^ (16 - n) / 65536 := by
  have hsplit : (65536 : Int) = 2 ^ n * 2 ^ (16 - n) := by exact_mod_cast (two_pow_mul h).symm
  rw [Int.shiftRight_eq_div_pow, hsplit,
    Int.mul_ediv_mul_of_pos_left _ _ (Int.pow_pos (by decide))]
  norm_cast

/-- A shift by more than 16 leaves nothing but the sign. -/
theorem signed_shiftRight_of_lt (h : 16 < n) :
    a.signed >>> n = if a.signed < 0 then -1 else 0 := by
  obtain ⟨hlow, hhigh⟩ := signed_bounds a
  have hlarge : (65536 : Int) ≤ (2 ^ n : Nat) := by
    exact_mod_cast Nat.pow_le_pow_right (n := 2) (by decide) (Nat.le_of_lt h)
  rw [Int.shiftRight_eq_div_pow]
  split
  · next hneg => exact Int.ediv_eq_neg_one_of_neg_of_le hneg (by omega)
  · next hnonneg => exact Int.ediv_eq_zero_of_lt (by omega) (by omega)

/-! ## Quotients -/

/-- The quotient and the part after the point. -/
theorem quotient_eq (hb : b.toNat ≠ 0) :
    (a / b).toNat * 65536 + (UInt16.ofNat (a.toNat % b.toNat * 0x10000 / b.toNat)).toNat =
      65536 * a.toNat / b.toNat := by
  have hpos : 0 < b.toNat := Nat.pos_of_ne_zero hb
  have hless : a.toNat % b.toNat * 0x10000 / b.toNat < 0x10000 := by
    refine Nat.div_lt_of_lt_mul ?_
    exact Nat.mul_lt_mul_of_pos_right (Nat.mod_lt _ hpos) (by decide)
  have hsplit : 65536 * a.toNat =
      a.toNat % b.toNat * 0x10000 + b.toNat * (a.toNat / b.toNat * 65536) := by
    conv => lhs; rw [← Nat.div_add_mod a.toNat b.toNat]
    ring
  rw [UInt16.toNat_div, UInt16.toNat_ofNat', Nat.mod_eq_of_lt hless, hsplit,
    Nat.add_mul_div_left _ _ hpos, Nat.add_comm]


/-! ## The law -/

variable (old : Word)

theorem law_sub : Law .sub a b old (a - b) (if a < b then 0xFFFF else 0) := by
  have ha := a.toNat_lt
  have hb := b.toNat_lt
  refine ⟨?_, ?_⟩
  · rw [UInt16.toNat_sub]
    omega
  · simp only [UInt16.lt_iff_toNat_lt]
    split <;> rfl

theorem law_div : Law .div a b old (compute .div a b).result ((compute .div a b).ex.getD old) := by
  by_cases hzero : b = 0
  · subst hzero
    exact ⟨rfl, rfl⟩
  · have hne : b.toNat ≠ 0 := fun h => hzero (UInt16.toNat_inj.mp h)
    simp only [Law, compute, hzero, hne, if_false, Option.getD_some]
    exact quotient_eq hne

theorem law_shr : Law .shr a b old (UInt16.ofNat (a.toNat >>> (b.toNat % 32)))
    (shiftedOut a (b.toNat % 32)) := by
  simp only [Law]
  split
  · next hle =>
    rw [shiftRight_eq hle, shiftedOut_eq hle]
    exact halves (Nat.mul_lt_mul_of_lt_of_le a.toNat_lt (two_pow_le hle) (by decide))
  · next hlt =>
    have hsmall : a.toNat < 2 ^ (b.toNat % 32) :=
      Nat.lt_of_lt_of_le a.toNat_lt (Nat.pow_le_pow_right (by decide) (by omega))
    rw [Nat.shiftRight_eq_zero _ _ hsmall, shiftedOut_of_lt (by omega) (by omega)]
    exact ⟨rfl, rfl⟩

theorem law_asr : Law .asr a b old (UInt16.ofInt (a.signed >>> (b.toNat % 32)))
    (shiftedOut a (b.toNat % 32)) := by
  simp only [Law]
  split
  · next hle =>
    obtain ⟨hlow, hhigh⟩ := signed_bounds a
    have hpower : (2 : Int) ^ (16 - b.toNat % 32) ≤ 65536 := by exact_mod_cast two_pow_le hle
    have hpos : (0 : Int) < 2 ^ (16 - b.toNat % 32) := Int.pow_pos (by decide)
    have hword := ofInt_signed_mul (a := a) (2 ^ (16 - b.toNat % 32))
    push_cast at hword
    rw [signed_shiftRight_eq hle, shiftedOut_eq hle, ← hword]
    exact halves_signed (by nlinarith) (by nlinarith)
  · next hlt =>
    rw [signed_shiftRight_of_lt (by omega), shiftedOut_of_lt (by omega) (by omega)]
    refine ⟨?_, rfl⟩
    split <;> rfl

theorem law_shl : Law .shl a b old (UInt16.ofNat (a.toNat <<< (b.toNat % 32)))
    (shiftedOut a (b.toNat % 32)) := by
  refine ⟨?_, ?_⟩
  · rw [UInt16.toNat_ofNat', Nat.shiftLeft_eq]
  · split
    · next hle => rw [shiftedOut_eq hle, UInt16.toNat_ofNat']
    · next hlt => exact shiftedOut_of_lt (by omega) (by omega)

variable (a b)

/-- **Every operation obeys its law**, on all words. -/
theorem law_compute (op : Opcode) :
    Law op a b old (compute op a b).result ((compute op a b).ex.getD old) := by
  have ha := a.toNat_lt
  have hb := b.toNat_lt
  cases op with
  | nop | set => exact ⟨rfl, rfl⟩
  | add => exact halves (by omega)
  | sub => exact law_sub old
  | mul => exact halves (Nat.mul_lt_mul'' ha hb)
  | mli =>
    obtain ⟨hlow, hhigh⟩ := signed_bounds a
    obtain ⟨hlow', hhigh'⟩ := signed_bounds b
    exact halves_signed (by nlinarith) (by nlinarith)
  | div => exact law_div old
  | and => exact ⟨fun k => by rw [compute, UInt16.toNat_and, Nat.testBit_and], rfl⟩
  | bor => exact ⟨fun k => by rw [compute, UInt16.toNat_or, Nat.testBit_or], rfl⟩
  | xor => exact ⟨fun k => by rw [compute, UInt16.toNat_xor, Nat.testBit_xor], rfl⟩
  | shr => exact law_shr old
  | asr => exact law_asr old
  | shl => exact law_shl old

end Alu

namespace Processor

variable {ω σ : Type} [Observer ω σ] {p q : Processor ω σ} {i : Instruction}

/-- **What a step stores and leaves in EX obeys the law of its operation**, whatever its operands, as
long as the destination is no literal.  Where the destination is EX itself, it is the result that it
holds. -/
theorem law_of_step (h : p.Unobserved) (hop : i.opcode ≠ .nop) (ha : i.a.isLiteral = false)
    (hstep : step p = .ok i q) :
    ∃ ex, Alu.Law i.opcode (p.destinationWord i) (p.sourceWord i) p.regs.ex
        (q.fetch (p.destination i)).1 ex ∧
      (i.a ≠ .ex → q.regs.ex = ex) := by
  have hdone := h.of_step hstep
  rw [if_neg hop] at hdone
  obtain ⟨rfl, hcell⟩ := hdone
  refine ⟨(p.settled i).ex, ?_, fun hne => ex_put (Meaning.place_ne rfl hne)⟩
  rw [fetch_completed, fetch_put (x := p.destination i) (Meaning.place_ne_literal ha) hcell]
  exact Alu.law_compute _ _ _ _

/-- A processor at `MLI A, POP`, with -2 in A and 3 on the stack. -/
def multiplying : Processor Probe Probe.Log where
  regs := { Registers.initial.set .a 0xFFFE with sp := 1 }
  mem := (Memory.ofCapacity 2).storeAll 0 [0x6005, 3]
  world := {}

theorem law_of_step_multiplying :
    ∃ q ex, step multiplying = .ok ⟨.mli, .register .a, .stack⟩ q ∧
      Alu.Law .mli 0xFFFE 3 0 (q.regs.get .a) ex ∧ q.regs.ex = ex := by
  have hunobserved : multiplying.Unobserved := fun _ =>
    (Memory.observer?_storeAll _ _ _ _).trans (Memory.observer?_ofCapacity _ _)
  obtain ⟨q, hstep⟩ : ∃ q, step multiplying = .ok ⟨.mli, .register .a, .stack⟩ q := ⟨_, rfl⟩
  obtain ⟨ex, hlaw, hex⟩ := law_of_step hunobserved (by decide) rfl hstep
  exact ⟨q, ex, hstep, hlaw, hex (by decide)⟩

end Processor

end WordMachine
