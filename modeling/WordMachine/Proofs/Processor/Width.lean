import WordMachine.Processor.Alu
import Mathlib.Tactic.Linarith

/-!
# Proofs/Processor/Width — thirty-two bits are enough for every operation

`Alu.compute` gives the operations over the integers.  A machine has double words to compute in, and
these are not integers: what does not fit is lost, and nothing can be divided by zero.  `compute32?`
is the same table in double words, read as signed where the operation reads its words so.  It has no
outcome if a result on the way is not the exact one.  Main statement: `compute32?_eq`, which says
that it always has one, and which.
-/

namespace WordMachine

namespace Alu

/-! ## The table in double words -/

/-- A double word, if it is the exact result. -/
def exactly? (x : UInt32) (n : Nat) : Option UInt32 := if x.toNat = n then some x else none

@[inherit_doc exactly?]
def exactlySigned? (x : Int32) (i : Int) : Option Int32 := if x.toInt = i then some x else none

def add? (x y : UInt32) : Option UInt32 := exactly? (x + y) (x.toNat + y.toNat)

def mul? (x y : UInt32) : Option UInt32 := exactly? (x * y) (x.toNat * y.toNat)

/-- A word's worth of bits further up. -/
def lift? (x : UInt32) : Option UInt32 := exactly? (x <<< 16) (x.toNat * 0x10000)

def div? (x y : UInt32) : Option UInt32 := if y = 0 then none else some (x / y)

def mod? (x y : UInt32) : Option UInt32 := if y = 0 then none else some (x % y)

def subSigned? (x y : Int32) : Option Int32 := exactlySigned? (x - y) (x.toInt - y.toInt)

def mulSigned? (x y : Int32) : Option Int32 := exactlySigned? (x * y) (x.toInt * y.toInt)

/-- The double word of a word that is read as signed. -/
def extend (w : Word) : Int32 := w.toInt16.toInt32

/-- `shiftedOut` on double words. -/
def shiftedOut32 (x count : UInt32) : Word := (x <<< (16 - count)).toUInt16

/-- `compute` on double words. -/
def compute32? (op : Opcode) (a b : Word) : Option Outcome :=
  let x := a.toUInt32
  let y := b.toUInt32
  match op with
  | .nop | .set => some ⟨y.toUInt16, none⟩
  | .add => (add? x y).map fun sum => ⟨sum.toUInt16, some (if 0xFFFF < sum then 1 else 0)⟩
  | .sub => (subSigned? x.toInt32 y.toInt32).map fun difference =>
      ⟨difference.toUInt32.toUInt16, some (if difference < 0 then 0xFFFF else 0)⟩
  | .mul => (mul? x y).map fun (product : UInt32) =>
      ⟨product.toUInt16, some (product >>> 16).toUInt16⟩
  | .mli => (mulSigned? (extend a) (extend b)).map fun (product : Int32) =>
      ⟨product.toUInt32.toUInt16, some (product.toUInt32 >>> 16).toUInt16⟩
  | .div =>
    if b = 0 then some ⟨0, some 0⟩
    else do
      let rest ← lift? (← mod? x y)
      let fraction ← div? rest y
      let quotient ← div? x y
      return ⟨quotient.toUInt16, some fraction.toUInt16⟩
  | .and => some ⟨(x &&& y).toUInt16, none⟩
  | .bor => some ⟨(x ||| y).toUInt16, none⟩
  | .xor => some ⟨(x ^^^ y).toUInt16, none⟩
  | .shr => some ⟨(x >>> y).toUInt16, some (shiftedOut32 x y)⟩
  | .asr => some ⟨(extend a >>> y.toInt32).toUInt32.toUInt16, some (shiftedOut32 x y)⟩
  | .shl => some ⟨(x <<< y).toUInt16, some (shiftedOut32 x y)⟩

theorem exactly?_of_eq {x : UInt32} {n : Nat} (h : x.toNat = n) : exactly? x n = some x := if_pos h

theorem exactlySigned?_of_eq {x : Int32} {i : Int} (h : x.toInt = i) :
    exactlySigned? x i = some x := if_pos h

/-! ## The halves of a double word -/

theorem low_of_toNat {x : UInt32} {n : Nat} (h : x.toNat = n) : x.toUInt16 = UInt16.ofNat n := by
  rw [← UInt16.toNat_inj, UInt32.toNat_toUInt16, UInt16.toNat_ofNat', h]

theorem high_of_toNat {x : UInt32} {n : Nat} (h : x.toNat = n) :
    (x >>> 16).toUInt16 = UInt16.ofNat (n / 0x10000) := by
  rw [← UInt16.toNat_inj, UInt32.toNat_toUInt16, UInt32.toNat_shiftRight, UInt16.toNat_ofNat', h]
  change n >>> 16 % 2 ^ 16 = _
  rw [Nat.shiftRight_eq_div_pow]

/-- Signed and unsigned double words are the same bits. -/
theorem toNat_toUInt32 (x : Int32) : (x.toUInt32.toNat : Int) = x.toInt % 0x100000000 := by
  have hlt := x.toBitVec.isLt
  change (x.toBitVec.toNat : Int) = x.toBitVec.toInt % _
  rw [BitVec.toInt_eq_toNat_cond]
  split <;> omega

theorem low_of_toInt {x : Int32} {i : Int} (h : x.toInt = i) :
    x.toUInt32.toUInt16 = UInt16.ofInt i := by
  have hbits := toNat_toUInt32 x
  rw [h] at hbits
  rw [← UInt16.toNat_inj, UInt32.toNat_toUInt16, UInt16.ofInt, UInt16.toNat_ofNat']
  omega

theorem high_of_toInt {x : Int32} {i : Int} (h : x.toInt = i) :
    (x.toUInt32 >>> 16).toUInt16 = UInt16.ofInt (i / 0x10000) := by
  have hbits := toNat_toUInt32 x
  rw [h] at hbits
  rw [high_of_toNat rfl, ← UInt16.toNat_inj, UInt16.ofInt, UInt16.toNat_ofNat', UInt16.toNat_ofNat']
  omega

/-! ## Words as double words -/

variable (a b : Word)

theorem toInt_toInt32 : a.toUInt32.toInt32.toInt = a.toNat := by
  have h := a.toNat_lt
  change a.toUInt32.toBitVec.toInt = _
  rw [BitVec.toInt_eq_toNat_cond, UInt32.toNat_toBitVec, UInt16.toNat_toUInt32]
  split <;> omega

theorem toInt_extend : (extend a).toInt = Word.signed a := by
  have h := a.toNat_lt
  rw [extend, Int16.toInt_toInt32, Word.signed]
  change a.toBitVec.toInt = _
  rw [BitVec.toInt_eq_toNat_cond, UInt16.toNat_toBitVec]
  split <;> split <;> omega

theorem signed_bounds : -0x8000 ≤ Word.signed a ∧ Word.signed a < 0x8000 := by
  have h := a.toNat_lt
  rw [Word.signed]
  split <;> omega

theorem toNat_sum : (a.toUInt32 + b.toUInt32).toNat = a.toNat + b.toNat := by
  have ha := a.toNat_lt
  have hb := b.toNat_lt
  rw [UInt32.toNat_add, UInt16.toNat_toUInt32, UInt16.toNat_toUInt32]
  omega

theorem toInt_difference :
    (a.toUInt32.toInt32 - b.toUInt32.toInt32).toInt = a.toNat - b.toNat := by
  have ha := a.toNat_lt
  have hb := b.toNat_lt
  rw [Int32.toInt_sub, toInt_toInt32, toInt_toInt32, Int.bmod_def]
  split <;> omega

/-- The carry of a sum is its high half. -/
theorem carry_eq : (if 0xFFFF < a.toUInt32 + b.toUInt32 then 1 else 0) =
    UInt16.ofNat ((a.toNat + b.toNat) / 0x10000) := by
  have ha := a.toNat_lt
  have hb := b.toNat_lt
  have hcarry : 0xFFFF < a.toUInt32 + b.toUInt32 ↔ 0xFFFF < a.toNat + b.toNat := by
    rw [UInt32.lt_iff_toNat_lt, toNat_sum]
    rfl
  simp only [hcarry]
  split
  · rw [show (a.toNat + b.toNat) / 0x10000 = 1 by omega]; rfl
  · rw [show (a.toNat + b.toNat) / 0x10000 = 0 by omega]; rfl

theorem difference_lt_zero_iff : a.toUInt32.toInt32 - b.toUInt32.toInt32 < 0 ↔ a < b := by
  rw [Int32.lt_iff_toInt_lt, toInt_difference, UInt16.lt_iff_toNat_lt]
  change (_ : Int) < 0 ↔ _
  omega

theorem ofInt_sub_toNat : UInt16.ofInt (a.toNat - b.toNat) = a - b := by
  have ha := a.toNat_lt
  have hb := b.toNat_lt
  rw [← UInt16.toNat_inj, UInt16.ofInt, UInt16.toNat_ofNat', UInt16.toNat_sub]
  omega

theorem toNat_product : (a.toUInt32 * b.toUInt32).toNat = a.toNat * b.toNat := by
  have hlt : a.toNat * b.toNat < 0x10000 * 0x10000 := Nat.mul_lt_mul'' a.toNat_lt b.toNat_lt
  rw [UInt32.toNat_mul, UInt16.toNat_toUInt32, UInt16.toNat_toUInt32]
  exact Nat.mod_eq_of_lt hlt

theorem toInt_product : (extend a * extend b).toInt = Word.signed a * Word.signed b := by
  obtain ⟨ha, ha'⟩ := signed_bounds a
  obtain ⟨hb, hb'⟩ := signed_bounds b
  have hlow : -0x40000000 ≤ Word.signed a * Word.signed b := by nlinarith
  have hhigh : Word.signed a * Word.signed b ≤ 0x40000000 := by nlinarith
  rw [Int32.toInt_mul, toInt_extend, toInt_extend, Int.bmod_def]
  split <;> omega

/-- What a remainder leaves below the point is less than the divisor, and so has a place above. -/
theorem toNat_lifted {b : Word} (hb : b ≠ 0) :
    ((a.toUInt32 % b.toUInt32) <<< 16).toNat = a.toNat % b.toNat * 0x10000 := by
  have hpos : 0 < b.toNat := Nat.pos_of_ne_zero fun h => hb (UInt16.toNat_inj.mp h)
  have hless : a.toNat % b.toNat < b.toNat := Nat.mod_lt _ hpos
  have hlt := b.toNat_lt
  rw [UInt32.toNat_shiftLeft, UInt32.toNat_mod, UInt16.toNat_toUInt32, UInt16.toNat_toUInt32]
  change (a.toNat % b.toNat) <<< 16 % 2 ^ 32 = _
  rw [Nat.shiftLeft_eq]
  omega

theorem low_quotient : (a.toUInt32 / b.toUInt32).toUInt16 = a / b := by
  rw [← UInt16.toNat_inj, low_of_toNat rfl, UInt32.toNat_div, UInt16.toNat_toUInt32,
    UInt16.toNat_toUInt32, UInt16.toNat_ofNat', UInt16.toNat_div]
  exact Nat.mod_eq_of_lt (Nat.lt_of_le_of_lt (Nat.div_le_self _ _) a.toNat_lt)

theorem shiftedOut32_eq : shiftedOut32 a.toUInt32 b.toUInt32 = shiftedOut a (b.toNat % 32) := by
  have hb := b.toNat_lt
  have hcount : (16 - b.toUInt32).toNat % 32 = (48 - b.toNat % 32 % 32) % 32 := by
    rw [UInt32.toNat_sub, UInt16.toNat_toUInt32]
    change (2 ^ 32 - b.toNat + 16) % 2 ^ 32 % 32 = _
    omega
  rw [shiftedOut32, shiftedOut, ← UInt16.toNat_inj, UInt32.toNat_toUInt16, UInt32.toNat_shiftLeft,
    hcount, UInt16.toNat_toUInt32, UInt16.toNat_ofNat', Nat.mod_mod_of_dvd _ (by decide)]

theorem toNat_shr : (a.toUInt32 >>> b.toUInt32).toNat = a.toNat >>> (b.toNat % 32) := by
  rw [UInt32.toNat_shiftRight, UInt16.toNat_toUInt32, UInt16.toNat_toUInt32]

theorem toInt_asr :
    (extend a >>> b.toUInt32.toInt32).toInt = Word.signed a >>> (b.toNat % 32) := by
  have hb := b.toNat_lt
  have hpositive : b.toUInt32.toBitVec.msb = false := by
    rw [BitVec.msb_eq_false_iff_two_mul_lt, UInt32.toNat_toBitVec, UInt16.toNat_toUInt32]
    omega
  have hcount : (b.toUInt32.toBitVec.smod 32).toNat = b.toNat % 32 := by
    rw [BitVec.smod_eq, hpositive, show (32 : BitVec 32).msb = false from rfl]
    change (b.toUInt32.toBitVec % 32).toNat = _
    rw [BitVec.toNat_umod, UInt32.toNat_toBitVec, UInt16.toNat_toUInt32]
    rfl
  rw [← toInt_extend]
  change ((extend a).toBitVec.sshiftRight (b.toUInt32.toBitVec.smod 32).toNat).toInt = _
  rw [BitVec.toInt_sshiftRight, hcount]
  rfl

theorem low_shl :
    (a.toUInt32 <<< b.toUInt32).toUInt16 = UInt16.ofNat (a.toNat <<< (b.toNat % 32)) := by
  rw [← UInt16.toNat_inj, UInt32.toNat_toUInt16, UInt32.toNat_shiftLeft, UInt16.toNat_toUInt32,
    UInt16.toNat_toUInt32, UInt16.toNat_ofNat', Nat.mod_mod_of_dvd _ (by decide)]

/-! ## Every operation -/

/-- **No operation needs more than thirty-two bits**: in double words nothing is lost on the way,
nothing is divided by zero, and the outcome is that over the integers. -/
theorem compute32?_eq (op : Opcode) : compute32? op a b = some (compute op a b) := by
  cases op with
  | nop | set => rw [compute32?, UInt16.toUInt16_toUInt32]; rfl
  | add =>
    simp only [compute32?, add?, UInt16.toNat_toUInt32, exactly?_of_eq (toNat_sum a b),
      Option.map_some, low_of_toNat (toNat_sum a b), carry_eq]
    rfl
  | sub =>
    simp only [compute32?, subSigned?, toInt_toInt32, exactlySigned?_of_eq (toInt_difference a b),
      Option.map_some, low_of_toInt (toInt_difference a b), ofInt_sub_toNat,
      difference_lt_zero_iff]
    rfl
  | mul =>
    simp only [compute32?, mul?, UInt16.toNat_toUInt32, exactly?_of_eq (toNat_product a b),
      Option.map_some, low_of_toNat (toNat_product a b), high_of_toNat (toNat_product a b)]
    rfl
  | mli =>
    simp only [compute32?, mulSigned?, toInt_extend, exactlySigned?_of_eq (toInt_product a b),
      Option.map_some, low_of_toInt (toInt_product a b), high_of_toInt (toInt_product a b)]
    rfl
  | div =>
    by_cases hb : b = 0
    · simp only [compute32?, compute, hb, if_true]
    have hb' : b.toUInt32 ≠ 0 := fun h => hb (UInt16.toUInt32_inj.mp h)
    have hlifted := toNat_lifted a hb
    have hfraction : (((a.toUInt32 % b.toUInt32) <<< 16) / b.toUInt32).toNat =
        a.toNat % b.toNat * 0x10000 / b.toNat := by
      rw [UInt32.toNat_div, hlifted, UInt16.toNat_toUInt32]
    have hrest : lift? (a.toUInt32 % b.toUInt32) = some ((a.toUInt32 % b.toUInt32) <<< 16) := by
      refine exactly?_of_eq ?_
      rw [hlifted, UInt32.toNat_mod, UInt16.toNat_toUInt32, UInt16.toNat_toUInt32]
    simp only [compute32?, compute, hb, if_false, div?, mod?, hb', Option.bind_eq_bind,
      Option.bind_some, hrest, low_quotient, low_of_toNat hfraction]
    rfl
  | and =>
    rw [compute32?, UInt32.toUInt16_and, UInt16.toUInt16_toUInt32, UInt16.toUInt16_toUInt32]
    rfl
  | bor =>
    rw [compute32?, UInt32.toUInt16_or, UInt16.toUInt16_toUInt32, UInt16.toUInt16_toUInt32]
    rfl
  | xor =>
    rw [compute32?, UInt32.toUInt16_xor, UInt16.toUInt16_toUInt32, UInt16.toUInt16_toUInt32]
    rfl
  | shr =>
    rw [compute32?, low_of_toNat (toNat_shr a b), shiftedOut32_eq]
    rfl
  | asr =>
    rw [compute32?, low_of_toInt (toInt_asr a b), shiftedOut32_eq]
    rfl
  | shl =>
    rw [compute32?, low_shl, shiftedOut32_eq]
    rfl

end Alu

end WordMachine
