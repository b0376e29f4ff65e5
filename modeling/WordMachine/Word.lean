/-!
# Word — sixteen-bit machine words

Everything the machine stores, addresses and computes with is a `Word`. Arithmetic on words wraps
modulo 65536; `Word.signed` is the two's-complement reading.
-/

namespace WordMachine

/-- A sixteen-bit machine word: a cell's contents, and the address of a cell. -/
abbrev Word := UInt16

namespace Word

/-- How many different words there are, and so how many cells an address can name. -/
def count : Nat := 0x10000

/-- The two's-complement reading of a word, from -32768 to 32767. -/
def signed (w : Word) : Int :=
  if w.toNat < 0x8000 then w.toNat else w.toNat - 0x10000

theorem toNat_lt_count (w : Word) : w.toNat < count := w.toNat_lt

theorem toNat_ofNat (n : Nat) : (UInt16.ofNat n).toNat = n % count := UInt16.toNat_ofNat'

/-- The signed reading is the word itself modulo 65536. -/
theorem ofInt_signed (w : Word) : UInt16.ofInt w.signed = w := by
  have h := w.toNat_lt_count
  rw [← UInt16.toNat_inj, UInt16.ofInt, UInt16.toNat_ofNat', signed]
  simp only [count] at h
  split <;> omega

end Word

end WordMachine
