import Mathlib.Data.List.Basic
import WordMachine.Proofs.Text.Cuts
import WordMachine.Text.Numeral

/-!
# Proofs/Text/Numeral — written numbers are read back

The hexadecimal digits of a number give the number again: `valueFrom?_hexPadded` for any width that
holds it, `signedValue?_hex4` for the four digits of a word where a sign would be allowed. So do its
decimal digits (`value?_toDigits`).
-/

namespace WordMachine

namespace Numeral

variable {base limit width n : Nat} {c : Char} {t : Text}

theorem digitValue?_digitChar : ∀ d : Fin 16, digitValue? 16 (Nat.digitChar d) = some d.val := by
  decide

theorem isAlphanum_digitChar : ∀ d : Fin 16, (Nat.digitChar d).isAlphanum = true := by decide

/-- **Padded digits are read back**, after whatever was read before them. -/
theorem valueFrom?_hexPadded (start : Nat) (h : n < 16 ^ width) :
    valueFrom? 16 start (hexPadded width n) = some (start * 16 ^ width + n) := by
  induction width generalizing n with
  | zero =>
    obtain rfl : n = 0 := by omega
    simp [hexPadded, valueFrom?]
  | succ width ih =>
    rw [Nat.pow_succ] at h
    have hfront := ih (n := n / 16) (by omega)
    have hlast := digitValue?_digitChar ⟨n % 16, Nat.mod_lt _ (by decide)⟩
    rw [valueFrom?] at hfront ⊢
    rw [hexPadded, List.foldlM_append, hfront]
    simp only [Option.bind_eq_bind, Option.bind_some, List.foldlM_cons, List.foldlM_nil, hlast,
      Option.map_some, Option.pure_def, Option.some.injEq]
    rw [Nat.pow_succ, Nat.add_mul, Nat.mul_assoc]
    omega

theorem exists_digitChar_of_mem_toDigits (hc : c ∈ Nat.toDigits 16 n) :
    ∃ d : Fin 16, c = Nat.digitChar d := by
  induction n using Nat.strongRecOn with
  | ind n ih =>
    rw [Nat.toDigits_eq_if (by decide)] at hc
    split at hc
    · next hlt => exact ⟨⟨n, hlt⟩, List.mem_singleton.mp hc⟩
    · next hge =>
      rw [List.mem_append, List.mem_singleton] at hc
      rcases hc with hc | rfl
      · exact ih (n / 16) (by omega) hc
      · exact ⟨⟨n % 16, Nat.mod_lt _ (by decide)⟩, rfl⟩

/-- Padded or not, hexadecimal digits are all there is. -/
theorem exists_digitChar_of_mem_hexPadded (hc : c ∈ hexPadded width n) :
    ∃ d : Fin 16, c = Nat.digitChar d := by
  induction width generalizing n with
  | zero =>
    cases n with
    | zero => cases hc
    | succ n => exact exists_digitChar_of_mem_toDigits hc
  | succ width ih =>
    rw [hexPadded, List.mem_append, List.mem_singleton] at hc
    rcases hc with hc | rfl
    · exact ih hc
    · exact ⟨⟨n % 16, Nat.mod_lt _ (by decide)⟩, rfl⟩

theorem not_mem_hexPadded (h : ∀ d : Fin 16, c ≠ Nat.digitChar d) (width n : Nat) :
    c ∉ hexPadded width n := by
  intro hc
  obtain ⟨d, hd⟩ := exists_digitChar_of_mem_hexPadded hc
  exact h d hd

theorem isAlphanum_of_mem_hexPadded (hc : c ∈ hexPadded width n) : c.isAlphanum = true := by
  obtain ⟨d, rfl⟩ := exists_digitChar_of_mem_hexPadded hc
  exact isAlphanum_digitChar d

/-- Without a sign in front a number is read as it stands, where it may not be negative… -/
theorem unsignedValue?_of_isAlphanum (h : ∀ c ∈ t, c.isAlphanum = true) {n : Nat}
    (ht : value? base t = some n) (hn : n < limit) : unsignedValue? base limit t = some n := by
  have hsign : t.after? ['+'] = none := by
    cases t with
    | nil => rfl
    | cons c t =>
      refine if_neg ?_
      rintro rfl
      exact absurd (h '+' List.mem_cons_self) (by decide)
  rw [unsignedValue?, hsign, Option.getD_none, ht, Option.filter_some, if_pos]
  exact decide_eq_true hn

/-- …and where it may. -/
theorem signedValue?_of_isAlphanum (h : ∀ c ∈ t, c.isAlphanum = true) {n : Nat}
    (ht : value? base t = some n) (hn : n < limit) :
    signedValue? base limit t = some (n : Int) := by
  unfold signedValue?
  split
  · exact absurd (h '-' List.mem_cons_self) (by decide)
  · exact absurd (h '+' List.mem_cons_self) (by decide)
  · rw [ht]
    simp only [Option.map_some, Option.filter_some]
    rw [if_pos]
    · rfl
    · simp only [Int.ofNat_eq_natCast, Bool.and_eq_true, decide_eq_true_eq]
      omega

theorem hex4_ne_nil (w : UInt16) : hex4 w ≠ [] := by
  intro h
  have hlength := length_hex4 w
  rw [h] at hlength
  cases hlength

theorem isAlphanum_of_mem_hex4 {w : UInt16} (hc : c ∈ hex4 w) : c.isAlphanum = true :=
  isAlphanum_of_mem_hexPadded hc

theorem value?_hex4 (w : UInt16) : value? 16 (hex4 w) = some w.toNat := by
  rw [value?, if_neg (by simp [hex4_ne_nil]), hex4, valueFrom?_hexPadded 0 w.toNat_lt]
  simp

/-- **The four digits of a word are read back.** -/
theorem signedValue?_hex4 (w : UInt16) (hlimit : w.toNat < limit) :
    signedValue? 16 limit (hex4 w) = some (w.toNat : Int) :=
  signedValue?_of_isAlphanum (fun _ => isAlphanum_of_mem_hex4) (value?_hex4 w) hlimit

/-! ## Decimal digits -/

theorem isDigit_of_mem_toDigits (hc : c ∈ Nat.toDigits 10 n) : c.isDigit = true :=
  Nat.isDigit_of_mem_toDigits (by decide) (by decide) hc

theorem digitValue?_of_isDigit (h : c.isDigit = true) :
    digitValue? 10 c = some (c.toNat - '0'.toNat) := by
  simp only [Char.isDigit, Bool.and_eq_true, decide_eq_true_eq, ge_iff_le] at h
  obtain ⟨hlow, hhigh⟩ := h
  unfold digitValue?
  dsimp only
  rw [if_pos ⟨hlow, hhigh⟩, Option.filter_some, if_pos]
  simp only [UInt32.le_iff_toNat_le, Char.toNat_val] at hhigh
  have : c.toNat ≤ 57 := hhigh
  have : '0'.toNat = 48 := rfl
  simp only [decide_eq_true_eq]
  omega

theorem valueFrom?_of_isDigit (h : ∀ c ∈ t, c.isDigit = true) (start : Nat) :
    valueFrom? 10 start t = some (Nat.ofDigitChars 10 t start) := by
  induction t generalizing start with
  | nil => rfl
  | cons c t ih =>
    have hc := digitValue?_of_isDigit (h c List.mem_cons_self)
    have hrest := ih (fun c hc => h c (List.mem_cons_of_mem _ hc))
    rw [valueFrom?, List.foldlM_cons, hc, Option.map_some, Option.bind_eq_bind, Option.bind_some,
      Nat.ofDigitChars_cons, Nat.mul_comm 10]
    exact hrest _

/-- **Decimal digits are read back.** -/
theorem value?_toDigits (n : Nat) : value? 10 (Nat.toDigits 10 n) = some n := by
  rw [value?, if_neg (by simp [Nat.toDigits_ne_nil]),
    valueFrom?_of_isDigit fun _ => isDigit_of_mem_toDigits,
    Nat.ofDigitChars_toDigits (by decide) (by decide)]

/-- Only zero is written with a zero in front. -/
theorem head?_toDigits_ne (hn : n ≠ 0) : (Nat.toDigits 10 n).head? ≠ some '0' := by
  induction n using Nat.strongRecOn with
  | ind n ih =>
    have hdigit : ∀ d : Fin 10, Nat.digitChar d = '0' → d = 0 := by decide
    rw [Nat.toDigits_eq_if (by decide)]
    split
    · next hlt =>
      intro hhead
      have := hdigit ⟨n, hlt⟩ (Option.some.inj hhead)
      exact hn (Fin.val_eq_of_eq this)
    · next hge =>
      rw [List.head?_append_of_ne_nil _ Nat.toDigits_ne_nil]
      exact ih (n / 10) (by omega) (by omega)

end Numeral

end WordMachine
