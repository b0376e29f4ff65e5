import WordMachine.Text.Basic

/-!
# Text/Numeral — numbers written in a base

Reading takes digits of either letter case (`digitValue?`, `value?`), with at most one sign in front
where a format allows it (`signedValue?`, `unsignedValue?`). Writing is in lower case: `hexPadded`
gives at least so many hexadecimal digits, which for a word and four digits is exactly four
(`length_hex4`).
-/

namespace WordMachine

namespace Numeral

/-- The value of a digit, where letters of either case go on after 9. -/
def digitValue? (base : Nat) (c : Char) : Option Nat :=
  let n := c.toNat
  let value :=
    if '0' ≤ c ∧ c ≤ '9' then some (n - '0'.toNat)
    else if 'a' ≤ c ∧ c ≤ 'z' then some (n - 'a'.toNat + 10)
    else if 'A' ≤ c ∧ c ≤ 'Z' then some (n - 'A'.toNat + 10)
    else none
  value.filter (· < base)

/-- The number that digits write after `start` has been read. -/
def valueFrom? (base : Nat) (start : Nat) (digits : Text) : Option Nat :=
  digits.foldlM (fun n c => (digitValue? base c).map (n * base + ·)) start

/-- The number that one or more digits write. -/
def value? (base : Nat) (digits : Text) : Option Nat :=
  if digits.isEmpty then none else valueFrom? base 0 digits

/-- The number below `limit` that digits write, with an optional `+` in front. -/
def unsignedValue? (base limit : Nat) (text : Text) : Option Nat :=
  (value? base ((text.after? ['+']).getD text)).filter (· < limit)

/-- The number from `-limit` on and below `limit` that digits write, with an optional `+` or `-` in
front. -/
def signedValue? (base limit : Nat) (text : Text) : Option Int :=
  let value : Option Int :=
    match text with
    | '-' :: digits => (value? base digits).map fun n => -(n : Int)
    | '+' :: digits => (value? base digits).map Int.ofNat
    | digits => (value? base digits).map Int.ofNat
  value.filter fun n => -(limit : Int) ≤ n && n < limit

/-- Hexadecimal digits in lower case, with zeros in front up to `width` digits. -/
def hexPadded : (width n : Nat) → Text
  | 0, 0 => []
  | 0, n => Nat.toDigits 16 n
  | width + 1, n => hexPadded width (n / 16) ++ [Nat.digitChar (n % 16)]

/-- Four hexadecimal digits of a word. -/
def hex4 (w : UInt16) : Text := hexPadded 4 w.toNat

/-- A word is never written with more than four digits. -/
theorem length_hex4 (w : UInt16) : (hex4 w).length = 4 := by
  have : w.toNat / 16 / 16 / 16 / 16 = 0 := by
    have := w.toNat_lt
    omega
  simp [hex4, hexPadded, this]

/-- Hexadecimal digits after `0x`, at least `width` of them. -/
def hexMarked (width n : Nat) : Text := '0' :: 'x' :: hexPadded width n

/-- `hexPadded` as a string. -/
def hexString (width n : Nat) : String := String.ofList (hexPadded width n)

/-- `hexMarked` as a string. -/
def hexMarkedString (width n : Nat) : String := String.ofList (hexMarked width n)

end Numeral

end WordMachine
