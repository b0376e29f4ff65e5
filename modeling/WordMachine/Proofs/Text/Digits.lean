import WordMachine.Proofs.Text.Neutral
import WordMachine.Proofs.Text.Numeral
import Mathlib.Data.Nat.Digits.Lemmas

/-!
# Proofs/Text/Digits — which texts are read as numbers

What digits are (`Digit`) and which number they write (`Spells`) is said by their places, the last
digit counting once.  The reader takes exactly the texts that spell a number: `value?_eq_some_iff`
for bare digits, `signedValue?_eq_some_iff` where a sign may stand in front, and
`unsignedValue?_eq_some_iff` where it may only be a plus sign.  Its letter case does not matter to the
number (`Spells.of_upper`).
-/

namespace WordMachine

namespace Numeral

variable {base limit d m : Nat} {n : Int} {c c' : Char} {t u : Text}

/-- The character is the digit of value `d` in the base, where letters stand in either case. -/
def Digit (base : Nat) (c : Char) (d : Nat) : Prop :=
  d < base ∧ (c = Nat.digitChar d ∨ c = (Nat.digitChar d).toUpper)

/-- The text is one digit of the base or more, and they write the number `m`. -/
def Spells (base : Nat) (t : Text) (m : Nat) : Prop :=
  t ≠ [] ∧ ∃ ds, List.Forall₂ (Digit base) t ds ∧ m = Nat.ofDigits base ds.reverse

/-- The text spells a number, perhaps with a sign in front. -/
inductive SpellsSigned (base : Nat) : Text → Int → Prop where
  | bare {t : Text} {m : Nat} (h : Spells base t m) : SpellsSigned base t m
  | plus {t : Text} {m : Nat} (h : Spells base t m) : SpellsSigned base ('+' :: t) m
  | minus {t : Text} {m : Nat} (h : Spells base t m) : SpellsSigned base ('-' :: t) (-m)

/-! ## Digits -/

theorem digitValue?_sixteen (hbase : base ≤ 16) :
    digitValue? base c = (digitValue? 16 c).filter (· < base) := by
  unfold digitValue?
  dsimp only
  rw [Option.filter_filter]
  congr 1
  funext d
  rw [Bool.eq_iff_iff]
  simp only [Bool.and_eq_true, decide_eq_true_eq]
  omega

theorem digitValue?_toUpper_digitChar :
    ∀ d : Fin 16, digitValue? 16 (Nat.digitChar d).toUpper = some d.val := by decide

/-- What the reader takes for a digit is one of the sixteen. -/
theorem eq_digitChar_of_digitValue? (h : digitValue? 16 c = some d) :
    c = Nat.digitChar d ∨ c = (Nat.digitChar d).toUpper := by
  have hfigure : ∀ d : Fin 10, (Nat.digitChar d).toNat = d + 48 := by decide
  have hlower : ∀ d : Fin 6, (Nat.digitChar (d + 10)).toNat = d + 97 := by decide
  have hupper : ∀ d : Fin 6, (Nat.digitChar (d + 10)).toUpper.toNat = d + 65 := by decide
  unfold digitValue? at h
  simp only [Option.filter_eq_some_iff, decide_eq_true_eq, Char.le_def, UInt32.le_iff_toNat_le,
    Char.toNat_val, Char.reduceToNat] at h
  obtain ⟨hvalue, hd⟩ := h
  split_ifs at hvalue with hc hc hc <;> obtain rfl := Option.some.inj hvalue
  · refine .inl (Char.toNat_inj.mp ?_)
    rw [hfigure ⟨c.toNat - 48, by omega⟩, Nat.sub_add_cancel hc.1]
  · refine .inl (Char.toNat_inj.mp ?_)
    rw [hlower ⟨c.toNat - 97, by omega⟩, Nat.sub_add_cancel hc.1]
  · refine .inr (Char.toNat_inj.mp ?_)
    rw [hupper ⟨c.toNat - 65, by omega⟩, Nat.sub_add_cancel hc.1]

/-- The digits of a base, with their values, are those the reader knows. -/
theorem digitValue?_eq_some_iff (hbase : base ≤ 16) :
    digitValue? base c = some d ↔ Digit base c d := by
  rw [digitValue?_sixteen hbase, Option.filter_eq_some_iff, decide_eq_true_eq, and_comm, Digit]
  refine and_congr_right fun hd => ?_
  have hd16 : d < 16 := by omega
  constructor
  · intro h
    exact eq_digitChar_of_digitValue? h
  · rintro (rfl | rfl)
    · exact digitValue?_digitChar ⟨d, hd16⟩
    · exact digitValue?_toUpper_digitChar ⟨d, hd16⟩

theorem isAlphanum_of_digit (hbase : base ≤ 16) (h : Digit base c d) : c.isAlphanum = true := by
  have hupper : ∀ d : Fin 16, (Nat.digitChar d).toUpper.isAlphanum = true := by decide
  obtain ⟨hd, rfl | rfl⟩ := h
  · exact isAlphanum_digitChar ⟨d, hd.trans_le hbase⟩
  · exact hupper ⟨d, hd.trans_le hbase⟩

/-! ## Numbers -/

theorem valueFrom?_eq_some_iff (hbase : base ≤ 16) {start : Nat} :
    valueFrom? base start t = some m ↔ ∃ ds, List.Forall₂ (Digit base) t ds ∧
      m = start * base ^ t.length + Nat.ofDigits base ds.reverse := by
  induction t generalizing start with
  | nil => simp [valueFrom?, eq_comm]
  | cons c t ih =>
    have hcons : valueFrom? base start (c :: t) =
        (digitValue? base c).bind fun d => valueFrom? base (start * base + d) t := by
      cases hd : digitValue? base c <;> simp [valueFrom?, hd]
    have hplace : ∀ {d : Nat} {ds : List Nat}, List.Forall₂ (Digit base) t ds →
        (start * base + d) * base ^ t.length + Nat.ofDigits base ds.reverse =
          start * base ^ (c :: t).length + Nat.ofDigits base (d :: ds).reverse := by
      intro d ds hds
      rw [Nat.ofDigits_reverse_cons, ← hds.length_eq, List.length_cons, pow_succ]
      ring
    simp only [hcons, Option.bind_eq_some_iff, digitValue?_eq_some_iff hbase, ih]
    constructor
    · rintro ⟨d, hd, ds, hds, rfl⟩
      exact ⟨d :: ds, .cons hd hds, hplace hds⟩
    · rintro ⟨_, hall, rfl⟩
      obtain ⟨d, ds, hd, hds, rfl⟩ := List.forall₂_cons_left_iff.mp hall
      exact ⟨d, hd, ds, hds, (hplace hds).symm⟩

/-- **The reader takes the texts that spell a number**, for that number. -/
theorem value?_eq_some_iff (hbase : base ≤ 16) : value? base t = some m ↔ Spells base t m := by
  rw [value?, Spells]
  split
  · next hempty => simp [List.isEmpty_iff.mp hempty]
  · next hne =>
    rw [List.isEmpty_iff] at hne
    simp [hne, valueFrom?_eq_some_iff hbase]

/-- What holds of every digit holds of all that spells a number. -/
theorem Spells.forall_mem {p : Char → Prop} (h : Spells base t m)
    (hp : ∀ {c d}, Digit base c d → p c) : ∀ c ∈ t, p c := by
  obtain ⟨-, ds, hds, -⟩ := h
  have hall : List.Forall₂ (fun c d => p c ∧ Digit base c d) t ds :=
    hds.imp fun _ _ hd => ⟨hp hd, hd⟩
  exact ((List.forall₂_and_left t ds).mp hall).1

theorem Spells.isAlphanum (h : Spells base t m) (hbase : base ≤ 16) :
    ∀ c ∈ t, c.isAlphanum = true :=
  h.forall_mem (isAlphanum_of_digit hbase)

/-- So many digits write no larger a number. -/
theorem Spells.lt_pow (h : Spells base t m) (hbase : 1 < base) : m < base ^ t.length := by
  obtain ⟨-, ds, hds, rfl⟩ := h
  have hall : List.Forall₂ (fun d c => d < base ∧ Digit base c d) ds t :=
    hds.flip.imp fun _ _ hd => ⟨hd.1, hd⟩
  have hlt : ∀ d ∈ ds, d < base := ((List.forall₂_and_left ds t).mp hall).1
  rw [hds.length_eq, ← List.length_reverse]
  exact Nat.ofDigits_lt_base_pow_length hbase fun d hd => hlt d (List.mem_reverse.mp hd)

theorem Spells.exists_cons (h : Spells base t m) (hbase : base ≤ 16) :
    ∃ c rest, t = c :: rest ∧ c.isAlphanum = true := by
  obtain ⟨c, rest, rfl⟩ := List.exists_cons_of_ne_nil h.1
  exact ⟨c, rest, rfl, h.isAlphanum hbase c List.mem_cons_self⟩

/-- **With a sign in front where there is one**, if the number is within the limit. -/
theorem signedValue?_eq_some_iff (hbase : base ≤ 16) :
    signedValue? base limit t = some n ↔
      SpellsSigned base t n ∧ -(limit : Int) ≤ n ∧ n < limit := by
  have hread : ∀ {t : Text} {m : Nat}, value? base t = some m ↔ Spells base t m :=
    value?_eq_some_iff hbase
  unfold signedValue?
  rw [Option.filter_eq_some_iff, Bool.and_eq_true, decide_eq_true_eq, decide_eq_true_eq]
  refine and_congr_left fun _ => ⟨fun h => ?_, fun h => ?_⟩
  · split at h
    · obtain ⟨k, hk, rfl⟩ := Option.map_eq_some_iff.mp h
      obtain ⟨m, hm, hpure⟩ := Option.bind_eq_some_iff.mp hk
      cases hpure
      exact .minus (hread.mp hm)
    · obtain ⟨m, hm, rfl⟩ := Option.map_eq_some_iff.mp h
      exact .plus (hread.mp hm)
    · obtain ⟨m, hm, rfl⟩ := Option.map_eq_some_iff.mp h
      exact .bare (hread.mp hm)
  · cases h with
    | minus h => simp [hread.mpr h]
    | plus h => simp [hread.mpr h]
    | bare h =>
      obtain ⟨c, rest, rfl, hc⟩ := h.exists_cons hbase
      split
      · next heq =>
        cases heq
        cases hc
      · next heq =>
        cases heq
        cases hc
      · simp [hread.mpr h]

/-- **Where only a plus sign may stand in front**, if the number is below the limit. -/
theorem unsignedValue?_eq_some_iff (hbase : base ≤ 16) : unsignedValue? base limit t = some m ↔
    (Spells base t m ∨ ∃ digits, t = '+' :: digits ∧ Spells base digits m) ∧ m < limit := by
  rw [unsignedValue?, Option.filter_eq_some_iff, decide_eq_true_eq]
  refine and_congr_left fun _ => ?_
  by_cases hsign : ∃ digits, t = '+' :: digits
  · obtain ⟨digits, rfl⟩ := hsign
    have hbare : ¬ Spells base ('+' :: digits) m := fun h =>
      absurd (h.isAlphanum hbase '+' List.mem_cons_self) (by decide)
    have hafter : Text.after? ('+' :: digits) ['+'] = some digits := Text.after?_append ['+'] digits
    rw [hafter, Option.getD_some, value?_eq_some_iff hbase]
    simp [hbare]
  · have hafter : t.after? ['+'] = none := by
      cases t with
      | nil => rfl
      | cons c rest => exact if_neg fun hc => hsign ⟨rest, by rw [hc]⟩
    rw [hafter, Option.getD_none, value?_eq_some_iff hbase, or_iff_left]
    rintro ⟨digits, ht, -⟩
    exact hsign ⟨digits, ht⟩

/-! ## Letter case -/

/-- Digits are the same in either letter case. -/
theorem Digit.of_toUpper (hbase : base ≤ 16) (h : Digit base c d) (hc : c'.toUpper = c.toUpper) :
    Digit base c' d := by
  have hlower : ∀ d : Fin 16, (Nat.digitChar d).toLower = Nat.digitChar d := by decide
  have hupper : c'.toUpper = (Nat.digitChar d).toUpper := by
    rw [hc]
    rcases h.2 with rfl | rfl
    · rfl
    · exact Text.toUpper_toUpper _
  refine ⟨h.1, (Text.eq_or_eq_of_toUpper_eq hupper).symm.imp_left fun heq => ?_⟩
  rw [heq, hlower ⟨d, h.1.trans_le hbase⟩]

theorem Spells.of_upper (hbase : base ≤ 16) (h : Spells base t m)
    (hu : Text.upper u = Text.upper t) : Spells base u m := by
  obtain ⟨hne, ds, hds, rfl⟩ := h
  have hall : List.Forall₂ (Digit base) u ds := by
    clear hne
    induction hds generalizing u with
    | nil =>
      rw [List.map_eq_nil_iff.mp hu]
      exact .nil
    | cons hd _ ih =>
      obtain ⟨c', u', rfl, hc, hrest⟩ := List.map_eq_cons_iff.mp hu
      exact .cons (hd.of_toUpper hbase hc) (ih hrest)
  refine ⟨?_, ds, hall, rfl⟩
  rintro rfl
  exact hne (List.map_eq_nil_iff.mp hu.symm)

end Numeral

end WordMachine
