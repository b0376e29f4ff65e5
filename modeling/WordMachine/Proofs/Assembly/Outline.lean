import Mathlib.Data.List.Forall2
import WordMachine.Proofs.Assembly.Line
import WordMachine.Proofs.Assembly.Program

/-!
# Proofs/Assembly/Outline — what a line is divided into, and what its parts make

A line is divided before any part of it is read: into nothing, the text of a label definition, or a
mnemonic and its operands (`Outline`).  `Makes` is the grammar of the last kind, with one rule for
each kind of statement; a mnemonic and operands are accepted just if a rule applies
(`ofMnemonic_eq_ok_iff`).
-/

namespace WordMachine

namespace Assembly

/-- The parts of a line. -/
inductive Outline where
  | blank
  | definition (text : Text)
  /-- The mnemonic as it is written, and the operands without the blanks around them. -/
  | operation (mnemonic operands : Text)

namespace Outline

def ofContent : Text → Outline
  | [] => .blank
  | ':' :: rest => .definition rest
  | t =>
    let (mnemonic, operands) := (Text.splitBlank? t).getD (t, [])
    .operation mnemonic (Text.trim operands)

def ofLine (line : Text) : Outline := ofContent (Text.content line)

/-- The operands of a line, each without the blanks around it. -/
def operands : Outline → List Text
  | .operation _ operands => parts operands
  | _ => []

/-- The statement of a line, from its parts. -/
def read? : Outline → Except LineError (Option Statement)
  | .blank => .ok none
  | .definition text => (Statement.ofLabel text).map some
  | .operation mnemonic operands =>
    (Statement.ofMnemonic (Text.upper mnemonic) operands).map some

end Outline

theorem ofContent_cons {c : Char} (hc : c ≠ ':') (rest : Text) :
    Outline.ofContent (c :: rest) =
      .operation ((Text.splitBlank? (c :: rest)).getD (c :: rest, [])).1
        (Text.trim ((Text.splitBlank? (c :: rest)).getD (c :: rest, [])).2) := by
  unfold Outline.ofContent
  split
  · next heq => cases heq
  · next heq =>
    cases heq
    exact absurd rfl hc
  · rfl

theorem isBlank_of_mem_mnemonic {line mnemonic operands : Text}
    (h : Outline.ofLine line = .operation mnemonic operands) :
    ∀ c ∈ mnemonic, Text.isBlank c = false := by
  intro d hd
  rw [Outline.ofLine] at h
  cases hcontent : Text.content line with
  | nil =>
    rw [hcontent] at h
    cases h
  | cons c rest =>
    rw [hcontent] at h
    by_cases hc : c = ':'
    · subst hc
      cases h
    · rw [ofContent_cons hc] at h
      cases h
      exact Text.isBlank_of_mem_firstWord hd

/-- **A line is read part by part.** -/
theorem ofLine?_eq_read? (line : Text) : Statement.ofLine? line = (Outline.ofLine line).read? := by
  unfold Statement.ofLine? Outline.ofLine
  split
  · next heq => rw [heq]; rfl
  · next heq => rw [heq]; rfl
  · next hnil hcolon =>
    obtain ⟨c, rest, heq⟩ := List.exists_cons_of_ne_nil hnil
    have hc : c ≠ ':' := by
      rintro rfl
      exact hcolon rest heq
    rw [heq, ofContent_cons hc]
    rfl

/-- The mnemonic, in upper case, and the operands make the statement. -/
inductive Makes : Text → Text → Statement → Prop where
  | data {operands : Text} {values : List Value} (hne : operands ≠ [])
      (hvalues : List.Forall₂ (fun p v => Value.ofText p = .ok v) (parts operands) values) :
      Makes ['D', 'A', 'T'] operands (.data values)
  | nop : Makes Opcode.nopMnemonic []
      (.instruction Opcode.nop.number (.plain (.register .a)) (.plain (.register .a)))
  | instruction {mnemonic operands x y : Text} {a b : Argument} {number : Nat}
      (hnumber : Opcode.numberOf? mnemonic = some number) (hfield : number < 16)
      (hparts : parts operands = [x, y]) (ha : Argument.ofText x = .ok a)
      (hb : Argument.ofText y = .ok b) : Makes mnemonic operands (.instruction ⟨number, hfield⟩ a b)

variable {mnemonic operands : Text} {s : Statement}

theorem mapM_eq_ok_iff_forall₂ {ε α β : Type} {f : α → Except ε β} {xs : List α} {ys : List β} :
    xs.mapM f = .ok ys ↔ List.Forall₂ (fun x y => f x = .ok y) xs ys := by
  have hoption : ∀ x y, f x = .ok y ↔ (f x).toOption = some y := by
    intro x y
    cases f x <;> simp [Except.toOption]
  rw [mapM_eq_ok_iff hoption, ← List.forall₂_eq_eq_eq, List.forall₂_map_left_iff,
    List.forall₂_map_right_iff]
  simp only [hoption]

theorem ofMnemonic_of_numberOf? {number : Nat} (hnumber : Opcode.numberOf? mnemonic = some number)
    (hfield : number < 16) : Statement.ofMnemonic mnemonic operands =
      match parts operands with
      | [x, y] => do
        return .instruction ⟨number, hfield⟩ (← Argument.ofText x) (← Argument.ofText y)
      | _ => .error (.malformed (.operandCount mnemonic)) := by
  have hdata : mnemonic ≠ ['D', 'A', 'T'] := by
    rintro rfl
    cases hnumber
  have hnop : mnemonic ≠ Opcode.nopMnemonic := by
    rintro rfl
    cases hnumber
  rw [Statement.ofMnemonic, if_neg hdata, if_neg hnop]
  simp only [hnumber, dif_pos hfield]
  rfl

/-- **What a mnemonic and operands make** is what the grammar says. -/
theorem ofMnemonic_eq_ok_iff :
    Statement.ofMnemonic mnemonic operands = .ok s ↔ Makes mnemonic operands s := by
  constructor
  · intro h
    unfold Statement.ofMnemonic at h
    split at h
    · next hdata =>
      subst hdata
      split at h
      · cases h
      · next hne =>
        obtain ⟨values, hvalues, hdone⟩ := exists_of_except_ok h
        cases hdone
        exact .data hne (mapM_eq_ok_iff_forall₂.mp hvalues)
    · split at h
      · next hnop =>
        subst hnop
        split at h
        · cases h
        · next hempty =>
          cases h
          rw [not_not] at hempty
          subst hempty
          exact .nop
      · split at h
        · cases h
        · next number hnumber =>
          split at h
          · next hfield =>
            split at h
            · next x y hparts =>
              obtain ⟨a, ha, hrest⟩ := exists_of_except_ok h
              obtain ⟨b, hb, hdone⟩ := exists_of_except_ok hrest
              cases hdone
              exact .instruction hnumber hfield hparts ha hb
            · cases h
          · cases h
  · intro h
    cases h with
    | data hne hvalues =>
      rw [ofMnemonic_data hne, mapM_eq_ok_iff_forall₂.mpr hvalues]
      rfl
    | nop => rfl
    | instruction hnumber hfield hparts ha hb =>
      rw [ofMnemonic_of_numberOf? hnumber hfield, hparts]
      simp only [ha, hb]
      rfl

end Assembly

end WordMachine
