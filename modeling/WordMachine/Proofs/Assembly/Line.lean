import WordMachine.Assembly.Line
import WordMachine.Proofs.Assembly.Denotation

/-!
# Proofs/Assembly/Line — the statement of a line

A line that starts with a mnemonic is read as that mnemonic says (`ofLine?_of_content`).  With an
operation and two operands it becomes an instruction of these (`of_ofLine?`).
-/

namespace WordMachine

namespace Assembly

variable {op : Opcode} {mnemonic : Text}

theorem isAlpha_of_mnemonic (h : Text.upper mnemonic = op.mnemonic) {c : Char} (hc : c ∈ mnemonic) :
    c.isAlpha = true := by
  have hupper : op.mnemonic.all Char.isUpper = true := by cases op <;> rfl
  refine Text.isAlpha_of_isUpper_toUpper (List.all_eq_true.mp hupper _ ?_)
  rw [← h]
  exact List.mem_map.mpr ⟨c, hc, rfl⟩

/-- **A line of a mnemonic, a blank and more** is the statement of the mnemonic. -/
theorem ofLine?_of_content {line rest : Text} {blank : Char}
    (hcontent : Text.content line = mnemonic ++ blank :: rest)
    (hletters : ∀ c ∈ mnemonic, c.isAlpha = true) (hne : mnemonic ≠ [])
    (hblank : Text.isBlank blank = true) :
    Statement.ofLine? line =
      (Statement.ofMnemonic (Text.upper mnemonic) (Text.trim rest)).map some := by
  have hblanks : ∀ c ∈ mnemonic, Text.isBlank c = false := fun c hc =>
    Text.isBlank_eq_false_of_isAlpha (hletters c hc)
  obtain ⟨c, cs, rfl⟩ := List.exists_cons_of_ne_nil hne
  unfold Statement.ofLine?
  rw [hcontent]
  split
  · next heq => cases heq
  · next heq =>
    cases heq
    exact absurd (hletters ':' List.mem_cons_self) (by decide)
  · dsimp only
    rw [Text.splitBlank?_append hblanks hblank, Option.getD_some]

theorem of_parts {t l r a b : Text} (ht : t = l ++ ',' :: r) (h : parts t = [a, b]) :
    a = Text.trim l ∧ b = Text.trim r := by
  subst ht
  rw [parts, List.splitOn_append_cons_self, List.map_append] at h
  cases hl : l.splitOn ',' with
  | nil => exact absurd hl (List.splitOn_ne_nil _ _)
  | cons x xs =>
    cases hr : r.splitOn ',' with
    | nil => exact absurd hr (List.splitOn_ne_nil _ _)
    | cons y ys =>
      rw [hl, hr] at h
      cases xs with
      | cons _ _ => simp at h
      | nil =>
        cases ys with
        | cons _ _ => simp at h
        | nil =>
          obtain ⟨-, rfl⟩ := Text.splitOn_eq_singleton_iff.mp hl
          obtain ⟨-, rfl⟩ := Text.splitOn_eq_singleton_iff.mp hr
          cases h
          exact ⟨rfl, rfl⟩

theorem parts_append {l r : Text} (hl : ',' ∉ l) (hr : ',' ∉ r) :
    parts (l ++ ',' :: r) = [Text.trim l, Text.trim r] := by
  rw [parts, Text.splitOn_eq_pair_iff.mpr ⟨hl, hr, rfl⟩]
  rfl

theorem ofMnemonic_eq (hnop : op ≠ .nop) (operands : Text) :
    Statement.ofMnemonic op.mnemonic operands =
      match parts operands with
      | [a, b] => do return .instruction op.number (← Argument.ofText a) (← Argument.ofText b)
      | _ => .error (.malformed (.operandCount op.mnemonic)) := by
  cases op with
  | nop => exact absurd rfl hnop
  | _ => rfl

/-- DAT takes one value or more. -/
theorem ofMnemonic_data {operands : Text} (h : operands ≠ []) :
    Statement.ofMnemonic ['D', 'A', 'T'] operands =
      ((parts operands).mapM Value.ofText).map .data := by
  rw [Statement.ofMnemonic, if_pos rfl, if_neg h]
  dsimp only
  cases (parts operands).mapM Value.ofText <;> rfl

/-- NOP takes no operands. -/
theorem ofMnemonic_nop {operands : Text} (h : operands ≠ []) :
    Statement.ofMnemonic Opcode.nopMnemonic operands = .error (.malformed .operandsAfterNop) := by
  rw [Statement.ofMnemonic, if_neg (by decide), if_pos rfl, if_pos h]
  rfl

/-- **A line with an operation and two operands** becomes an instruction of these. -/
theorem of_ofLine? {line rest l r : Text} {blank : Char} {statement : Option Statement}
    (hcontent : Text.content line = mnemonic ++ blank :: rest) (hblank : Text.isBlank blank = true)
    (hop : Text.upper mnemonic = op.mnemonic) (hnop : op ≠ .nop)
    (hoperands : Text.trim rest = l ++ ',' :: r) (h : Statement.ofLine? line = .ok statement) :
    ∃ a b, Argument.ofText (Text.trim l) = .ok a ∧ Argument.ofText (Text.trim r) = .ok b ∧
      statement = some (.instruction op.number a b) := by
  have hne : mnemonic ≠ [] := by
    rintro rfl
    cases op <;> cases hop
  rw [ofLine?_of_content hcontent (fun _ => isAlpha_of_mnemonic hop) hne hblank, hop, hoperands,
    ofMnemonic_eq hnop] at h
  split at h
  · next x y hparts =>
    obtain ⟨rfl, rfl⟩ := of_parts rfl hparts
    obtain ⟨s, hs, rfl⟩ := exists_of_except_map_ok h
    obtain ⟨a, ha, hrest⟩ := exists_of_except_ok hs
    obtain ⟨b, hb, hdone⟩ := exists_of_except_ok hrest
    cases hdone
    exact ⟨a, b, ha, hb, rfl⟩
  · cases h

end Assembly

end WordMachine
