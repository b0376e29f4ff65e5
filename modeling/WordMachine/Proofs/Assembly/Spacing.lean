import WordMachine.Proofs.Assembly.Neutral

/-!
# Proofs/Assembly/Spacing — tabs and spaces

Every cut that a line goes through takes a tab for a space, except the one behind PICK, which looks
for a space.  So a program stays the same when spaces and tabs are exchanged, unless that leaves a
tab right behind PICK (`TabbedPick`); then it is no program any more.

Main statement: `assemble?_respaced_iff`.
-/

namespace WordMachine

namespace Assembly

/-- The characters are the same, or one is a space and the other a tab. -/
def Exchanged (c d : Char) : Prop := c = d ∨ c = ' ' ∧ d = '\t' ∨ c = '\t' ∧ d = ' '

/-- The texts differ at most in spaces for tabs and tabs for spaces. -/
def Respaced (source source' : Text) : Prop := List.Forall₂ Exchanged source source'

instance : DecidableRel Exchanged := fun c d =>
  inferInstanceAs (Decidable (c = d ∨ c = ' ' ∧ d = '\t' ∨ c = '\t' ∧ d = ' '))

instance : DecidableRel Respaced := fun source source' =>
  inferInstanceAs (Decidable (List.Forall₂ Exchanged source source'))

/-- The text is PICK, in either letter case, and a tab behind it. -/
def TabbedPick (t : Text) : Prop :=
  ∃ k u, t = k ++ '\t' :: u ∧ Text.upper k = ['P', 'I', 'C', 'K']

theorem tabbedPick_iff {t : Text} :
    TabbedPick t ↔ Text.upper (t.take 4) = ['P', 'I', 'C', 'K'] ∧ t[4]? = some '\t' := by
  constructor
  · rintro ⟨k, u, rfl, hk⟩
    have hlength : k.length = 4 := by simpa [Text.upper] using congrArg List.length hk
    rw [List.take_left' hlength, ← hlength]
    exact ⟨hk, by simp⟩
  · rintro ⟨hk, htab⟩
    obtain ⟨hlt, htab⟩ := List.getElem?_eq_some_iff.mp htab
    refine ⟨t.take 4, t.drop 5, ?_, hk⟩
    rw [← htab, List.getElem_cons_drop, List.take_append_drop]

instance (t : Text) : Decidable (TabbedPick t) := decidable_of_iff' _ tabbedPick_iff

/-- A space for every tab. -/
def untab (c : Char) : Char := if c = '\t' then ' ' else c

variable {source source' t name : Text} {program program' : Program}

theorem untab_of_not_blank {c : Char} (hc : Text.isBlank c = false) : untab c = c := by
  refine if_neg ?_
  rintro rfl
  cases hc

theorem neutral_untab : Text.Neutral untab where
  isBlank_eq c := by
    unfold untab
    split
    · next htab => rw [htab]; rfl
    · rfl
  eq_lineEnd_iff c := by
    unfold untab
    split
    · next htab => rw [htab]; decide
    · rfl
  toUpper_eq hc := by rw [untab_of_not_blank hc]

theorem map_untab_of_respaced (h : Respaced source source') :
    source'.map untab = source.map untab := by
  induction h with
  | nil => rfl
  | @cons c d _ _ hcd _ ih =>
    have hd : untab d = untab c := by
      rcases hcd with rfl | ⟨rfl, rfl⟩ | ⟨rfl, rfl⟩ <;> rfl
    rw [List.map_cons, List.map_cons, hd, ih]

/-- Names have no blanks in them, so that no other text becomes the same. -/
theorem kept_untab (hname : isLabelName name = true) : Kept untab name := by
  have hid : ∀ {t : Text}, (∀ c ∈ t, Text.isBlank c = false) → t.map untab = t := fun ht =>
    (List.map_congr_left fun c hc => untab_of_not_blank (ht c hc)).trans (List.map_id' _)
  intro u hu
  have hblanks := isBlank_of_isLabelName hname
  rw [← hid (neutral_untab.upper_eq hu hblanks).1, hu, hid hblanks]

theorem pickKept_untab (h : ¬ TabbedPick t) : PickKept untab t := by
  intro k b u heq hk hb
  unfold untab at hb
  split at hb
  · next htab =>
    subst htab
    exact absurd ⟨k, u, heq, hk⟩ h
  · exact hb

/-! ## Tabs behind PICK -/

theorem not_tabbedPick_of_value {v : Value} (h : Value.ofText t = .ok v) : ¬ TabbedPick t := by
  rintro ⟨k, u, rfl, hk⟩
  exact ofText_ne_of_pick hk rfl h

theorem not_tabbedPick_of_gives {arg : Argument} (h : Gives t arg) : ¬ TabbedPick t := by
  rintro ⟨k, u, ht, hk⟩
  cases h with
  | keyword h =>
    have halpha := isAlpha_of_isReserved (isReserved_of_keyword? h) '\t' (by simp [ht])
    cases halpha
  | indirect h =>
    cases k with
    | nil => cases hk
    | cons c k =>
      obtain rfl := (List.cons.inj ht).1
      cases hk
  | pick h =>
    obtain ⟨k', rfl, hk'⟩ := afterPick?_eq_some_iff.mp h
    have hlength : k'.length = k.length := by
      simpa [Text.upper] using congrArg List.length (hk'.trans hk.symm)
    cases (List.append_inj ht hlength).2
  | value _ hv => exact not_tabbedPick_of_value hv ⟨k, u, ht, hk⟩

theorem not_tabbedPick_of_makes {mnemonic operands : Text} {s : Statement}
    (h : Makes mnemonic operands s) : ∀ t ∈ parts operands, ¬ TabbedPick t := by
  cases h with
  | @data _ values _ hvalues =>
    have hall : List.Forall₂ (fun p v => ¬ TabbedPick p ∧ Value.ofText p = .ok v)
        (parts operands) values := hvalues.imp fun p v hv => ⟨not_tabbedPick_of_value hv, hv⟩
    exact ((List.forall₂_and_left _ _).mp hall).1
  | nop =>
    rintro t ht ⟨k, u, heq, -⟩
    rw [List.mem_singleton.mp ht] at heq
    exact List.append_ne_nil_of_right_ne_nil k (List.cons_ne_nil _ _) heq.symm
  | instruction _ _ hparts ha hb =>
    rw [hparts, List.forall_mem_cons, List.forall_mem_singleton]
    exact ⟨not_tabbedPick_of_gives (argument_eq_ok_iff.mp ha),
      not_tabbedPick_of_gives (argument_eq_ok_iff.mp hb)⟩

/-- **A line with a tab behind PICK is refused.** -/
theorem not_tabbedPick_of_ofLine? {line : Text} {statement : Option Statement}
    (h : Statement.ofLine? line = .ok statement) :
    ∀ t ∈ (Outline.ofLine line).operands, ¬ TabbedPick t := by
  rw [ofLine?_eq_read?] at h
  cases houtline : Outline.ofLine line with
  | blank => exact fun t ht => absurd ht List.not_mem_nil
  | definition text => exact fun t ht => absurd ht List.not_mem_nil
  | operation mnemonic operands =>
    rw [houtline] at h
    obtain ⟨s, hs, -⟩ := exists_of_except_map_ok h
    exact not_tabbedPick_of_makes (ofMnemonic_eq_ok_iff.mp hs)

/-- **A program with spaces and tabs exchanged** is the same program, if there is no tab behind
PICK, and no program if there is. -/
theorem assemble?_respaced_iff (h : assemble? source = .ok program)
    (hsource : Respaced source source') : assemble? source' = .ok program' ↔
      (∀ entry ∈ source'.numberedLines, ∀ t ∈ (Outline.ofLine entry.2).operands,
        ¬ TabbedPick t) ∧ program' = program := by
  have hsame : (∀ entry ∈ source'.numberedLines, ∀ t ∈ (Outline.ofLine entry.2).operands,
      ¬ TabbedPick t) → assemble? source' = .ok program := by
    intro hpick
    refine assemble?_of_map_eq neutral_untab (map_untab_of_respaced hsource) ?_
      (fun entry hentry t ht => pickKept_untab (hpick entry hentry t ht)) h
    intro name hname
    obtain ⟨_, _, _, hline⟩ := exists_definition hname
    exact kept_untab (of_ofLine?_label hline).1
  constructor
  · intro h'
    have hpick : ∀ entry ∈ source'.numberedLines, ∀ t ∈ (Outline.ofLine entry.2).operands,
        ¬ TabbedPick t := by
      intro entry hentry
      obtain ⟨statement, hline⟩ := (assemble?_eq_ok_iff.mp h').1 entry hentry
      exact not_tabbedPick_of_ofLine? hline
    exact ⟨hpick, Except.ok.inj (h'.symm.trans (hsame hpick))⟩
  · rintro ⟨hpick, rfl⟩
    exact hsame hpick

/-- A tab behind a mnemonic, behind a comma or in brackets is as good as a space, and one right
behind PICK is not. -/
theorem assemble?_respaced_pick :
    assemble? "SET\tA,\t[B\t+ 1]\nSET C, PICK \t2".toList = .ok ⟨[0x4401, 1, 0x6821, 2], []⟩ ∧
      ∀ program, assemble? "SET A, [B + 1]\nSET C, PICK\t 2".toList ≠ .ok program := by
  have h : assemble? "SET A, [B + 1]\nSET C, PICK  2".toList =
      .ok ⟨[0x4401, 1, 0x6821, 2], []⟩ := rfl
  have hkept : Respaced "SET A, [B + 1]\nSET C, PICK  2".toList
      "SET\tA,\t[B\t+ 1]\nSET C, PICK \t2".toList := by decide
  have hbroken : Respaced "SET A, [B + 1]\nSET C, PICK  2".toList
      "SET A, [B + 1]\nSET C, PICK\t 2".toList := by decide
  exact ⟨(assemble?_respaced_iff h hkept).mpr ⟨by decide, rfl⟩,
    fun program h' => absurd ((assemble?_respaced_iff h hbroken).mp h').1 (by decide)⟩

end Assembly

end WordMachine
