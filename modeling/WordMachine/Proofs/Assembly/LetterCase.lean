import WordMachine.Proofs.Assembly.Neutral

/-!
# Proofs/Assembly/LetterCase — letter case matters to labels alone

Mnemonics, registers, keywords, the marks of bases and the digits of numbers are read in either
letter case.  So a program that defines no label stays the same in whatever letter case it is
written (`assemble?_of_upper_eq`).

Main statement: `assemble?_upper_lower`.
-/

namespace WordMachine

/-- ASCII letters in lower case, all else unchanged. -/
def Text.lower (t : Text) : Text := t.map Char.toLower

theorem Text.upper_upper (t : Text) : upper (upper t) = upper t := by
  rw [upper, upper, List.map_map]
  exact List.map_congr_left fun c _ => toUpper_toUpper c

theorem Text.upper_lower (t : Text) : upper (lower t) = upper t := by
  rw [upper, lower, upper, List.map_map]
  exact List.map_congr_left fun c _ => toUpper_toLower c

namespace Assembly

variable {source source' t : Text} {program : Program}

/-- A space has no letter case. -/
theorem pickKept_toUpper (t : Text) : PickKept Char.toUpper t := fun _ _ _ _ _ hb =>
  (Text.toUpper_eq_iff rfl).mp hb

theorem head?_content_of_label {line name trailing : Text}
    (h : Statement.ofLine? line = .ok (some (.label name trailing))) :
    (Text.content line).head? = some ':' := by
  unfold Statement.ofLine? at h
  split at h
  · cases h
  · next hcontent => rw [hcontent, List.head?_cons]
  · obtain ⟨s, hs, heq⟩ := exists_of_except_map_ok h
    cases heq
    exact absurd hs ofMnemonic_ne_label

/-- **A program without labels** is the same in any letter case. -/
theorem assemble?_of_upper_eq (h : assemble? source = .ok program)
    (hlabels : ∀ entry ∈ source.numberedLines, (Text.content entry.2).head? ≠ some ':')
    (hsource : Text.upper source' = Text.upper source) : assemble? source' = .ok program := by
  refine assemble?_of_map_eq Text.neutral_toUpper hsource ?_
    (fun _ _ t _ => pickKept_toUpper t) h
  intro name hname
  obtain ⟨entry, hentry, _, hline⟩ := exists_definition hname
  exact absurd (head?_content_of_label hline) (hlabels entry hentry)

/-- **A program without labels is the same in upper case and in lower case.** -/
theorem assemble?_upper_lower (h : assemble? source = .ok program)
    (hlabels : ∀ entry ∈ source.numberedLines, (Text.content entry.2).head? ≠ some ':') :
    assemble? (Text.upper source) = .ok program ∧ assemble? (Text.lower source) = .ok program :=
  ⟨assemble?_of_upper_eq h hlabels (Text.upper_upper source),
    assemble?_of_upper_eq h hlabels (Text.upper_lower source)⟩

/-- A mnemonic, a register, SP, marks and digits in the letter case they are not usually in. -/
theorem assemble?_upper_lower_mixed :
    assemble? "ADD PUSH, [SP+0X1F]\nDAT 0B101, 0XAB".toList = .ok ⟨[0x6982, 0x1F, 5, 0xAB], []⟩ ∧
      assemble? "add push, [sp+0x1f]\ndat 0b101, 0xab".toList =
        .ok ⟨[0x6982, 0x1F, 5, 0xAB], []⟩ := by
  have h : assemble? "aDD Push, [sP+0X1f]\nDat 0B101, 0xaB".toList =
      .ok ⟨[0x6982, 0x1F, 5, 0xAB], []⟩ := rfl
  exact assemble?_upper_lower h (by decide)

end Assembly

end WordMachine
