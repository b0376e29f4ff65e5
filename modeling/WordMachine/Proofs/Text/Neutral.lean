import WordMachine.Proofs.Text.Cuts

/-!
# Proofs/Text/Neutral — changes of characters that no cut notices

A change of single characters is `Neutral` if it keeps blanks blank and line ends where they are, and
changes nothing but the letter case of all else.  The cuts of a text fall in the same places before
and after it: `splitOn_map`, `Neutral.content_map`, `Neutral.trim_map`, `Neutral.firstWord_map`.  So
two texts that a neutral change makes equal are cut alike.

Upper case is such a change.  What it does to a character is known letter by letter, since only the
26 small letters are changed at all (`exists_small_or`).
-/

namespace WordMachine

namespace Text

variable {f : Char → Char} {m c d : Char} {s t : Text}

/-! ## Letter case -/

/-- A character is one of the small letters or its own upper case… -/
theorem exists_small_or (c : Char) : (∃ i : Fin 26, c = Char.ofNat (97 + i)) ∨ c.toUpper = c := by
  by_cases h : 97 ≤ c.toNat ∧ c.toNat ≤ 122
  · refine .inl ⟨⟨c.toNat - 97, by omega⟩, ?_⟩
    rw [Nat.add_sub_cancel' h.1, Char.ofNat_toNat]
  · exact .inr (dif_neg h)

/-- …and one of the capital letters or its own lower case. -/
theorem exists_capital_or (c : Char) :
    (∃ i : Fin 26, c = Char.ofNat (65 + i)) ∨ c.toLower = c := by
  by_cases h : 65 ≤ c.toNat ∧ c.toNat ≤ 90
  · refine .inl ⟨⟨c.toNat - 65, by omega⟩, ?_⟩
    rw [Nat.add_sub_cancel' h.1, Char.ofNat_toNat]
  · exact .inr (dif_neg h)

theorem toUpper_toUpper (c : Char) : c.toUpper.toUpper = c.toUpper := by
  rcases exists_small_or c with ⟨i, rfl⟩ | hc
  · revert i
    decide
  · rw [hc, hc]

theorem toUpper_toLower (c : Char) : c.toLower.toUpper = c.toUpper := by
  rcases exists_capital_or c with ⟨i, rfl⟩ | hc
  · revert i
    decide
  · rw [hc]

theorem isAlpha_of_isUpper_toUpper (h : c.toUpper.isUpper = true) : c.isAlpha = true := by
  rcases exists_small_or c with ⟨i, rfl⟩ | hc
  · revert i
    decide
  · rw [hc] at h
    exact Bool.or_eq_true_iff.mpr (.inl h)

/-- A character without a case is the upper case of itself alone. -/
theorem toUpper_eq_iff (hm : m.isAlpha = false) : c.toUpper = m ↔ c = m := by
  rcases exists_small_or c with ⟨i, rfl⟩ | hc
  · have hletter : ∀ i : Fin 26, (Char.ofNat (97 + i)).isAlpha = true ∧
        (Char.ofNat (97 + i)).toUpper.isAlpha = true := by decide
    have hne : ∀ {a : Char}, a.isAlpha = true → a ≠ m := by
      rintro a ha rfl
      rw [hm] at ha
      cases ha
    exact iff_of_false (hne (hletter i).2) (hne (hletter i).1)
  · rw [hc]

/-- Characters of one upper case are each other's upper or lower case. -/
theorem eq_or_eq_of_toUpper_eq (h : c.toUpper = d.toUpper) : c = d.toUpper ∨ c = d.toLower := by
  rcases exists_small_or c with ⟨i, rfl⟩ | hc
  · right
    have hback : ∀ i : Fin 26, (Char.ofNat (97 + i)).toUpper.toLower = Char.ofNat (97 + i) ∧
        (Char.ofNat (97 + i)).toLower = Char.ofNat (97 + i) := by decide
    rcases exists_small_or d with ⟨j, rfl⟩ | hd
    · rw [← (hback i).1, h, (hback j).1, (hback j).2]
    · rw [← (hback i).1, h, hd]
  · left
    rw [← h, hc]

theorem isBlank_toUpper (c : Char) : isBlank c.toUpper = isBlank c := by
  rcases exists_small_or c with ⟨i, rfl⟩ | hc
  · revert i
    decide
  · rw [hc]

/-! ## Cuts at a character -/

theorem splitOn_map (hm : ∀ c, f c = m ↔ c = m) (t : Text) :
    (t.map f).splitOn m = (t.splitOn m).map (List.map f) := by
  induction t with
  | nil => simp
  | cons c t ih =>
    rw [List.map_cons, List.splitOn_cons_eq_if_modifyHead, List.splitOn_cons_eq_if_modifyHead, ih]
    simp only [beq_iff_eq, hm]
    split
    · rfl
    · cases t.splitOn m <;> rfl

theorem upTo_map (hm : ∀ c, f c = m ↔ c = m) (t : Text) : upTo m (t.map f) = (upTo m t).map f := by
  have hp : (· != m) ∘ f = (· != m) := funext fun c => by
    rw [Function.comp_apply, Bool.eq_iff_iff, bne_iff_ne, bne_iff_ne, Ne, hm]
  rw [upTo, upTo, List.takeWhile_map, hp]

/-! ## Neutral changes -/

/-- The change keeps blanks blank, line ends where they are, and all else but for its case. -/
structure Neutral (f : Char → Char) : Prop where
  isBlank_eq : ∀ c, isBlank (f c) = isBlank c
  eq_lineEnd_iff : ∀ c, f c = '\n' ↔ c = '\n'
  toUpper_eq : ∀ {c}, isBlank c = false → (f c).toUpper = c.toUpper

theorem neutral_toUpper : Neutral Char.toUpper where
  isBlank_eq := isBlank_toUpper
  eq_lineEnd_iff _ := toUpper_eq_iff rfl
  toUpper_eq _ := toUpper_toUpper _

namespace Neutral

variable (hf : Neutral f)
include hf

/-- What is neither a blank nor a letter stays where it is, and comes up nowhere else. -/
theorem eq_iff (hblank : isBlank m = false) (halpha : m.isAlpha = false) (c : Char) :
    f c = m ↔ c = m := by
  constructor
  · rintro rfl
    have hc : isBlank c = false := (hf.isBlank_eq c).symm.trans hblank
    have hupper : c.toUpper = f c := by rw [← hf.toUpper_eq hc, toUpper_eq_iff halpha]
    rwa [toUpper_eq_iff halpha] at hupper
  · rintro rfl
    have hupper : (f c).toUpper = c := by rw [hf.toUpper_eq hblank, toUpper_eq_iff halpha]
    rwa [toUpper_eq_iff halpha] at hupper

/-- Such a character is where it was in front of a text. -/
theorem exists_cons_of_map_eq (hblank : isBlank m = false) (halpha : m.isAlpha = false)
    (hst : s.map f = (m :: t).map f) : ∃ s', s = m :: s' ∧ s'.map f = t.map f := by
  obtain ⟨c, s', rfl, hc, hrest⟩ := List.map_eq_cons_iff.mp hst
  have hm : f m = m := (hf.eq_iff hblank halpha m).mpr rfl
  rw [hm, hf.eq_iff hblank halpha] at hc
  exact ⟨s', hc ▸ rfl, hrest⟩

theorem trimStart_map (t : Text) : trimStart (t.map f) = (trimStart t).map f := by
  have hp : isBlank ∘ f = isBlank := funext hf.isBlank_eq
  rw [trimStart, trimStart, List.dropWhile_map, hp]

theorem trimEnd_map (t : Text) : trimEnd (t.map f) = (trimEnd t).map f := by
  have hreverse := hf.trimStart_map t.reverse
  rw [trimStart, trimStart] at hreverse
  rw [trimEnd, trimEnd, ← List.map_reverse, hreverse, List.map_reverse]

theorem trim_map (t : Text) : trim (t.map f) = (trim t).map f := by
  rw [trim, trim, hf.trimStart_map, hf.trimEnd_map]

theorem splitOn_trim_map (hblank : isBlank m = false) (halpha : m.isAlpha = false) (t : Text) :
    ((t.map f).splitOn m).map trim = ((t.splitOn m).map trim).map (List.map f) := by
  rw [splitOn_map (hf.eq_iff hblank halpha), List.map_map, List.map_map]
  exact List.map_congr_left fun u _ => hf.trim_map u

theorem content_map (t : Text) : content (t.map f) = (content t).map f := by
  rw [content, content, upTo_map (hf.eq_iff rfl rfl), hf.trim_map]

theorem splitBlank?_map (t : Text) :
    splitBlank? (t.map f) = (splitBlank? t).map (Prod.map (List.map f) (List.map f)) := by
  have hp : (fun c => !isBlank c) ∘ f = fun c => !isBlank c := funext fun c => by
    rw [Function.comp_apply, hf.isBlank_eq]
  rw [splitBlank?, splitBlank?, List.span_eq_takeWhile_dropWhile, List.span_eq_takeWhile_dropWhile,
    List.takeWhile_map, List.dropWhile_map, hp]
  cases t.dropWhile fun c => !isBlank c <;> rfl

/-- The first word and the rest change each by itself. -/
theorem firstWord_map (t : Text) : (splitBlank? (t.map f)).getD (t.map f, []) =
    Prod.map (List.map f) (List.map f) ((splitBlank? t).getD (t, [])) := by
  rw [hf.splitBlank?_map]
  cases splitBlank? t <;> rfl

/-- Texts without blanks that the change makes equal differ in letter case alone. -/
theorem upper_eq (hst : s.map f = t.map f) (ht : ∀ c ∈ t, isBlank c = false) :
    (∀ c ∈ s, isBlank c = false) ∧ upper s = upper t := by
  have hkept : ∀ {u : Text}, (∀ c ∈ u, isBlank c = false) → upper (u.map f) = upper u := by
    intro u hu
    rw [upper, upper, List.map_map]
    exact List.map_congr_left fun c hc => hf.toUpper_eq (hu c hc)
  have hs : ∀ c ∈ s, isBlank c = false := by
    intro c hc
    have hmem : f c ∈ t.map f := hst ▸ List.mem_map_of_mem hc
    obtain ⟨d, hd, heq⟩ := List.mem_map.mp hmem
    rw [← hf.isBlank_eq, ← heq, hf.isBlank_eq, ht d hd]
  exact ⟨hs, by rw [← hkept hs, hst, hkept ht]⟩

end Neutral

end Text

end WordMachine
