import Mathlib.Algebra.GroupWithZero.Nat
import Mathlib.Data.List.TakeDrop
import Mathlib.Data.List.TakeWhile
import WordMachine.Text.Basic

/-!
# Proofs/Text/Cuts — what a text was before it was cut

Each cut of a line is undone: `splitOn_eq_singleton_iff` and `splitOn_eq_pair_iff` for lists,
`beforeLast?_eq_some_iff` for a closing character, `splitBlank?_append` for the first blank.  Of
letters this module only knows that they are neither blanks nor digits.  A text is `Snug` if trimming
leaves it as it is.
-/

namespace WordMachine

namespace Text

variable {t u : Text} {c : Char}

/-! ## Lists and brackets -/

theorem splitOn_eq_singleton_iff : t.splitOn c = [u] ↔ c ∉ t ∧ u = t := by
  constructor
  · intro h
    by_cases hc : c ∈ t
    · obtain ⟨before, after, rfl, hbefore⟩ := List.eq_append_cons_of_mem hc
      rw [List.splitOn_append_cons_self_of_not_mem hbefore] at h
      exact absurd (List.cons.inj h).2 (List.splitOn_ne_nil c after)
    · rw [List.splitOn_eq_singleton hc] at h
      exact ⟨hc, (List.cons.inj h).1.symm⟩
  · rintro ⟨hc, rfl⟩
    exact List.splitOn_eq_singleton hc

theorem splitOn_eq_pair_iff {v : Text} :
    t.splitOn c = [u, v] ↔ c ∉ u ∧ c ∉ v ∧ t = u ++ c :: v := by
  constructor
  · intro h
    by_cases hc : c ∈ t
    · obtain ⟨before, after, rfl, hbefore⟩ := List.eq_append_cons_of_mem hc
      rw [List.splitOn_append_cons_self_of_not_mem hbefore] at h
      obtain ⟨rfl, hafter⟩ := List.cons.inj h
      obtain ⟨hv, rfl⟩ := splitOn_eq_singleton_iff.mp hafter
      exact ⟨hbefore, hv, rfl⟩
    · rw [List.splitOn_eq_singleton hc] at h
      cases h
  · rintro ⟨hu, hv, rfl⟩
    rw [List.splitOn_append_cons_self_of_not_mem hu, List.splitOn_eq_singleton hv]

/-- What has no separator in it goes to the last part. -/
theorem exists_splitOn_append (c : Char) (t : Text) :
    ∃ before last, ∀ e : Text, c ∉ e → (t ++ e).splitOn c = before ++ [last ++ e] := by
  induction h : t.length using Nat.strongRecOn generalizing t with
  | ind n ih =>
    by_cases hc : c ∈ t
    · obtain ⟨front, rest, rfl, hfront⟩ := List.eq_append_cons_of_mem hc
      have hshorter : rest.length < n := by
        rw [← h, List.length_append, List.length_cons]
        omega
      obtain ⟨before, last, hrest⟩ := ih _ hshorter rest rfl
      refine ⟨front :: before, last, fun e he => ?_⟩
      rw [List.append_assoc, List.cons_append,
        List.splitOn_append_cons_self_of_not_mem hfront, hrest e he, List.cons_append]
    · refine ⟨[], t, fun e he => List.splitOn_eq_singleton ?_⟩
      rw [List.mem_append, not_or]
      exact ⟨hc, he⟩

theorem after?_append (lead t : Text) : after? (lead ++ t) lead = some t := by
  induction lead with
  | nil => rw [List.nil_append, after?]
  | cons c lead ih =>
    rw [List.cons_append, after?, if_pos rfl]
    exact ih

theorem beforeLast?_eq_some_iff : beforeLast? c t = some u ↔ t = u ++ [c] := by
  unfold beforeLast?
  constructor
  · intro h
    split at h
    · next hlast =>
      obtain ⟨v, rfl⟩ := List.getLast?_eq_some_iff.mp hlast
      rw [List.dropLast_concat, Option.some.injEq] at h
      rw [h]
    · cases h
  · rintro rfl
    simp

/-- Texts that are cut where a character comes first are the same before it and after it. -/
theorem append_cons_inj {l l' r r' : Text} (hl : c ∉ l) (hl' : c ∉ l') :
    l ++ c :: r = l' ++ c :: r' ↔ l = l' ∧ r = r' := by
  constructor
  · intro h
    induction l generalizing l' with
    | nil =>
      cases l' with
      | nil => exact ⟨rfl, (List.cons.inj h).2⟩
      | cons d l' => exact absurd ((List.cons.inj h).1 ▸ List.mem_cons_self) hl'
    | cons d l ih =>
      cases l' with
      | nil => exact absurd ((List.cons.inj h).1 ▸ List.mem_cons_self) hl
      | cons d' l' =>
        obtain ⟨rfl, hrest⟩ := List.cons.inj h
        rw [List.mem_cons, not_or] at hl hl'
        obtain ⟨rfl, hr⟩ := ih hl.2 hl'.2 hrest
        exact ⟨rfl, hr⟩
  · rintro ⟨rfl, rfl⟩
    rfl

/-! ## Letters and blanks -/

theorem isAlpha_iff :
    c.isAlpha = true ↔ 65 ≤ c.toNat ∧ c.toNat ≤ 90 ∨ 97 ≤ c.toNat ∧ c.toNat ≤ 122 :=
  Bool.or_eq_true_iff.trans (or_congr decide_eq_true_iff
    (Bool.and_eq_true_iff.trans (and_congr decide_eq_true_iff decide_eq_true_iff)))

/-- No letter is blank… -/
theorem isBlank_eq_false_of_isAlpha (h : c.isAlpha = true) : isBlank c = false := by
  rw [isAlpha_iff] at h
  simp only [isBlank, Bool.or_eq_false_iff, Bool.and_eq_false_iff, decide_eq_false_iff_not,
    beq_eq_false_iff_ne]
  omega

/-- …and none is a digit. -/
theorem isDigit_eq_false_of_isAlpha (h : c.isAlpha = true) : c.isDigit = false := by
  rw [isAlpha_iff] at h
  rw [← Bool.not_eq_true, Char.isDigit_iff_toNat]
  change ¬ (48 ≤ c.toNat ∧ c.toNat ≤ 57)
  omega

/-- A letter or a digit is not blank. -/
theorem isBlank_eq_false_of_isAlphanum (h : c.isAlphanum = true) : isBlank c = false := by
  rw [Char.isAlphanum, Bool.or_eq_true] at h
  rcases h with halpha | hdigit
  · exact isBlank_eq_false_of_isAlpha halpha
  · rw [Char.isDigit_iff_toNat] at hdigit
    change 48 ≤ c.toNat ∧ c.toNat ≤ 57 at hdigit
    simp only [isBlank, Bool.or_eq_false_iff, Bool.and_eq_false_iff, decide_eq_false_iff_not,
      beq_eq_false_iff_ne]
    omega

theorem splitBlank?_append {b : Char} (ht : ∀ c ∈ t, isBlank c = false) (hb : isBlank b = true) :
    splitBlank? (t ++ b :: u) = some (t, u) := by
  have hspan : (t ++ b :: u).span (fun c => !isBlank c) = (t, b :: u) := by
    rw [List.span_eq_takeWhile_dropWhile, List.takeWhile_append_of_pos,
      List.dropWhile_append_of_pos]
    · simp [hb]
    · simpa using ht
    · simpa using ht
  rw [splitBlank?, hspan]

/-- The first word of a text has no blank in it. -/
theorem isBlank_of_mem_firstWord (h : c ∈ ((splitBlank? t).getD (t, [])).1) : isBlank c = false := by
  have hword : ((splitBlank? t).getD (t, [])).1 = t.takeWhile fun c => !isBlank c := by
    rw [splitBlank?, List.span_eq_takeWhile_dropWhile]
    cases hrest : t.dropWhile fun c => !isBlank c with
    | nil =>
      have hall := List.takeWhile_append_dropWhile (p := fun c => !isBlank c) (l := t)
      rw [hrest, List.append_nil] at hall
      exact hall.symm
    | cons b u => rfl
  rw [hword] at h
  simpa using List.mem_takeWhile_imp h

/-! ## Sizes -/

theorem utf8Size_eq (t : Text) : utf8Size t = (t.map Char.utf8Size).sum := by
  have hfrom : ∀ n, t.foldl (fun n c => n + c.utf8Size) n = n + (t.map Char.utf8Size).sum := by
    induction t with
    | nil => exact fun n => rfl
    | cons c t ih =>
      intro n
      rw [List.foldl_cons, ih, List.map_cons, List.sum_cons, Nat.add_assoc]
  exact (hfrom 0).trans (Nat.zero_add _)

theorem utf8Size_append (t u : Text) : utf8Size (t ++ u) = utf8Size t + utf8Size u := by
  rw [utf8Size_eq, utf8Size_eq, utf8Size_eq, List.map_append, List.sum_append]

/-- Letters and digits have one byte each. -/
theorem utf8Size_of_isAlphanum (h : ∀ c ∈ t, c.isAlphanum = true) : utf8Size t = t.length := by
  have hone : ∀ c ∈ t, c.utf8Size = 1 := by
    intro c hc
    have hletter := h c hc
    rw [Char.isAlphanum, Bool.or_eq_true, isAlpha_iff, Char.isDigit_iff_toNat] at hletter
    change _ ∨ 48 ≤ c.toNat ∧ c.toNat ≤ 57 at hletter
    rw [Char.utf8Size_eq_one_iff, UInt32.le_iff_toNat_le]
    change c.toNat ≤ 127
    omega
  rw [utf8Size_eq, List.map_congr_left hone, List.map_const', List.sum_replicate_nat, Nat.mul_one]

/-! ## Ends -/

/-- The text has a first and a last character, and neither is blank. -/
structure Snug (t : Text) : Prop where
  first : ∃ c u, t = c :: u ∧ isBlank c = false
  last : ∃ u c, t = u ++ [c] ∧ isBlank c = false

theorem Snug.trimStart_append (h : Snug t) (v : Text) : trimStart (t ++ v) = t ++ v := by
  obtain ⟨c, u, rfl, hc⟩ := h.first
  exact List.dropWhile_cons_of_neg (by simp [hc])

theorem Snug.trimEnd_eq (h : Snug t) : trimEnd t = t := by
  obtain ⟨u, c, hlast, hc⟩ := h.last
  have hend : t.reverse.dropWhile isBlank = t.reverse := by
    rw [hlast, List.reverse_append]
    exact List.dropWhile_cons_of_neg (by simp [hc])
  rw [trimEnd, hend, List.reverse_reverse]

theorem Snug.trim_eq (h : Snug t) : trim t = t := by
  have hstart := h.trimStart_append []
  rw [List.append_nil] at hstart
  rw [trim, hstart, h.trimEnd_eq]

/-- Blanks behind a snug text are trimmed away. -/
theorem Snug.trim_append (h : Snug t) {v : Text} (hv : ∀ b ∈ v, isBlank b = true) :
    trim (t ++ v) = t := by
  rw [trim, h.trimStart_append, trimEnd, List.reverse_append, List.dropWhile_append_of_pos]
  · exact h.trimEnd_eq
  · exact fun b hb => hv b (List.mem_reverse.mp hb)

theorem Snug.trim_concat (h : Snug t) {b : Char} (hb : isBlank b = true) : trim (t ++ [b]) = t :=
  h.trim_append (List.forall_mem_singleton.mpr hb)

/-- What stands between snug texts does not matter. -/
theorem Snug.append (ht : Snug t) (v : Text) (hu : Snug u) : Snug (t ++ (v ++ u)) := by
  obtain ⟨c, t', rfl, hc⟩ := ht.first
  obtain ⟨u', d, rfl, hd⟩ := hu.last
  exact ⟨⟨c, _, rfl, hc⟩, ⟨c :: t' ++ (v ++ u'), d, by simp, hd⟩⟩

theorem snug_of_forall (hne : t ≠ []) (h : ∀ c ∈ t, isBlank c = false) : Snug t := by
  refine ⟨?_, ?_⟩
  · obtain ⟨c, u, rfl⟩ := List.exists_cons_of_ne_nil hne
    exact ⟨c, u, rfl, h c List.mem_cons_self⟩
  · exact ⟨t.dropLast, t.getLast hne, (List.dropLast_concat_getLast hne).symm,
      h _ (List.getLast_mem hne)⟩

theorem trim_cons (hc : isBlank c = true) : trim (c :: t) = trim t := by
  rw [trim, trimStart, List.dropWhile_cons_of_pos hc]
  rfl

/-- Only blanks are trimmed away. -/
theorem mem_trim_of_mem (hc : isBlank c = false) (h : c ∈ t) : c ∈ trim t := by
  have hdrop : ∀ {u : Text}, c ∈ u → c ∈ u.dropWhile isBlank := by
    intro u hu
    rw [← List.takeWhile_append_dropWhile (p := isBlank) (l := u), List.mem_append] at hu
    refine hu.resolve_left fun hmem => ?_
    rw [List.mem_takeWhile_imp hmem] at hc
    cases hc
  rw [trim, trimEnd, List.mem_reverse]
  exact hdrop (List.mem_reverse.mpr (hdrop h))

theorem upTo_of_not_mem (h : c ∉ t) : upTo c t = t :=
  List.takeWhile_eq_self_iff.mpr fun d hd => by
    rw [bne_iff_ne]
    rintro rfl
    exact h hd

/-- A line without a comment and without blanks at its ends is its own content. -/
theorem Snug.content_eq (h : Snug t) (hcomment : ';' ∉ t) : content t = t := by
  rw [content, upTo_of_not_mem hcomment, h.trim_eq]

end Text

end WordMachine
