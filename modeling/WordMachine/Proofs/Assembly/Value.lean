import Mathlib.Data.List.Basic
import WordMachine.Proofs.Assembly.Denotation

/-!
# Proofs/Assembly/Value — values are read as they are meant

A text is read as a value just if it stands for a word, and the value is that word once labels have
addresses: `reads_of_ofText` and, if no label looks like anything else (`Named`),
`exists_ofText_of_reads`.  A text that stands for a word names no register and no keyword, and a
value does not start with PICK and a blank (`ofText_ne_of_pick`).
-/

namespace WordMachine

namespace Assembly

/-- The word that a value is once labels have addresses. -/
def Value.word? (labels : LabelTable) : Value → Option Word
  | .number w => some w
  | .label name => labels.address? name

/-- Every label has a name that labels may have. -/
def Named (labels : LabelTable) : Prop :=
  ∀ ⦃name w⦄, labels.address? name = some w → isLabelName name = true ∧ isReserved name = false

variable {labels : LabelTable} {t : Text} {w : Word} {n : Int}

theorem named_nil : Named [] := fun _ _ h => by cases h

/-! ## Numbers -/

theorem ofInt_eq_ok {v : Value} :
    Value.ofInt n = .ok v ↔ (-0x8000 ≤ n ∧ n ≤ 0xFFFF) ∧ v = .number (UInt16.ofInt n) := by
  unfold Value.ofInt
  split
  · next hrange => simp [hrange, eq_comm]
  · next hrange => simp [hrange]

/-- A text that does not start with a digit is no literal. -/
theorem literal_ofText_eq_none {c : Char} {rest : Text} (hc : c.isDigit = false) :
    Literal.ofText (c :: rest) = .none := by
  unfold Literal.ofText
  split
  · next heq => cases heq; cases hc
  · next heq => cases heq; cases hc
  · next heq => cases heq; cases hc
  · next heq => cases heq; cases hc
  · next heq =>
    cases heq
    rw [hc]
    rfl
  · rfl

theorem exists_isDigit_of_literal (h : Literal.ofText t = .number n) :
    ∃ c rest, t = c :: rest ∧ c.isDigit = true := by
  cases t with
  | nil => cases h
  | cons c rest =>
    cases hc : c.isDigit with
    | true => exact ⟨c, rest, rfl, hc⟩
    | false =>
      rw [literal_ofText_eq_none hc] at h
      cases h

theorem exists_of_writes (h : Writes t n) : ∃ c rest, t = c :: rest ∧ c.isAlpha = false := by
  cases h with
  | literal h =>
    obtain ⟨c, rest, rfl, hc⟩ := exists_isDigit_of_literal h
    refine ⟨c, rest, rfl, ?_⟩
    by_contra halpha
    rw [Bool.not_eq_false] at halpha
    rw [Text.isDigit_eq_false_of_isAlpha halpha] at hc
    cases hc
  | negative h => exact ⟨'-', _, rfl, rfl⟩

/-! ## Values -/

theorem Value.ofText_of_ne {c : Char} {rest : Text} (hc : c ≠ '-') :
    Value.ofText (c :: rest) =
      match Literal.ofText (c :: rest) with
      | .number n => Value.ofInt n
      | .malformed => .error (.malformed (.invalidNumber (c :: rest)))
      | .none =>
        if isLabelName (c :: rest) then .ok (.label (c :: rest))
        else .error (.malformed (.invalidOperand (c :: rest))) := by
  unfold Value.ofText
  split
  · next heq => cases heq
  · next heq =>
    cases heq
    exact absurd rfl hc
  · rfl

/-- **A value that is read is meant**… -/
theorem reads_of_ofText {v : Value} (h : Value.ofText t = .ok v) (hw : v.word? labels = some w) :
    Reads labels t w := by
  unfold Value.ofText at h
  split at h
  · cases h
  · next rest =>
    split at h
    · next n hn =>
      obtain ⟨⟨hlo, hhi⟩, rfl⟩ := ofInt_eq_ok.mp h
      cases hw
      exact .number (.negative hn) hlo hhi
    · cases h
    · cases h
  · split at h
    · next n hn =>
      obtain ⟨⟨hlo, hhi⟩, rfl⟩ := ofInt_eq_ok.mp h
      cases hw
      exact .number (.literal hn) hlo hhi
    · cases h
    · split at h
      · cases h
        exact .label hw
      · cases h

theorem ofText_of_writes (h : Writes t n) : Value.ofText t = Value.ofInt n := by
  cases h with
  | literal h =>
    obtain ⟨c, rest, rfl, hc⟩ := exists_isDigit_of_literal h
    have hminus : c ≠ '-' := by
      rintro rfl
      cases hc
    rw [Value.ofText_of_ne hminus, h]
  | negative h =>
    rw [Value.ofText]
    simp only [h]

/-- A label name starts with a letter, `_` or `.`. -/
theorem exists_of_isLabelName (h : isLabelName t = true) :
    ∃ c rest, t = c :: rest ∧ isNameStart c = true ∧ rest.all isNameRest = true := by
  cases t with
  | nil => cases h
  | cons c rest =>
    rw [isLabelName, Bool.and_eq_true] at h
    exact ⟨c, rest, rfl, h.1, h.2⟩

theorem isDigit_of_isNameStart {c : Char} (h : isNameStart c = true) : c.isDigit = false := by
  simp only [isNameStart, Bool.or_eq_true, beq_iff_eq] at h
  rcases h with (halpha | rfl) | rfl
  · exact Text.isDigit_eq_false_of_isAlpha halpha
  · rfl
  · rfl

theorem isNameRest_of_mem (h : isLabelName t = true) {c : Char} (hc : c ∈ t) :
    isNameRest c = true := by
  obtain ⟨first, rest, rfl, hfirst, hrest⟩ := exists_of_isLabelName h
  rcases List.mem_cons.mp hc with rfl | hc
  · simp only [isNameStart, Bool.or_eq_true] at hfirst
    simp only [isNameRest, Char.isAlphanum, Bool.or_eq_true]
    exact hfirst.imp_left (·.imp_left .inl)
  · exact List.all_eq_true.mp hrest c hc

/-- Label names have no blanks in them. -/
theorem isBlank_of_isLabelName (h : isLabelName t = true) : ∀ c ∈ t, Text.isBlank c = false := by
  intro c hc
  have hrest := isNameRest_of_mem h hc
  simp only [isNameRest, Bool.or_eq_true, beq_iff_eq] at hrest
  rcases hrest with (hletter | rfl) | rfl
  · exact Text.isBlank_eq_false_of_isAlphanum hletter
  · rfl
  · rfl

theorem ofText_of_isLabelName (h : isLabelName t = true) : Value.ofText t = .ok (.label t) := by
  obtain ⟨c, rest, rfl, hc, -⟩ := exists_of_isLabelName h
  have hminus : c ≠ '-' := by
    rintro rfl
    cases hc
  rw [Value.ofText_of_ne hminus, literal_ofText_eq_none (isDigit_of_isNameStart hc)]
  simp only [h, if_true]

/-- What is read as a label is its name. -/
theorem of_ofText_label {name : Text} (h : Value.ofText t = .ok (.label name)) :
    isLabelName t = true ∧ name = t := by
  unfold Value.ofText at h
  split at h
  · cases h
  · split at h
    · cases (ofInt_eq_ok.mp h).2
    · cases h
    · cases h
  · split at h
    · cases (ofInt_eq_ok.mp h).2
    · cases h
    · split at h
      · next hname =>
        cases h
        exact ⟨hname, rfl⟩
      · cases h

/-- …and a value that is meant is read. -/
theorem exists_ofText_of_reads (hnamed : Named labels) (h : Reads labels t w) :
    ∃ v, Value.ofText t = .ok v ∧ v.word? labels = some w := by
  cases h with
  | number hn hlo hhi =>
    exact ⟨_, (ofText_of_writes hn).trans (ofInt_eq_ok.mpr ⟨⟨hlo, hhi⟩, rfl⟩), rfl⟩
  | label h => exact ⟨.label t, ofText_of_isLabelName (hnamed h).1, h⟩

/-! ## Values are not mistaken for anything else -/

theorem isReserved_of_reads (hnamed : Named labels) (h : Reads labels t w) :
    isReserved t = false := by
  cases h with
  | number hn =>
    by_contra hreserved
    rw [Bool.not_eq_false] at hreserved
    obtain ⟨c, rest, rfl, halpha⟩ := exists_isAlpha_of_isReserved hreserved
    obtain ⟨_, _, heq, hc⟩ := exists_of_writes hn
    cases heq
    rw [halpha] at hc
    cases hc
  | label h => exact (hnamed h).2

theorem isBase_of_reads (hnamed : Named labels) (h : Reads labels t w) : isBase t = false := by
  by_contra hbase
  rw [Bool.not_eq_false] at hbase
  have hreserved := isReserved_of_reads hnamed h
  rw [isReserved_of_isBase hbase] at hreserved
  cases hreserved

theorem keyword?_of_reads (hnamed : Named labels) (h : Reads labels t w) : keyword? t = none := by
  refine Option.eq_none_iff_forall_ne_some.mpr fun o ho => ?_
  have hreserved := isReserved_of_reads hnamed h
  rw [isReserved_of_keyword? ho] at hreserved
  cases hreserved

theorem afterPick?_eq_some_iff {u : Text} :
    afterPick? t = some u ↔ ∃ k, t = k ++ ' ' :: u ∧ Text.upper k = ['P', 'I', 'C', 'K'] := by
  constructor
  · intro h
    unfold afterPick? at h
    split at h
    · next p i c k offset =>
      split at h
      · next hk =>
        cases h
        exact ⟨[p, i, c, k], rfl, beq_iff_eq.mp hk⟩
      · cases h
    · cases h
  · rintro ⟨k, rfl, hk⟩
    have hlength : k.length = 4 := by
      have := congrArg List.length hk
      rwa [Text.upper, List.length_map] at this
    obtain ⟨p, i, c, d, rfl⟩ := List.length_eq_four.mp hlength
    have hsame : Text.sameLetters [p, i, c, d] ['P', 'I', 'C', 'K'] = true := beq_iff_eq.mpr hk
    simp only [List.cons_append, List.nil_append, afterPick?, hsame, if_true]

theorem isAlpha_of_pick {k : Text} (hk : Text.upper k = ['P', 'I', 'C', 'K']) :
    ∀ c ∈ k, c.isAlpha = true := by
  have hsame : Text.sameLetters k ['P', 'I', 'C', 'K'] = true := beq_iff_eq.mpr hk
  refine isAlpha_of_isReserved ?_
  rw [isReserved, Bool.or_eq_true, List.any_eq_true]
  exact .inr ⟨_, by decide, hsame⟩

/-- What starts with PICK and a blank is no value. -/
theorem ofText_ne_of_pick {k u : Text} {b : Char} {v : Value}
    (hk : Text.upper k = ['P', 'I', 'C', 'K']) (hb : Text.isBlank b = true) :
    Value.ofText (k ++ b :: u) ≠ .ok v := by
  intro h
  cases v with
  | number w =>
    obtain ⟨c, k, rfl⟩ := List.exists_cons_of_ne_nil (show k ≠ [] by rintro rfl; cases hk)
    cases reads_of_ofText h (show Value.word? [] (.number w) = some w from rfl) with
    | number hn =>
      obtain ⟨_, _, heq, hc⟩ := exists_of_writes hn
      cases heq
      rw [isAlpha_of_pick hk c List.mem_cons_self] at hc
      cases hc
    | label h => cases h
  | label name =>
    obtain ⟨hname, -⟩ := of_ofText_label h
    rw [isBlank_of_isLabelName hname b (by simp)] at hb
    cases hb

theorem afterPick?_of_value {v : Value} (h : Value.ofText t = .ok v) : afterPick? t = none := by
  refine Option.eq_none_iff_forall_ne_some.mpr fun u hu => ?_
  obtain ⟨k, rfl, hk⟩ := afterPick?_eq_some_iff.mp hu
  exact ofText_ne_of_pick hk rfl h

end Assembly

end WordMachine
