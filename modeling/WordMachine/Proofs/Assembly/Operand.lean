import WordMachine.Proofs.Assembly.Grammar

/-!
# Proofs/Assembly/Operand — operands are encoded as they are meant

An argument `Encodes` a meaning if its code is that of an operand which, with the argument's extra
word, has the meaning.  Main statements: every operand that is accepted has a meaning
(`exists_denotes`), and it encodes each of its meanings (`encodes_of_denotes`).
-/

namespace WordMachine

namespace Assembly

/-- The argument is the code of an operand, and the extra word the operand takes, with the meaning
`m`. -/
def Encodes (labels : LabelTable) (arg : Argument) (m : Meaning) : Prop :=
  ∃ o extra, arg.code = o.code ∧ o.usesNextWord = arg.extra.isSome ∧
    (∀ v ∈ arg.extra, v.word? labels = some extra) ∧ m = Meaning.ofOperand extra o

variable {labels : LabelTable} {t l r : Text} {m : Meaning} {arg : Argument}
  {o : Operand} {v : Value} {w : Word}

theorem encodes_plain (ho : o.usesNextWord = false)
    (hm : ∀ extra, Meaning.ofOperand extra o = m) : Encodes labels (.plain o) m :=
  ⟨o, 0, rfl, ho, fun _ hv => absurd hv (Option.not_mem_none _), (hm 0).symm⟩

theorem encodes_extended (ho : o.usesNextWord = true) (hw : v.word? labels = some w) :
    Encodes labels (.extended o v) (Meaning.ofOperand w o) :=
  ⟨o, w, rfl, ho, fun _ hv => Option.mem_some_iff.mp hv ▸ hw, rfl⟩

/-- **A number means the same in the code and in an extra word.** -/
theorem encodes_ofValue (hw : v.word? labels = some w) :
    Encodes labels (.ofValue v) (.value w) := by
  cases v with
  | label name =>
    have huses : Operand.nextLiteral.usesNextWord = true := rfl
    exact encodes_extended huses hw
  | number n =>
    obtain rfl : n = w := Option.some.inj hw
    rw [Argument.ofValue]
    split
    · next hsmall =>
      have huses : (Operand.inline ⟨n.toNat, hsmall⟩).usesNextWord = false := rfl
      refine encodes_plain huses fun _ => ?_
      change Meaning.value (UInt16.ofNat n.toNat) = .value n
      rw [UInt16.ofNat_toNat]
    · have huses : Operand.nextLiteral.usesNextWord = true := rfl
      exact encodes_extended huses hw

/-! ## Between brackets -/

/-- What is accepted between brackets has a meaning… -/
theorem exists_inside (h : Adds (terms t) arg)
    (hdefined : ∀ v ∈ arg.extra, ∃ w, v.word? labels = some w) : ∃ m, Inside labels t m := by
  generalize hterms : terms t = ts at h
  cases h with
  | pointed hx =>
    obtain ⟨ht, rfl⟩ := terms_eq_single_iff.mp hterms
    obtain ⟨base, hnames⟩ := isBase_iff.mp (isBase_of_plainBase? hx)
    exact ⟨.pointed base, .pointed ht hnames⟩
  | cell _ hv =>
    obtain ⟨ht, rfl⟩ := terms_eq_single_iff.mp hterms
    obtain ⟨w, hw⟩ := hdefined _ rfl
    exact ⟨.cell w, .cell ht (reads_of_ofText hv hw)⟩
  | baseFirst hx _ hv =>
    obtain ⟨l, r, hl, hr, rfl, rfl, rfl⟩ := terms_eq_pair_iff.mp hterms
    obtain ⟨base, hnames⟩ := isBase_iff.mp (isBase_of_offsetBase? hx)
    obtain ⟨w, hw⟩ := hdefined _ rfl
    exact ⟨.offset base w, .baseFirst hl hr hnames (reads_of_ofText hv hw)⟩
  | valueFirst _ hv hy =>
    obtain ⟨l, r, hl, hr, rfl, rfl, rfl⟩ := terms_eq_pair_iff.mp hterms
    obtain ⟨base, hnames⟩ := isBase_iff.mp (isBase_of_offsetBase? hy)
    obtain ⟨w, hw⟩ := hdefined _ rfl
    exact ⟨.offset base w, .valueFirst hl hr (reads_of_ofText hv hw) hnames⟩

theorem offsetOf_spec (base : Base) : (offsetOf base).usesNextWord = true ∧
    ∀ extra, Meaning.ofOperand extra (offsetOf base) = .offset base extra := by
  cases base with
  | register r => exact ⟨rfl, fun _ => rfl⟩
  | sp => exact ⟨rfl, fun _ => rfl⟩

theorem plainOf_spec (base : Base) : (plainOf base).usesNextWord = false ∧
    ∀ extra, Meaning.ofOperand extra (plainOf base) = .pointed base := by
  cases base with
  | register r => exact ⟨rfl, fun _ => rfl⟩
  | sp => exact ⟨rfl, fun _ => rfl⟩

/-- …and each of its meanings is encoded by an operand that is accepted. -/
theorem exists_adds (hnamed : Named labels) (hm : Inside labels t m) :
    ∃ arg, Adds (terms t) arg ∧ Encodes labels arg m := by
  cases hm with
  | @pointed _ base ht hbase =>
    rw [terms_eq_single_iff.mpr ⟨ht, rfl⟩]
    obtain ⟨huses, hmeaning⟩ := plainOf_spec base
    exact ⟨_, .pointed (plainBase?_eq hbase), encodes_plain huses hmeaning⟩
  | cell ht hv =>
    obtain ⟨v, hvalue, hw⟩ := exists_ofText_of_reads hnamed hv
    rw [terms_eq_single_iff.mpr ⟨ht, rfl⟩]
    exact ⟨_, .cell (isBase_of_reads hnamed hv) hvalue, encodes_extended rfl hw⟩
  | @baseFirst l r base w hl hr hbase hv =>
    obtain ⟨v, hvalue, hw⟩ := exists_ofText_of_reads hnamed hv
    obtain ⟨huses, hmeaning⟩ := offsetOf_spec base
    rw [terms_eq_pair_iff.mpr ⟨l, r, hl, hr, rfl, rfl, rfl⟩, ← hmeaning w]
    exact ⟨_, .baseFirst (offsetBase?_eq hbase) (isBase_of_reads hnamed hv) hvalue,
      encodes_extended huses hw⟩
  | @valueFirst l r base w hl hr hv hbase =>
    obtain ⟨v, hvalue, hw⟩ := exists_ofText_of_reads hnamed hv
    obtain ⟨huses, hmeaning⟩ := offsetOf_spec base
    rw [terms_eq_pair_iff.mpr ⟨l, r, hl, hr, rfl, rfl, rfl⟩, ← hmeaning w]
    exact ⟨_, .valueFirst (isBase_of_reads hnamed hv) hvalue (offsetBase?_eq hbase),
      encodes_extended huses hw⟩

/-! ## Operands -/

/-- **An operand that is accepted has a meaning**… -/
theorem exists_denotes (h : Argument.ofText t = .ok arg)
    (hdefined : ∀ v ∈ arg.extra, ∃ w, v.word? labels = some w) : ∃ m, Denotes labels t m := by
  cases argument_eq_ok_iff.mp h with
  | keyword hkeyword =>
    obtain ⟨m, ⟨r, hr, rfl⟩ | hm, -⟩ := of_keyword? hkeyword
    · exact ⟨.register r, .register hr⟩
    · exact ⟨m, .keyword hm⟩
  | indirect hadds =>
    obtain ⟨m, hm⟩ := exists_inside hadds hdefined
    exact ⟨m, .indirect hm⟩
  | pick hpick hv =>
    obtain ⟨k, rfl, hk⟩ := afterPick?_eq_some_iff.mp hpick
    obtain ⟨w, hw⟩ := hdefined _ rfl
    exact ⟨.offset .sp w, .pick hk (reads_of_ofText hv hw)⟩
  | @value _ v _ hv =>
    obtain ⟨w, hw⟩ : ∃ w, v.word? labels = some w := by
      cases v with
      | number n => exact ⟨n, rfl⟩
      | label name => exact hdefined _ rfl
    exact ⟨.value w, .value (reads_of_ofText hv hw)⟩

/-- …and is encoded as each of its meanings. -/
theorem encodes_of_denotes (hnamed : Named labels) (hm : Denotes labels t m)
    (h : Argument.ofText t = .ok arg) : Encodes labels arg m := by
  -- the reader gives one operand only, so that it is enough to find one for the meaning
  suffices hgives : ∃ arg', Gives t arg' ∧ Encodes labels arg' m by
    obtain ⟨arg', hgives, hencodes⟩ := hgives
    rw [← argument_eq_ok_iff, h] at hgives
    exact Except.ok.inj hgives ▸ hencodes
  have hword : ∀ {t : Text} {m : Meaning},
      ((∃ r, Text.upper t = [r.letter] ∧ m = .register r) ∨ (Text.upper t, m) ∈ keywordMeanings) →
      ∃ arg', Gives t arg' ∧ Encodes labels arg' m := by
    intro t m hmeaning
    obtain ⟨o, ho, huses, hm⟩ := exists_keyword? hmeaning
    exact ⟨_, .keyword ho, encodes_plain huses hm⟩
  cases hm with
  | register hr => exact hword (.inl ⟨_, hr, rfl⟩)
  | keyword hm => exact hword (.inr hm)
  | @pick k u w hk hv =>
    obtain ⟨v, hvalue, hw⟩ := exists_ofText_of_reads hnamed hv
    have hpick : afterPick? (k ++ ' ' :: u) = some u := afterPick?_eq_some_iff.mpr ⟨k, rfl, hk⟩
    have huses : Operand.pick.usesNextWord = true := rfl
    exact ⟨_, .pick hpick hvalue, encodes_extended huses hw⟩
  | indirect hm =>
    obtain ⟨arg', hadds, hencodes⟩ := exists_adds hnamed hm
    exact ⟨arg', .indirect hadds, hencodes⟩
  | value hv =>
    obtain ⟨v, hvalue, hw⟩ := exists_ofText_of_reads hnamed hv
    exact ⟨_, .value (keyword?_of_reads hnamed hv) hvalue, encodes_ofValue hw⟩

end Assembly

end WordMachine
