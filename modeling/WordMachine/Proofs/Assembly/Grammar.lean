import WordMachine.Proofs.Assembly.Value

/-!
# Proofs/Assembly/Grammar — the grammar of operands

An operand is accepted if one of the rules of `Gives` applies to its text, and what stands between
brackets if one of those of `Adds` applies to the terms of its sum.  The rules are those of the
reader, each with all that the reader has looked at before: `ofIndirect_eq_ok_iff` and
`argument_eq_ok_iff`.
-/

namespace WordMachine

namespace Assembly

/-- The terms of a sum, each without the blanks around it. -/
def terms (t : Text) : List Text := (t.splitOn '+').map Text.trim

/-- The terms of a sum between brackets give the operand. -/
inductive Adds : List Text → Argument → Prop where
  | pointed {x : Text} {o : Operand} (hx : plainBase? x = some o) : Adds [x] (.plain o)
  | cell {x : Text} {v : Value} (hx : isBase x = false) (hv : Value.ofText x = .ok v) :
      Adds [x] (.extended .indirectNext v)
  | baseFirst {x y : Text} {o : Operand} {v : Value} (hx : offsetBase? x = some o)
      (hy : isBase y = false) (hv : Value.ofText y = .ok v) : Adds [x, y] (.extended o v)
  | valueFirst {x y : Text} {o : Operand} {v : Value} (hx : isBase x = false)
      (hv : Value.ofText x = .ok v) (hy : offsetBase? y = some o) : Adds [x, y] (.extended o v)

/-- The trimmed text of an operand gives the operand. -/
inductive Gives : Text → Argument → Prop where
  | keyword {t : Text} {o : Operand} (h : keyword? t = some o) : Gives t (.plain o)
  | indirect {t : Text} {arg : Argument} (h : Adds (terms (Text.trim t)) arg) :
      Gives ('[' :: (t ++ [']'])) arg
  | pick {t u : Text} {v : Value} (h : afterPick? t = some u)
      (hv : Value.ofText (Text.trim u) = .ok v) : Gives t (.extended .pick v)
  | value {t : Text} {v : Value} (hkeyword : keyword? t = none) (hv : Value.ofText t = .ok v) :
      Gives t (.ofValue v)

variable {t x y : Text} {o : Operand} {arg : Argument} {v : Value}

/-! ## Between brackets -/

theorem terms_eq_single_iff : terms t = [x] ↔ '+' ∉ t ∧ x = Text.trim t := by
  rw [terms, List.map_eq_singleton_iff]
  constructor
  · rintro ⟨u, hsplit, rfl⟩
    obtain ⟨ht, rfl⟩ := Text.splitOn_eq_singleton_iff.mp hsplit
    exact ⟨ht, rfl⟩
  · rintro ⟨ht, rfl⟩
    exact ⟨t, List.splitOn_eq_singleton ht, rfl⟩

theorem terms_eq_pair_iff : terms t = [x, y] ↔
    ∃ l r, '+' ∉ l ∧ '+' ∉ r ∧ t = l ++ '+' :: r ∧ x = Text.trim l ∧ y = Text.trim r := by
  rw [terms]
  constructor
  · intro h
    obtain ⟨l, rest, hsplit, hl, hrest⟩ := List.map_eq_cons_iff.mp h
    obtain ⟨r, rfl, hr⟩ := List.map_eq_singleton_iff.mp hrest
    obtain ⟨hplus, hplus', ht⟩ := Text.splitOn_eq_pair_iff.mp hsplit
    exact ⟨l, r, hplus, hplus', ht, hl.symm, hr.symm⟩
  · rintro ⟨l, r, hl, hr, rfl, rfl, rfl⟩
    rw [Text.splitOn_eq_pair_iff.mpr ⟨hl, hr, rfl⟩]
    rfl

/-- The operand for the sum of a base and an offset. -/
def ofSum (inner base offset : Text) : Except LineError Argument :=
  if isBase offset then .error (.malformed (.twoRegisters inner))
  else
    match Value.ofText offset with
    | .error e => .error e
    | .ok v =>
      match offsetBase? base with
      | some o => .ok (.extended o v)
      | none => .error (.malformed (.noRegister inner))

theorem ofIndirect_of_single (h : terms t = [x]) :
    Argument.ofIndirect t =
      match plainBase? x with
      | some o => .ok (.plain o)
      | none => (Value.ofText x).map (.extended .indirectNext) := by
  unfold Argument.ofIndirect
  rw [← terms, h]
  dsimp only
  cases plainBase? x with
  | some o => rfl
  | none => cases Value.ofText x <;> rfl

theorem ofIndirect_of_pair (h : terms t = [x, y]) :
    Argument.ofIndirect t = if isBase x then ofSum t x y else ofSum t y x := by
  have hsum : ∀ inner base offset, (do
      if isBase offset then
        throw (.malformed (.twoRegisters inner))
      let value ← Value.ofText offset
      match offsetBase? base with
      | some operand => return .extended operand value
      | none => throw (.malformed (.noRegister inner))) = ofSum inner base offset := by
    intro inner base offset
    unfold ofSum
    cases isBase offset with
    | true => rfl
    | false =>
      cases Value.ofText offset with
      | error e => rfl
      | ok v => cases offsetBase? base <;> rfl
  unfold Argument.ofIndirect
  rw [← terms, h]
  dsimp only
  cases isBase x with
  | true => exact hsum _ _ _
  | false => exact hsum _ _ _

theorem isBase_of_plainBase? (h : plainBase? x = some o) : isBase x = true := by
  by_contra hbase
  rw [plainBase?_eq_none (by simpa using hbase)] at h
  cases h

theorem isBase_of_offsetBase? (h : offsetBase? x = some o) : isBase x = true := by
  by_contra hbase
  rw [offsetBase?_eq_none (by simpa using hbase)] at h
  cases h

theorem ofSum_eq_ok_iff {inner base offset : Text} : ofSum inner base offset = .ok arg ↔
    ∃ o v, offsetBase? base = some o ∧ isBase offset = false ∧ Value.ofText offset = .ok v ∧
      arg = .extended o v := by
  unfold ofSum
  constructor
  · intro h
    split at h
    · cases h
    · next hoffset =>
      split at h
      · cases h
      · next v hv =>
        split at h
        · next o ho =>
          cases h
          exact ⟨o, v, ho, by simpa using hoffset, hv, rfl⟩
        · cases h
  · rintro ⟨o, v, ho, hoffset, hv, rfl⟩
    rw [hoffset, hv, ho]
    rfl

/-- **What stands between brackets** is accepted if its terms give an operand. -/
theorem ofIndirect_eq_ok_iff : Argument.ofIndirect t = .ok arg ↔ Adds (terms t) arg := by
  constructor
  · intro h
    match hterms : terms t with
    | [x] =>
      rw [ofIndirect_of_single hterms] at h
      cases hx : isBase x with
      | true =>
        obtain ⟨base, hnames⟩ := isBase_iff.mp hx
        rw [plainBase?_eq hnames] at h
        cases h
        exact .pointed (plainBase?_eq hnames)
      | false =>
        rw [plainBase?_eq_none hx] at h
        obtain ⟨v, hv, rfl⟩ := exists_of_except_map_ok h
        exact .cell hx hv
    | [x, y] =>
      rw [ofIndirect_of_pair hterms] at h
      cases hx : isBase x with
      | true =>
        rw [hx, if_pos rfl] at h
        obtain ⟨o, v, ho, hy, hv, rfl⟩ := ofSum_eq_ok_iff.mp h
        exact .baseFirst ho hy hv
      | false =>
        rw [hx, if_neg (by decide)] at h
        obtain ⟨o, v, ho, -, hv, rfl⟩ := ofSum_eq_ok_iff.mp h
        exact .valueFirst hx hv ho
    | [] | _ :: _ :: _ :: _ =>
      unfold Argument.ofIndirect at h
      rw [← terms, hterms] at h
      cases h
  · intro h
    generalize hterms : terms t = ts at h
    cases h with
    | pointed hx => rw [ofIndirect_of_single hterms, hx]
    | cell hx hv =>
      rw [ofIndirect_of_single hterms, plainBase?_eq_none hx, hv]
      rfl
    | baseFirst hx hy hv =>
      rw [ofIndirect_of_pair hterms, if_pos (isBase_of_offsetBase? hx)]
      exact ofSum_eq_ok_iff.mpr ⟨_, _, hx, hy, hv, rfl⟩
    | valueFirst hx hv hy =>
      rw [ofIndirect_of_pair hterms, hx, if_neg (by decide)]
      exact ofSum_eq_ok_iff.mpr ⟨_, _, hy, hx, hv, rfl⟩

/-! ## Operands -/

theorem Argument.ofText_bracket (t : Text) :
    Argument.ofText ('[' :: (t ++ [']'])) = Argument.ofIndirect (Text.trim t) := by
  have hclosed : Text.beforeLast? ']' (t ++ [']']) = some t := Text.beforeLast?_eq_some_iff.mpr rfl
  unfold Argument.ofText
  simp only [hclosed]

theorem Argument.ofText_of_ne {c : Char} {rest : Text} (hc : c ≠ '[') :
    Argument.ofText (c :: rest) =
      match keyword? (c :: rest) with
      | some o => .ok (.plain o)
      | none =>
        match afterPick? (c :: rest) with
        | some offset => (Value.ofText (Text.trim offset)).map (.extended .pick)
        | none => (Value.ofText (c :: rest)).map .ofValue := by
  unfold Argument.ofText
  split
  · next heq => cases heq
  · next heq =>
    cases heq
    exact absurd rfl hc
  · cases keyword? (c :: rest) with
    | some o => rfl
    | none =>
      cases afterPick? (c :: rest) with
      | some offset =>
        change (Value.ofText (Text.trim offset) >>= _) = (Value.ofText (Text.trim offset)).map _
        cases Value.ofText (Text.trim offset) <;> rfl
      | none =>
        change (Value.ofText (c :: rest) >>= _) = (Value.ofText (c :: rest)).map _
        cases Value.ofText (c :: rest) <;> rfl

/-- Registers and keywords have no space in them. -/
theorem keyword?_eq_none_of_space (h : ' ' ∈ t) : keyword? t = none := by
  refine Option.eq_none_iff_forall_ne_some.mpr fun o ho => ?_
  have hupper : ' ' ∈ Text.upper t := List.mem_map.mpr ⟨' ', h, rfl⟩
  obtain ⟨m, ⟨r, hr, -⟩ | hm, -⟩ := of_keyword? ho
  · rw [hr] at hupper
    cases r <;> exact absurd hupper (by decide)
  · have hall : ∀ entry ∈ keywordMeanings, ' ' ∉ entry.1 := by decide
    exact hall _ hm hupper

/-- No value starts like a text in brackets. -/
theorem exists_of_value {v : Value} (hv : Value.ofText t = .ok v) :
    ∃ c rest, t = c :: rest ∧ c ≠ '[' := by
  cases t with
  | nil => cases hv
  | cons c rest =>
    refine ⟨c, rest, rfl, ?_⟩
    rintro rfl
    rw [Value.ofText_of_ne (by decide), literal_ofText_eq_none rfl] at hv
    cases hv

/-- **What an operand gives** is what the grammar says. -/
theorem argument_eq_ok_iff : Argument.ofText t = .ok arg ↔ Gives t arg := by
  constructor
  · intro h
    cases t with
    | nil => cases h
    | cons c rest =>
      by_cases hc : c = '['
      · subst hc
        cases hclosed : Text.beforeLast? ']' rest with
        | none =>
          unfold Argument.ofText at h
          simp only [hclosed] at h
          cases h
        | some inner =>
          obtain rfl := Text.beforeLast?_eq_some_iff.mp hclosed
          rw [Argument.ofText_bracket] at h
          exact .indirect (ofIndirect_eq_ok_iff.mp h)
      · rw [Argument.ofText_of_ne hc] at h
        cases hkeyword : keyword? (c :: rest) with
        | some o =>
          rw [hkeyword] at h
          cases h
          exact .keyword hkeyword
        | none =>
          rw [hkeyword] at h
          cases hpick : afterPick? (c :: rest) with
          | some u =>
            rw [hpick] at h
            obtain ⟨v, hv, rfl⟩ := exists_of_except_map_ok h
            exact .pick hpick hv
          | none =>
            rw [hpick] at h
            obtain ⟨v, hv, rfl⟩ := exists_of_except_map_ok h
            exact .value hkeyword hv
  · intro h
    cases h with
    | keyword h =>
      obtain ⟨c, rest, rfl, hc⟩ := exists_isAlpha_of_isReserved (isReserved_of_keyword? h)
      have hbracket : c ≠ '[' := by
        rintro rfl
        cases hc
      rw [Argument.ofText_of_ne hbracket, h]
    | indirect h => exact (Argument.ofText_bracket _).trans (ofIndirect_eq_ok_iff.mpr h)
    | @pick _ u v h hv =>
      obtain ⟨k, rfl, hk⟩ := afterPick?_eq_some_iff.mp h
      have hkeyword : keyword? (k ++ ' ' :: u) = none := keyword?_eq_none_of_space (by simp)
      cases k with
      | nil => cases hk
      | cons c k =>
        have hbracket : c ≠ '[' := by
          rintro rfl
          cases hk
        rw [List.cons_append, Argument.ofText_of_ne hbracket, ← List.cons_append, hkeyword]
        simp only [h, hv]
        rfl
    | value hkeyword hv =>
      obtain ⟨c, rest, rfl, hc⟩ := exists_of_value hv
      rw [Argument.ofText_of_ne hc, hkeyword]
      simp only [afterPick?_of_value hv, hv]
      rfl

end Assembly

end WordMachine
