import WordMachine.Proofs.Assembly.Value
import WordMachine.Proofs.Text.Digits

/-!
# Proofs/Assembly/Number — the grammar of numbers

A number is written in decimal digits, or in those of another base behind its mark (`Unsigned`),
with a minus sign and blanks in front if it is negative (`Negatable`).  Beside these the assembler
takes one more form of text, in which a sign stands between the mark and the digits (`MarkSigned`).

Main statement: `ofText_eq_number_iff`.
-/

namespace WordMachine

namespace Assembly

open Numeral (Spells SpellsSigned)

/-! ## The grammar -/

/-- The marks that stand before digits which are not decimal, each with its base. -/
def radixMarks : List (Nat × Text) :=
  [(16, ['0', 'x']), (16, ['0', 'X']), (2, ['0', 'b']), (2, ['0', 'B'])]

/-- The text is digits that write the number, with the mark of their base unless it is ten. -/
inductive Unsigned : Text → Int → Prop where
  | decimal {t : Text} {m : Nat} (h : Spells 10 t m) : Unsigned t m
  | marked {base m : Nat} {mark digits : Text} (hmark : (base, mark) ∈ radixMarks)
      (h : Spells base digits m) : Unsigned (mark ++ digits) m

/-- The text is the mark of a base, a sign, and digits that write the number but for the sign. -/
inductive MarkSigned : Text → Int → Prop where
  | plus {base m : Nat} {mark digits : Text} (hmark : (base, mark) ∈ radixMarks)
      (h : Spells base digits m) : MarkSigned (mark ++ '+' :: digits) m
  | minus {base m : Nat} {mark digits : Text} (hmark : (base, mark) ∈ radixMarks)
      (h : Spells base digits m) : MarkSigned (mark ++ '-' :: digits) (-m)

/-- The text has the form `body`, or it does behind a minus sign and blanks, for the number
negated. -/
inductive Negatable (body : Text → Int → Prop) : Text → Int → Prop where
  | plain {t : Text} {n : Int} (h : body t n) : Negatable body t n
  | negative {blanks t : Text} {n : Int} (hblanks : ∀ c ∈ blanks, Text.isBlank c = true)
      (h : body t n) : Negatable body ('-' :: (blanks ++ t)) (-n)

variable {base m : Nat} {n : Int} {mark mark' digits t u : Text}

/-! ## Literals -/

theorem base_le_of_mem (hmark : (base, mark) ∈ radixMarks) : base ≤ 16 := by
  have hall : ∀ entry ∈ radixMarks, entry.1 ≤ 16 := by decide
  exact hall _ hmark

theorem literal_ofText_mark (hmark : (base, mark) ∈ radixMarks) (digits : Text) :
    Literal.ofText (mark ++ digits) = .ofDigits base digits := by
  simp only [radixMarks, List.mem_cons, Prod.mk.injEq, List.not_mem_nil, or_false] at hmark
  rcases hmark with ⟨rfl, rfl⟩ | ⟨rfl, rfl⟩ | ⟨rfl, rfl⟩ | ⟨rfl, rfl⟩ <;> rfl

theorem isDigit_of_spells (h : Spells 10 t m) : ∀ c ∈ t, c.isDigit = true := by
  have hten : ∀ d : Fin 10, (Nat.digitChar d).isDigit = true ∧
      (Nat.digitChar d).toUpper.isDigit = true := by decide
  refine h.forall_mem ?_
  rintro c d ⟨hd, rfl | rfl⟩
  · exact (hten ⟨d, hd⟩).1
  · exact (hten ⟨d, hd⟩).2

/-- Decimal digits have no mark in front. -/
theorem literal_ofText_spells (h : Spells 10 t m) : Literal.ofText t = .ofDigits 10 t := by
  have hdigits := isDigit_of_spells h
  unfold Literal.ofText
  split
  · exact absurd (hdigits 'x' (by simp)) (by decide)
  · exact absurd (hdigits 'X' (by simp)) (by decide)
  · exact absurd (hdigits 'b' (by simp)) (by decide)
  · exact absurd (hdigits 'B' (by simp)) (by decide)
  · rw [if_pos (hdigits _ List.mem_cons_self)]
  · exact absurd rfl h.1

theorem literal_ofText_cases (t : Text) :
    (∃ base mark digits, (base, mark) ∈ radixMarks ∧ t = mark ++ digits) ∨
      Literal.ofText t = .none ∨
      (∃ c rest, t = c :: rest ∧ c.isDigit = true) ∧ Literal.ofText t = .ofDigits 10 t := by
  unfold Literal.ofText
  split
  · exact .inl ⟨16, ['0', 'x'], _, by decide, rfl⟩
  · exact .inl ⟨16, ['0', 'X'], _, by decide, rfl⟩
  · exact .inl ⟨2, ['0', 'b'], _, by decide, rfl⟩
  · exact .inl ⟨2, ['0', 'B'], _, by decide, rfl⟩
  · next c rest _ _ _ _ =>
    split
    · next hc => exact .inr (.inr ⟨⟨c, rest, rfl, hc⟩, rfl⟩)
    · exact .inr (.inl rfl)
  · exact .inr (.inl rfl)

theorem ofDigits_eq_number_iff (hbase : base ≤ 16) : Literal.ofDigits base t = .number n ↔
    SpellsSigned base t n ∧ -(Literal.limit : Int) ≤ n ∧ n < Literal.limit := by
  rw [← Numeral.signedValue?_eq_some_iff hbase, Literal.ofDigits]
  cases Numeral.signedValue? base Literal.limit t <;> simp

/-- Digits that write too large a number are malformed. -/
theorem ofDigits_eq_malformed (hbase : base ≤ 16) (h : Spells base t m) (hm : Literal.limit ≤ m) :
    Literal.ofDigits base t = .malformed := by
  cases hvalue : Numeral.signedValue? base Literal.limit t with
  | none => rw [Literal.ofDigits, hvalue]
  | some n =>
    obtain ⟨hspells, -, hlt⟩ := (Numeral.signedValue?_eq_some_iff hbase).mp hvalue
    obtain ⟨c, rest, rfl, hc⟩ := h.exists_cons hbase
    cases hspells with
    | bare h' =>
      rw [← Numeral.value?_eq_some_iff hbase] at h h'
      rw [h, Option.some.injEq] at h'
      omega
    | plus => cases hc
    | minus => cases hc

/-- An unsigned number is digits in one of the bases… -/
theorem Unsigned.exists_ofDigits (h : Unsigned t n) : ∃ (base m : Nat) (digits : Text),
    base ≤ 16 ∧ Literal.ofText t = .ofDigits base digits ∧ Spells base digits m ∧ n = m := by
  cases h with
  | @decimal _ m h => exact ⟨10, m, t, by decide, literal_ofText_spells h, h, rfl⟩
  | @marked base m mark digits hmark h =>
    exact ⟨base, m, digits, base_le_of_mem hmark, literal_ofText_mark hmark digits, h, rfl⟩

/-- …and a literal is such a number, or one with a sign behind its mark, within the limit. -/
theorem literal_eq_number_iff : Literal.ofText t = .number n ↔
    (Unsigned t n ∨ MarkSigned t n) ∧ -(Literal.limit : Int) ≤ n ∧ n < Literal.limit := by
  constructor
  · intro h
    rcases literal_ofText_cases t with
      ⟨base, mark, digits, hmark, rfl⟩ | hnone | ⟨⟨c, rest, rfl, hc⟩, hten⟩
    · rw [literal_ofText_mark hmark, ofDigits_eq_number_iff (base_le_of_mem hmark)] at h
      obtain ⟨hspells, hlimit⟩ := h
      cases hspells with
      | bare h => exact ⟨.inl (.marked hmark h), hlimit⟩
      | plus h => exact ⟨.inr (.plus hmark h), hlimit⟩
      | minus h => exact ⟨.inr (.minus hmark h), hlimit⟩
    · rw [hnone] at h
      cases h
    · rw [hten, ofDigits_eq_number_iff (by decide)] at h
      obtain ⟨hspells, hlimit⟩ := h
      cases hspells with
      | bare h => exact ⟨.inl (.decimal h), hlimit⟩
      | plus => cases hc
      | minus => cases hc
  · rintro ⟨hunsigned | hsigned, hlimit⟩
    · obtain ⟨base, m, digits, hbase, hread, h, rfl⟩ := hunsigned.exists_ofDigits
      exact hread.trans ((ofDigits_eq_number_iff hbase).mpr ⟨.bare h, hlimit⟩)
    · cases hsigned with
      | plus hmark h =>
        rw [literal_ofText_mark hmark]
        exact (ofDigits_eq_number_iff (base_le_of_mem hmark)).mpr ⟨.plus h, hlimit⟩
      | minus hmark h =>
        rw [literal_ofText_mark hmark]
        exact (ofDigits_eq_number_iff (base_le_of_mem hmark)).mpr ⟨.minus h, hlimit⟩

theorem literal_eq_malformed (h : Unsigned t n) (hn : (Literal.limit : Int) ≤ n) :
    Literal.ofText t = .malformed := by
  obtain ⟨base, m, digits, hbase, hread, hspells, rfl⟩ := h.exists_ofDigits
  exact hread.trans (ofDigits_eq_malformed hbase hspells (by omega))

/-! ## Letter case and blanks -/

theorem isAlphanum_of_mark (hmark : (base, mark) ∈ radixMarks) :
    ∀ c ∈ mark, c.isAlphanum = true := by
  have hall : radixMarks.all (fun entry => entry.2.all Char.isAlphanum) = true := rfl
  exact List.all_eq_true.mp (List.all_eq_true.mp hall _ hmark)

theorem Unsigned.isAlphanum (h : Unsigned t n) : ∀ c ∈ t, c.isAlphanum = true := by
  cases h with
  | decimal h => exact h.isAlphanum (by decide)
  | marked hmark h =>
    intro c hc
    rcases List.mem_append.mp hc with hc | hc
    · exact isAlphanum_of_mark hmark c hc
    · exact h.isAlphanum (base_le_of_mem hmark) c hc

/-- The marks are there in either letter case. -/
theorem mem_radixMarks_of_upper (hmark : (base, mark) ∈ radixMarks)
    (h : Text.upper mark' = Text.upper mark) : (base, mark') ∈ radixMarks := by
  have hforms : ∀ letter : Char, Text.upper mark' = ['0', letter.toUpper] →
      mark' = ['0', letter.toUpper] ∨ mark' = ['0', letter.toLower] := by
    intro letter h
    obtain ⟨zero, rest, rfl, hzero, hrest⟩ := List.map_eq_cons_iff.mp h
    obtain ⟨other, rest, rfl, hother, hnil⟩ := List.map_eq_cons_iff.mp hrest
    obtain rfl := List.map_eq_nil_iff.mp hnil
    obtain rfl := (Text.toUpper_eq_iff rfl).mp hzero
    exact (Text.eq_or_eq_of_toUpper_eq hother).imp (by rintro rfl; rfl) (by rintro rfl; rfl)
  simp only [radixMarks, List.mem_cons, Prod.mk.injEq, List.not_mem_nil, or_false] at hmark
  rcases hmark with ⟨rfl, rfl⟩ | ⟨rfl, rfl⟩ | ⟨rfl, rfl⟩ | ⟨rfl, rfl⟩
  · rcases hforms 'x' h with rfl | rfl <;> decide
  · rcases hforms 'x' h with rfl | rfl <;> decide
  · rcases hforms 'b' h with rfl | rfl <;> decide
  · rcases hforms 'b' h with rfl | rfl <;> decide

theorem exists_mark_of_upper {rest : Text} (hmark : (base, mark) ∈ radixMarks)
    (hu : Text.upper u = Text.upper (mark ++ rest)) : ∃ mark' rest', u = mark' ++ rest' ∧
      (base, mark') ∈ radixMarks ∧ Text.upper rest' = Text.upper rest := by
  rw [Text.upper, Text.upper, List.map_append] at hu
  obtain ⟨mark', rest', rfl, hm, hrest⟩ := List.map_eq_append_iff.mp hu
  exact ⟨mark', rest', rfl, mem_radixMarks_of_upper hmark hm, hrest⟩

theorem Unsigned.of_upper (h : Unsigned t n) (hu : Text.upper u = Text.upper t) : Unsigned u n := by
  cases h with
  | decimal h => exact .decimal (h.of_upper (by decide) hu)
  | marked hmark h =>
    obtain ⟨mark', digits, rfl, hmark', hdigits⟩ := exists_mark_of_upper hmark hu
    exact .marked hmark' (h.of_upper (base_le_of_mem hmark) hdigits)

theorem MarkSigned.of_upper (h : MarkSigned t n) (hu : Text.upper u = Text.upper t) :
    MarkSigned u n := by
  have hsign : ∀ {sign : Char} {digits rest : Text}, sign.isAlpha = false →
      Text.upper rest = Text.upper (sign :: digits) →
        ∃ digits', rest = sign :: digits' ∧ Text.upper digits' = Text.upper digits := by
    intro sign digits rest hletter hrest
    obtain ⟨other, digits', rfl, hother, hdigits⟩ := List.map_eq_cons_iff.mp hrest
    rw [(Text.toUpper_eq_iff hletter).mpr rfl, Text.toUpper_eq_iff hletter] at hother
    exact ⟨digits', hother ▸ rfl, hdigits⟩
  cases h with
  | plus hmark h =>
    obtain ⟨mark', rest, rfl, hmark', hrest⟩ := exists_mark_of_upper hmark hu
    obtain ⟨digits, rfl, hdigits⟩ := hsign rfl hrest
    exact .plus hmark' (h.of_upper (base_le_of_mem hmark) hdigits)
  | minus hmark h =>
    obtain ⟨mark', rest, rfl, hmark', hrest⟩ := exists_mark_of_upper hmark hu
    obtain ⟨digits, rfl, hdigits⟩ := hsign rfl hrest
    exact .minus hmark' (h.of_upper (base_le_of_mem hmark) hdigits)

/-- A literal is the same number in either letter case… -/
theorem literal_of_upper (h : Literal.ofText t = .number n) (hu : Text.upper u = Text.upper t) :
    Literal.ofText u = .number n := by
  obtain ⟨hforms, hlimit⟩ := literal_eq_number_iff.mp h
  exact literal_eq_number_iff.mpr ⟨hforms.imp (·.of_upper hu) (·.of_upper hu), hlimit⟩

/-- …and has no blank in it. -/
theorem isBlank_of_literal (h : Literal.ofText t = .number n) :
    ∀ c ∈ t, Text.isBlank c = false := by
  have hsigned : ∀ {base m : Nat} {mark digits : Text} {sign : Char}, (base, mark) ∈ radixMarks →
      Numeral.Spells base digits m → Text.isBlank sign = false →
        ∀ c ∈ mark ++ sign :: digits, Text.isBlank c = false := by
    intro base m mark digits sign hmark hdigits hsign
    refine List.forall_mem_append.mpr ⟨fun c hc => ?_, List.forall_mem_cons.mpr ⟨hsign, ?_⟩⟩
    · exact Text.isBlank_eq_false_of_isAlphanum (isAlphanum_of_mark hmark c hc)
    · intro c hc
      exact Text.isBlank_eq_false_of_isAlphanum (hdigits.isAlphanum (base_le_of_mem hmark) c hc)
  rcases (literal_eq_number_iff.mp h).1 with hunsigned | hmarked
  · exact fun c hc => Text.isBlank_eq_false_of_isAlphanum (hunsigned.isAlphanum c hc)
  · cases hmarked with
    | plus hmark hdigits => exact hsigned hmark hdigits rfl
    | minus hmark hdigits => exact hsigned hmark hdigits rfl

/-! ## Signs -/

/-- A number has no sign but the one in front… -/
theorem not_mem_tail_of_unsigned {sign : Char} (hsign : sign = '+' ∨ sign = '-')
    (h : Negatable Unsigned t n) : sign ∉ t.tail := by
  have hletter : sign.isAlphanum = false := by rcases hsign with rfl | rfl <;> rfl
  have hblank : Text.isBlank sign = false := by rcases hsign with rfl | rfl <;> rfl
  have hnone : ∀ {t : Text} {n : Int}, Unsigned t n → sign ∉ t := by
    intro t n h hmem
    rw [h.isAlphanum sign hmem] at hletter
    cases hletter
  cases h with
  | plain h => exact fun hmem => hnone h (List.mem_of_mem_tail hmem)
  | negative hblanks h =>
    intro hmem
    rcases List.mem_append.mp hmem with hmem | hmem
    · rw [hblanks sign hmem] at hblank
      cases hblank
    · exact hnone h hmem

/-- …and the other form of text has one further on. -/
theorem exists_mem_tail_of_markSigned (h : Negatable MarkSigned t n) :
    ∃ sign, (sign = '+' ∨ sign = '-') ∧ sign ∈ t.tail := by
  have hmarks : ∀ entry ∈ radixMarks, entry.2 ≠ [] := by decide
  have hsome : ∀ {t : Text} {n : Int}, MarkSigned t n →
      ∃ sign, (sign = '+' ∨ sign = '-') ∧ sign ∈ t.tail := by
    intro t n h
    cases h with
    | plus hmark =>
      refine ⟨'+', .inl rfl, ?_⟩
      rw [List.tail_append_of_ne_nil (hmarks _ hmark)]
      simp
    | minus hmark =>
      refine ⟨'-', .inr rfl, ?_⟩
      rw [List.tail_append_of_ne_nil (hmarks _ hmark)]
      simp
  cases h with
  | plain h => exact hsome h
  | negative hblanks h =>
    obtain ⟨sign, hsign, hmem⟩ := hsome h
    exact ⟨sign, hsign, List.mem_append_right _ (List.mem_of_mem_tail hmem)⟩

/-- The two forms have no text in common. -/
theorem not_unsigned_of_markSigned {n' : Int} (h : Negatable MarkSigned t n) :
    ¬ Negatable Unsigned t n' := by
  obtain ⟨sign, hsign, hmem⟩ := exists_mem_tail_of_markSigned h
  exact fun h' => not_mem_tail_of_unsigned hsign h' hmem

/-! ## Values -/

theorem exists_isDigit_of_ne_none (h : Literal.ofText t ≠ .none) :
    ∃ c rest, t = c :: rest ∧ c.isDigit = true := by
  cases t with
  | nil => exact absurd rfl h
  | cons c rest =>
    refine ⟨c, rest, rfl, by_contra fun hc => h (literal_ofText_eq_none ?_)⟩
    simpa using hc

/-- Blanks before a literal are trimmed away. -/
theorem trimStart_blanks {blanks : Text} (hblanks : ∀ c ∈ blanks, Text.isBlank c = true)
    (h : Literal.ofText t ≠ .none) : Text.trimStart (blanks ++ t) = t := by
  obtain ⟨c, rest, rfl, hc⟩ := exists_isDigit_of_ne_none h
  have hletter : c.isAlphanum = true := by rw [Char.isAlphanum, hc, Bool.or_true]
  rw [Text.trimStart, List.dropWhile_append_of_pos hblanks, List.dropWhile_cons_of_neg]
  simp [Text.isBlank_eq_false_of_isAlphanum hletter]

/-- What writes a number has one of the two forms, perhaps behind a minus sign… -/
theorem negatable_of_writes (h : Writes t n) :
    Negatable Unsigned t n ∨ Negatable MarkSigned t n := by
  cases h with
  | literal h => exact (literal_eq_number_iff.mp h).1.imp .plain .plain
  | @negative t n h =>
    have hblanks : ∀ c ∈ t.takeWhile Text.isBlank, Text.isBlank c = true := fun c hc =>
      List.mem_takeWhile_imp hc
    rw [← List.takeWhile_append_dropWhile (p := Text.isBlank) (l := t)]
    exact (literal_eq_number_iff.mp h).1.imp (.negative hblanks) (.negative hblanks)

/-- …and both forms write numbers, within the limit. -/
theorem writes_of_negatable {body : Text → Int → Prop}
    (hbody : ∀ {t n}, body t n → Unsigned t n ∨ MarkSigned t n) (h : Negatable body t n)
    (hn : n.natAbs < Literal.limit) : Writes t n := by
  cases h with
  | plain h => exact .literal (literal_eq_number_iff.mpr ⟨hbody h, by omega, by omega⟩)
  | @negative blanks t n hblanks h =>
    have hread : Literal.ofText t = .number n :=
      literal_eq_number_iff.mpr ⟨hbody h, by omega, by omega⟩
    refine .negative ?_
    rwa [trimStart_blanks hblanks (by rw [hread]; exact Literal.noConfusion)]

theorem ofText_eq_number_of_writes {w : Word} : Value.ofText t = .ok (.number w) ↔
    ∃ n, Writes t n ∧ -0x8000 ≤ n ∧ n ≤ 0xFFFF ∧ w = UInt16.ofInt n := by
  constructor
  · intro h
    cases reads_of_ofText h (show Value.word? [] (.number w) = some w from rfl) with
    | @number n hn hlo hhi => exact ⟨n, hn, hlo, hhi, rfl⟩
    | label h => cases h
  · rintro ⟨n, hn, hlo, hhi, rfl⟩
    exact (ofText_of_writes hn).trans (ofInt_eq_ok.mpr ⟨⟨hlo, hhi⟩, rfl⟩)

/-- Too large a number is none. -/
theorem ofText_of_large (h : Negatable Unsigned t n) (hn : Literal.limit ≤ n.natAbs) :
    Value.ofText t = .error (.malformed (.invalidNumber t)) := by
  have hfirst : ∀ {t : Text}, Literal.ofText t = .malformed → Literal.ofText t ≠ .none :=
    fun h => by rw [h]; exact Literal.noConfusion
  cases h with
  | plain h =>
    obtain ⟨base, m, -, -, -, -, rfl⟩ := h.exists_ofDigits
    have hread := literal_eq_malformed h (by omega)
    obtain ⟨c, rest, rfl, hc⟩ := exists_isDigit_of_ne_none (hfirst hread)
    have hminus : c ≠ '-' := by
      rintro rfl
      cases hc
    rw [Value.ofText_of_ne hminus, hread]
  | @negative blanks t n hblanks h =>
    obtain ⟨base, m, -, -, -, -, rfl⟩ := h.exists_ofDigits
    have hread := literal_eq_malformed h (by omega)
    rw [Value.ofText, trimStart_blanks hblanks (hfirst hread)]
    simp only [hread]

/-- A word is a number modulo 65536. -/
theorem eq_ofInt_iff {w : Word} : w = UInt16.ofInt n ↔ (w.toNat : Int) = n % 0x10000 := by
  have hw := w.toNat_lt
  rw [← UInt16.toNat_inj, UInt16.ofInt, UInt16.toNat_ofNat']
  omega

/-- **Which texts are numbers, and which.**  A text is taken for a number if it has the form of one,
within the range of words read as signed or as unsigned, and also if it has a sign behind the mark of
its base, in which case it has no form of a number.  A number outside that range is refused as such,
and one beyond all limits as malformed. -/
theorem ofText_eq_number_iff (t : Text) :
    (∀ w, Value.ofText t = .ok (.number w) ↔
      ∃ n, (Negatable Unsigned t n ∨ Negatable MarkSigned t n) ∧ -0x8000 ≤ n ∧ n ≤ 0xFFFF ∧
        (w.toNat : Int) = n % 0x10000) ∧
      (∀ n, Negatable MarkSigned t n → ∀ m, ¬ Negatable Unsigned t m) ∧
      ∀ n, Negatable Unsigned t n → ¬ (-0x8000 ≤ n ∧ n ≤ 0xFFFF) →
        (n.natAbs < Literal.limit → Value.ofText t = .error (.valueOutOfRange n)) ∧
        (Literal.limit ≤ n.natAbs → Value.ofText t = .error (.malformed (.invalidNumber t))) := by
  have hlimit : Literal.limit = 0x8000000000000000 := rfl
  refine ⟨fun w => ?_, fun n h m => not_unsigned_of_markSigned h,
    fun n h hrange => ⟨fun hn => ?_, ofText_of_large h⟩⟩
  · rw [ofText_eq_number_of_writes]
    constructor
    · rintro ⟨n, hn, hlo, hhi, hw⟩
      exact ⟨n, negatable_of_writes hn, hlo, hhi, eq_ofInt_iff.mp hw⟩
    · rintro ⟨n, hform, hlo, hhi, hw⟩
      have hn : n.natAbs < Literal.limit := by omega
      refine ⟨n, ?_, hlo, hhi, eq_ofInt_iff.mpr hw⟩
      rcases hform with h | h
      · exact writes_of_negatable .inl h hn
      · exact writes_of_negatable .inr h hn
  · rw [ofText_of_writes (writes_of_negatable .inl h hn), Value.ofInt, if_neg hrange]

/-- A sign behind the mark, and a number out of range behind blanks. -/
theorem ofText_eq_number_marked :
    Value.ofText "0x-5".toList = .ok (.number 0xFFFB) ∧
      (∀ m, ¬ Negatable Unsigned "0x-5".toList m) ∧
      Value.ofText "- 70000".toList = .error (.valueOutOfRange (-70000)) := by
  have hfive : Spells 16 ['5'] 5 := (Numeral.value?_eq_some_iff (by decide)).mp (by decide)
  have hmark : (16, ['0', 'x']) ∈ radixMarks := by decide
  have hmarked : Negatable MarkSigned "0x-5".toList (-5) := .plain (.minus hmark hfive)
  have hblanks : ∀ c ∈ [' '], Text.isBlank c = true := List.forall_mem_singleton.mpr rfl
  have hlarge : Negatable Unsigned "- 70000".toList (-70000) :=
    .negative hblanks (.decimal ((Numeral.value?_eq_some_iff (by decide)).mp (by decide)))
  exact ⟨((ofText_eq_number_iff _).1 _).mpr
      ⟨-5, .inr hmarked, by decide, by decide, by decide⟩,
    (ofText_eq_number_iff _).2.1 _ hmarked,
    ((ofText_eq_number_iff _).2.2 _ hlarge (by decide)).1 (by decide)⟩

end Assembly

end WordMachine
