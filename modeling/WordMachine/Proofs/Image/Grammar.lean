import Mathlib.Data.List.ReduceOption
import WordMachine.Proofs.Image.RoundTrip
import WordMachine.Proofs.Text.Digits

/-!
# Proofs/Image/Grammar — which texts are images

A word is written in one to four hexadecimal digits, perhaps behind a mark.  The reader also takes a
plus sign for one of the four (`Writes`).  So there are three kinds of lines that are read (`Says`);
a text all of whose lines are such is an image, and of any other text the first line that is not is
complained about.

Main statement: `parse_iff`.
-/

namespace WordMachine

namespace Image

open Numeral (Spells)

/-! ## The grammar -/

/-- The marks that may stand before the digits of a word; the empty one stands for none. -/
def marks : List Text := [[], ['0', 'x'], ['0', 'X']]

/-- The text is the word in hexadecimal digits behind a mark and the sign, where the sign and the
digits together are at most four characters. -/
def Writes (sign t : Text) (w : Word) : Prop :=
  ∃ mark ∈ marks, ∃ digits n, t = mark ++ (sign ++ digits) ∧ (sign ++ digits).length ≤ 4 ∧
    Spells 16 digits n ∧ w = UInt16.ofNat n

/-- The line has no content, or it says the word that its content writes. -/
inductive Says (line : Text) : Option Word → Prop where
  | nothing (h : Text.content line = []) : Says line none
  | bare {w : Word} (h : Writes [] (Text.content line) w) : Says line (some w)
  | plus {w : Word} (h : Writes ['+'] (Text.content line) w) : Says line (some w)

/-- What is wrong with a content that writes no word. -/
def complaint (data : Text) : Complaint :=
  if dropMark data = [] ∨ 4 < (dropMark data).utf8Size then .wrongLength data else .invalidDigit

variable {c : Char} {n : Nat} {w : Word} {sign mark digits data line : Text}

/-! ## Marks -/

theorem ne_of_digit (h : Numeral.Digit 16 c n) : c ≠ 'x' ∧ c ≠ 'X' := by
  have hall : ∀ d : Fin 16, (Nat.digitChar d ≠ 'x' ∧ Nat.digitChar d ≠ 'X') ∧
      (Nat.digitChar d).toUpper ≠ 'x' ∧ (Nat.digitChar d).toUpper ≠ 'X' := by decide
  obtain ⟨hd, rfl | rfl⟩ := h
  · exact (hall ⟨n, hd⟩).1
  · exact (hall ⟨n, hd⟩).2

/-- Digits cannot be taken for the rest of a mark… -/
theorem dropMark_append (hmark : mark ∈ marks) (hsign : sign = [] ∨ sign = ['+'])
    (h : Spells 16 digits n) : dropMark (mark ++ (sign ++ digits)) = sign ++ digits := by
  have hplain : ∀ c ∈ sign ++ digits, c ≠ 'x' ∧ c ≠ 'X' := by
    intro c hc
    rcases List.mem_append.mp hc with hc | hc
    · rcases hsign with rfl | rfl
      · cases hc
      · rw [List.mem_singleton.mp hc]
        decide
    · exact h.forall_mem ne_of_digit c hc
  simp only [marks, List.mem_cons, List.not_mem_nil, or_false] at hmark
  rcases hmark with rfl | rfl | rfl
  · exact dropMark_of_not_mem (fun hx => (hplain _ hx).1 rfl) (fun hX => (hplain _ hX).2 rfl)
  · rfl
  · rfl

/-- …and what is dropped is a mark. -/
theorem exists_mark (data : Text) : ∃ mark ∈ marks, data = mark ++ dropMark data := by
  unfold dropMark
  split
  · exact ⟨['0', 'x'], by decide, rfl⟩
  · exact ⟨['0', 'X'], by decide, rfl⟩
  · exact ⟨[], by decide, rfl⟩

/-! ## Contents -/

theorem utf8Size_signed (hsign : sign = [] ∨ sign = ['+']) (h : Spells 16 digits n) :
    (sign ++ digits).utf8Size = (sign ++ digits).length := by
  rw [Text.utf8Size_append, Text.utf8Size_of_isAlphanum (h.isAlphanum (by decide)),
    List.length_append]
  rcases hsign with rfl | rfl <;> rfl

/-- A content is read for a word just if its digits are, and they are at most four bytes long. -/
theorem word_eq_ok_iff_unsignedValue? : word data = .ok w ↔ (dropMark data).utf8Size ≤ 4 ∧
    ∃ n, Numeral.unsignedValue? 16 Word.count (dropMark data) = some n ∧ w = UInt16.ofNat n := by
  unfold word
  dsimp only
  split
  · next hlength =>
    refine iff_of_false (by simp) ?_
    rintro ⟨hsize, n, hn, -⟩
    rcases hlength with hnil | hlong
    · rw [hnil] at hn
      cases hn
    · omega
  · next hlength =>
    rw [not_or, not_lt] at hlength
    cases Numeral.unsignedValue? 16 Word.count (dropMark data) <;> simp [hlength.2, eq_comm]

theorem word_of_writes (hsign : sign = [] ∨ sign = ['+']) (h : Writes sign data w) :
    word data = .ok w := by
  obtain ⟨mark, hmark, digits, n, rfl, hlength, hspells, rfl⟩ := h
  -- four digits are never too large a number
  have hlimit : n < Word.count := by
    have hdigits : digits.length ≤ 4 := by
      rw [List.length_append] at hlength
      omega
    calc n < 16 ^ digits.length := hspells.lt_pow (by decide)
      _ ≤ 16 ^ 4 := Nat.pow_le_pow_right (by decide) hdigits
  rw [word_eq_ok_iff_unsignedValue?, dropMark_append hmark hsign hspells,
    utf8Size_signed hsign hspells]
  refine ⟨hlength, n, (Numeral.unsignedValue?_eq_some_iff le_rfl).mpr ⟨?_, hlimit⟩, rfl⟩
  rcases hsign with rfl | rfl
  · exact .inl hspells
  · exact .inr ⟨digits, rfl, hspells⟩

theorem writes_of_dropMark (hsign : sign = [] ∨ sign = ['+']) (h : Spells 16 digits n)
    (hdata : dropMark data = sign ++ digits) (hsize : (dropMark data).utf8Size ≤ 4) :
    Writes sign data (UInt16.ofNat n) := by
  obtain ⟨mark, hmark, hcut⟩ := exists_mark data
  rw [hdata] at hcut
  rw [hdata, utf8Size_signed hsign h] at hsize
  exact ⟨mark, hmark, digits, n, hcut, hsize, h, rfl⟩

/-- **A word is read from the contents that write it**, with a plus sign or without. -/
theorem word_eq_ok_iff : word data = .ok w ↔ Writes [] data w ∨ Writes ['+'] data w := by
  constructor
  · intro h
    obtain ⟨hsize, n, hn, rfl⟩ := word_eq_ok_iff_unsignedValue?.mp h
    obtain ⟨hspells | ⟨digits, hdata, hspells⟩, -⟩ :=
      (Numeral.unsignedValue?_eq_some_iff le_rfl).mp hn
    · exact .inl (writes_of_dropMark (.inl rfl) hspells rfl hsize)
    · exact .inr (writes_of_dropMark (.inr rfl) hspells hdata hsize)
  · rintro (h | h)
    · exact word_of_writes (.inl rfl) h
    · exact word_of_writes (.inr rfl) h

/-- **A plus sign is no digit**: a content with one is not written without. -/
theorem Writes.not_bare {w' : Word} (h : Writes ['+'] data w) : ¬ Writes [] data w' := by
  rintro ⟨mark', hmark', digits', n', hdata, -, hspells', -⟩
  obtain ⟨mark, hmark, digits, n, rfl, -, hspells, -⟩ := h
  have hbody : ['+'] ++ digits = [] ++ digits' := by
    rw [← dropMark_append hmark (.inr rfl) hspells, hdata,
      dropMark_append hmark' (.inl rfl) hspells']
  have hplus : '+' ∈ digits' := by
    rw [List.nil_append] at hbody
    exact hbody ▸ List.mem_cons_self
  exact absurd (hspells'.isAlphanum (by decide) '+' hplus) (by decide)

theorem word_eq_error (h : ∀ w, word data ≠ .ok w) : word data = .error (complaint data) := by
  by_cases hlength : dropMark data = [] ∨ 4 < (dropMark data).utf8Size
  · simp [word, complaint, hlength]
  · cases hvalue : Numeral.unsignedValue? 16 Word.count (dropMark data) with
    | none => simp [word, complaint, hlength, hvalue]
    | some n =>
      rw [not_or, not_lt] at hlength
      exact absurd (word_eq_ok_iff_unsignedValue?.mpr ⟨hlength.2, n, hvalue, rfl⟩) (h _)

/-! ## Lines -/

/-- Lines with numbers from any one on. -/
def counted (first : Nat) (lines : List Text) : List (Nat × Text) :=
  (lines.zipIdx first).map fun (line, number) => (number, line)

theorem counted_cons (first : Nat) (line : Text) (lines : List Text) :
    counted first (line :: lines) = (first, line) :: counted (first + 1) lines := rfl

variable {before : List Word} {first : Nat} {lines front back : List Text}

/-- A line that says something adds that to what was read… -/
theorem wordsAfter_of_says {said : Option Word} (h : Says line said) (rest : List (Nat × Text)) :
    wordsAfter before ((first, line) :: rest) = wordsAfter (said.toList ++ before) rest := by
  have hword : ∀ {w}, word (Text.content line) = .ok w →
      wordsAfter before ((first, line) :: rest) = wordsAfter (w :: before) rest := by
    intro w hw
    rw [wordsAfter]
    split
    · next hnil =>
      rw [hnil] at hw
      cases hw
    · rw [hw]
  cases h with
  | nothing h => exact wordsAfter_blank before h first rest
  | bare h => exact hword (word_eq_ok_iff.mpr (.inl h))
  | plus h => exact hword (word_eq_ok_iff.mpr (.inr h))

/-- …and any other ends the reading. -/
theorem wordsAfter_of_not_says (h : ∀ said, ¬ Says line said) (rest : List (Nat × Text)) :
    wordsAfter before ((first, line) :: rest) =
      .error (.parse first (complaint (Text.content line))) := by
  have hword : ∀ w, word (Text.content line) ≠ .ok w := by
    intro w hw
    rcases word_eq_ok_iff.mp hw with hbare | hplus
    · exact h _ (.bare hbare)
    · exact h _ (.plus hplus)
  rw [wordsAfter]
  split
  · next hnil => exact absurd (.nothing hnil) (h none)
  · rw [word_eq_error hword]

/-! ## Whole texts -/

theorem wordsAfter_of_forall₂ {said : List (Option Word)} (h : List.Forall₂ Says lines said) :
    wordsAfter before (counted first lines) = .ok (before.reverse ++ said.reduceOption) := by
  induction h generalizing before first with
  | nil => exact congrArg Except.ok (List.append_nil _).symm
  | @cons line w lines said hline _ ih =>
    rw [counted_cons, wordsAfter_of_says hline, ih]
    cases w <;> simp

theorem wordsAfter_of_first (hfront : ∀ l ∈ front, ∃ said, Says l said)
    (hline : ∀ said, ¬ Says line said) :
    wordsAfter before (counted first (front ++ line :: back)) =
      .error (.parse (front.length + first) (complaint (Text.content line))) := by
  induction front generalizing before first with
  | nil =>
    rw [List.nil_append, counted_cons, wordsAfter_of_not_says hline, List.length_nil, Nat.zero_add]
  | cons l front ih =>
    obtain ⟨said, hsaid⟩ := hfront l List.mem_cons_self
    rw [List.cons_append, counted_cons, wordsAfter_of_says hsaid,
      ih fun l' hl' => hfront l' (List.mem_cons_of_mem l hl'), List.length_cons]
    congr 2
    omega

/-- Every line says something, or there is a first one that does not. -/
theorem forall₂_or_first (lines : List Text) : (∃ said, List.Forall₂ Says lines said) ∨
    ∃ front line back, lines = front ++ line :: back ∧ (∀ l ∈ front, ∃ said, Says l said) ∧
      ∀ said, ¬ Says line said := by
  induction lines with
  | nil => exact .inl ⟨[], .nil⟩
  | cons l lines ih =>
    by_cases hl : ∃ said, Says l said
    · obtain ⟨w, hw⟩ := hl
      rcases ih with ⟨said, hsaid⟩ | ⟨front, line, back, rfl, hfront, hline⟩
      · exact .inl ⟨w :: said, .cons hw hsaid⟩
      · exact .inr ⟨l :: front, line, back, rfl, List.forall_mem_cons.mpr ⟨⟨w, hw⟩, hfront⟩, hline⟩
    · exact .inr ⟨[], l, lines, rfl, by simp, not_exists.mp hl⟩

variable {text : Text}

/-- If every line says something, the text is read… -/
theorem parse_of_forall₂ {said : List (Option Word)}
    (h : List.Forall₂ Says (text.splitOn '\n') said) : parse text = .ok said.reduceOption :=
  wordsAfter_of_forall₂ h

/-- …and else it is refused. -/
theorem parse_of_first (htext : text.splitOn '\n' = front ++ line :: back)
    (hfront : ∀ l ∈ front, ∃ said, Says l said) (hline : ∀ said, ¬ Says line said) :
    parse text = .error (.parse (front.length + 1) (complaint (Text.content line))) := by
  change wordsAfter [] (counted 1 (text.splitOn '\n')) = _
  rw [htext]
  exact wordsAfter_of_first hfront hline

/-- **Which texts are images.**  A text is read just if each of its lines is read by itself, and then
for the words that the lines say, in their order; any other is refused for the first line that says
nothing, by its number.  A line says something if it is blank, or is one to four hexadecimal digits
behind a mark or none, or has a plus sign for the first of the four; the last no line has that is
written without. -/
theorem parse_iff (text : Text) :
    (∀ words, parse text = .ok words ↔
      ∃ said, List.Forall₂ Says (text.splitOn '\n') said ∧ words = said.reduceOption) ∧
    (∀ e, parse text = .error e ↔ ∃ front line back, text.splitOn '\n' = front ++ line :: back ∧
      (∀ l ∈ front, ∃ said, Says l said) ∧ (∀ said, ¬ Says line said) ∧
      e = .parse (front.length + 1) (complaint (Text.content line))) ∧
    ∀ data w w', Writes ['+'] data w → ¬ Writes [] data w' := by
  refine ⟨fun words => ⟨fun h => ?_, ?_⟩, fun e => ⟨fun h => ?_, ?_⟩, fun _ _ _ => Writes.not_bare⟩
  · rcases forall₂_or_first (text.splitOn '\n') with ⟨said, hsaid⟩ | ⟨_, _, _, htext, hfront, hline⟩
    · rw [parse_of_forall₂ hsaid, Except.ok.injEq] at h
      exact ⟨said, hsaid, h.symm⟩
    · rw [parse_of_first htext hfront hline] at h
      cases h
  · rintro ⟨said, hsaid, rfl⟩
    exact parse_of_forall₂ hsaid
  · rcases forall₂_or_first (text.splitOn '\n') with ⟨said, hsaid⟩ | ⟨_, _, _, htext, hfront, hline⟩
    · rw [parse_of_forall₂ hsaid] at h
      cases h
    · rw [parse_of_first htext hfront hline, Except.error.injEq] at h
      exact ⟨_, _, _, htext, hfront, hline, h.symm⟩
  · rintro ⟨front, line, back, htext, hfront, hline, rfl⟩
    exact parse_of_first htext hfront hline

/-- In two lines with both marks, the second has a sign and would be no word without it. -/
theorem parse_iff_signed : parse "0X2c ; 44\n0x+1F".toList = .ok [0x2C, 0x1F] ∧
    ∀ w, ¬ Writes [] "0x+1F".toList w := by
  have hbare : Writes [] "0X2c".toList 0x2C :=
    ⟨['0', 'X'], by decide, ['2', 'c'], 0x2C, rfl, by decide,
      (Numeral.value?_eq_some_iff le_rfl).mp (by decide), rfl⟩
  have hplus : Writes ['+'] "0x+1F".toList 0x1F :=
    ⟨['0', 'x'], by decide, ['1', 'F'], 0x1F, rfl, by decide,
      (Numeral.value?_eq_some_iff le_rfl).mp (by decide), rfl⟩
  have hlines : List.Forall₂ Says ("0X2c ; 44\n0x+1F".toList.splitOn '\n')
      [some 0x2C, some 0x1F] :=
    .cons (.bare hbare) (.cons (.plus hplus) .nil)
  exact ⟨((parse_iff _).1 _).mpr ⟨_, hlines, rfl⟩, fun _ => (parse_iff []).2.2 _ _ _ hplus⟩

end Image

end WordMachine
