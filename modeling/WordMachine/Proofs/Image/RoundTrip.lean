import WordMachine.Image
import WordMachine.Proofs.Text.Numeral

/-!
# Proofs/Image/RoundTrip — an image that was written is read back

What `Image.format` writes has three lines at its head without words, and then a line for each word
(`content_line`, `word_hex4`).  So the lines are read as the words they were written for, however
many there are (`wordsAfter_format`).

Main statement: `parse_format`.
-/

namespace WordMachine

namespace Image

/-! ## One word -/

/-- No digit of a number makes the mark of a hexadecimal number. -/
theorem dropMark_of_not_mem {t : Text} (h : 'x' ∉ t) (h' : 'X' ∉ t) : dropMark t = t := by
  unfold dropMark
  split
  · exact absurd (List.mem_cons_of_mem _ List.mem_cons_self) h
  · exact absurd (List.mem_cons_of_mem _ List.mem_cons_self) h'
  · rfl

/-- **The digits of a word are the word.** -/
theorem word_hex4 (w : Word) : word (Numeral.hex4 w) = .ok w := by
  have hmark : dropMark (Numeral.hex4 w) = Numeral.hex4 w :=
    dropMark_of_not_mem (Numeral.not_mem_hexPadded (by decide) _ _)
      (Numeral.not_mem_hexPadded (by decide) _ _)
  have hsize : (Numeral.hex4 w).utf8Size = 4 := by
    rw [Text.utf8Size_of_isAlphanum fun _ => Numeral.isAlphanum_of_mem_hex4, Numeral.length_hex4]
  have hvalue : Numeral.unsignedValue? 16 Word.count (Numeral.hex4 w) = some w.toNat :=
    Numeral.unsignedValue?_of_isAlphanum (fun _ => Numeral.isAlphanum_of_mem_hex4)
      (Numeral.value?_hex4 w) w.toNat_lt_count
  simp [word, hmark, hsize, hvalue, Numeral.hex4_ne_nil]

/-! ## Lines -/

/-- The line of a word, without the end of the line. -/
def written (w : Word) (addr : Nat) : Text :=
  Numeral.hex4 w ++ ' ' :: ';' :: ' ' :: Numeral.hexPadded 4 addr

theorem line_eq (w : Word) (addr : Nat) : line w addr = written w addr ++ ['\n'] := by
  simp [line, written]

theorem newline_not_mem_written (w : Word) (addr : Nat) : '\n' ∉ written w addr := by
  have hdigits := Numeral.not_mem_hexPadded (c := '\n') (by decide) 4
  simp [written, Numeral.hex4, hdigits]

/-- **The address is a comment**, and so the digits are all that a line says. -/
theorem content_line (w : Word) (addr : Nat) :
    Text.content (written w addr) = Numeral.hex4 w := by
  have hcut : Text.upTo ';' (written w addr) = Numeral.hex4 w ++ [' '] := by
    have hdigits := Numeral.not_mem_hexPadded (c := ';') (by decide) 4 w.toNat
    have hfront : ∀ c ∈ Numeral.hex4 w, (c != ';') = true := by
      intro c hc
      rw [bne_iff_ne]
      rintro rfl
      exact hdigits hc
    rw [Text.upTo, written, List.takeWhile_append_of_pos hfront]
    rfl
  have hsnug : Text.Snug (Numeral.hex4 w) :=
    Text.snug_of_forall (Numeral.hex4_ne_nil w) fun c hc =>
      Text.isBlank_eq_false_of_isAlphanum (Numeral.isAlphanum_of_mem_hex4 hc)
  rw [Text.content, hcut, hsnug.trim_concat (by decide)]

theorem content_comment (t : Text) : Text.content (';' :: t) = [] := rfl

/-- The lines of a text, numbered from any number on. -/
def numbered (first : Nat) (t : Text) : List (Nat × Text) :=
  ((t.splitOn '\n').zipIdx first).map fun (line, number) => (number, line)

theorem numbered_append {t : Text} (ht : '\n' ∉ t) (first : Nat) (rest : Text) :
    numbered first (t ++ '\n' :: rest) = (first, t) :: numbered (first + 1) rest := by
  rw [numbered, List.splitOn_append_cons_self_of_not_mem ht]
  rfl

variable (before : List Word)

/-- A line without a word is skipped… -/
theorem wordsAfter_blank {t : Text} (ht : Text.content t = []) (first : Nat)
    (rest : List (Nat × Text)) : wordsAfter before ((first, t) :: rest) = wordsAfter before rest := by
  rw [wordsAfter, ht]

/-- …and any other is read as its word. -/
theorem wordsAfter_written (w : Word) (addr first : Nat) (rest : List (Nat × Text)) :
    wordsAfter before ((first, written w addr) :: rest) = wordsAfter (w :: before) rest := by
  rw [wordsAfter, content_line]
  split
  · next hnil => exact absurd hnil (Numeral.hex4_ne_nil w)
  · rw [word_hex4]

theorem wordsAfter_lines (words : List Word) (addr first : Nat) :
    wordsAfter before
        (numbered first ((words.zipIdx addr).flatMap fun (w, addr) => line w addr)) =
      .ok (before.reverse ++ words) := by
  induction words generalizing before addr first with
  | nil => exact congrArg Except.ok (List.append_nil _).symm
  | cons w words ih =>
    rw [List.zipIdx_cons, List.flatMap_cons]
    dsimp only
    rw [line_eq, List.append_assoc, List.singleton_append,
      numbered_append (newline_not_mem_written w addr), wordsAfter_written, ih, List.reverse_cons,
      List.append_assoc, List.singleton_append]

/-! ## The whole image -/

/-- The two lines at the head of an image that are not empty. -/
def title : Text := ';' :: " dcpu program image".toList

@[inherit_doc title]
def sizeLine (size : Nat) : Text := ';' :: ' ' :: (Nat.toDigits 10 size ++ " words".toList)

theorem header_eq (size : Nat) :
    header size = title ++ '\n' :: (sizeLine size ++ ['\n', '\n']) := by
  have hfront : "; dcpu program image\n; ".toList = title ++ ['\n', ';', ' '] := by simp [title]
  have hback : " words\n\n".toList = " words".toList ++ ['\n', '\n'] := by simp
  calc header size
      = title ++ ['\n', ';', ' '] ++ Nat.toDigits 10 size ++ (" words".toList ++ ['\n', '\n']) :=
        congrArg₂ (fun front back => front ++ Nat.toDigits 10 size ++ back) hfront hback
    _ = title ++ '\n' :: (sizeLine size ++ ['\n', '\n']) := by
        simp only [sizeLine, List.append_assoc, List.cons_append, List.nil_append]

theorem newline_not_mem_title : '\n' ∉ title := by simp [title]

theorem newline_not_mem_sizeLine (size : Nat) : '\n' ∉ sizeLine size := by
  have hdigits : '\n' ∉ Nat.toDigits 10 size := fun hc =>
    absurd (Numeral.isDigit_of_mem_toDigits hc) (by decide)
  simp [sizeLine, hdigits]

/-- **The lines of an image are read as its words.** -/
theorem wordsAfter_format (words : List Word) :
    wordsAfter before (format words).numberedLines = .ok (before.reverse ++ words) := by
  have hformat : format words = title ++ '\n' :: (sizeLine words.length ++ '\n' :: ([] ++ '\n' ::
      words.zipIdx.flatMap fun (w, addr) => line w addr)) := by
    rw [format, header_eq]
    simp only [List.append_assoc, List.cons_append, List.nil_append]
  change wordsAfter before (numbered 1 (format words)) = _
  rw [hformat, numbered_append newline_not_mem_title,
    wordsAfter_blank (t := title) _ (content_comment _),
    numbered_append (newline_not_mem_sizeLine _),
    wordsAfter_blank (t := sizeLine _) _ (content_comment _),
    numbered_append List.not_mem_nil, wordsAfter_blank _ rfl, wordsAfter_lines]

/-- **An image that was written is read back**, and all of it. -/
theorem parse_format (words : List Word) : parse (format words) = .ok words :=
  wordsAfter_format [] words

end Image

end WordMachine
