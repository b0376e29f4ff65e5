import WordMachine.Text.Numeral
import WordMachine.Word

/-!
# Image — programs as lines of hexadecimal words

An image has one word on a line, in up to four hexadecimal digits, with an optional `0x` in front.
Comments and blank lines are skipped. `format` writes an image that `parse` reads.
-/

namespace WordMachine

namespace Image

/-- Why a line is no word. -/
inductive Complaint where
  /-- No digits, or more than four bytes of them. -/
  | wrongLength (data : Text)
  | invalidDigit
  deriving DecidableEq, Repr

def Complaint.message : Complaint → String
  | wrongLength data => s!"expected up to 4 hex digits, found '{String.ofList data}'"
  | invalidDigit => "invalid digit found in string"

/-- Why an image cannot be read or written. Lines are numbered from 1. -/
inductive Error where
  /-- The file could not be read or written, for the reason the system gives. -/
  | io (reason : String)
  | parse (line : Nat) (complaint : Complaint)
  deriving DecidableEq, Repr

def Error.message : Error → String
  | io reason => s!"I/O error: {reason}"
  | parse line complaint => s!"parse error on line {line}: {complaint.message}"

/-- A text without a leading `0x` or `0X`. -/
def dropMark : Text → Text
  | '0' :: 'x' :: digits | '0' :: 'X' :: digits => digits
  | digits => digits

/-- The word of a line that is not blank. -/
def word (data : Text) : Except Complaint Word :=
  let digits := dropMark data
  if digits = [] ∨ 4 < digits.utf8Size then .error (.wrongLength data)
  else
    match Numeral.unsignedValue? 16 Word.count digits with
    | some n => .ok (UInt16.ofNat n)
    | none => .error .invalidDigit

/-- The words of numbered lines, put behind `before` in reverse. -/
def wordsAfter (before : List Word) : List (Nat × Text) → Except Error (List Word)
  | [] => .ok before.reverse
  | (number, line) :: rest =>
    match Text.content line with
    | [] => wordsAfter before rest
    | data =>
      match word data with
      | .ok w => wordsAfter (w :: before) rest
      | .error complaint => .error (.parse number complaint)

/-- The words of an image. -/
def parse (text : Text) : Except Error (List Word) := wordsAfter [] text.numberedLines

/-- What stands at the head of an image of so many words. -/
def header (size : Nat) : Text :=
  "; dcpu program image\n; ".toList ++ Nat.toDigits 10 size ++ " words\n\n".toList

/-- The line of a word, with its address as a comment. -/
def line (w : Word) (addr : Nat) : Text :=
  Numeral.hex4 w ++ [' ', ';', ' '] ++ Numeral.hexPadded 4 addr ++ ['\n']

/-- The image of a row of words. -/
def format (words : List Word) : Text :=
  header words.length ++ words.zipIdx.flatMap fun (w, addr) => line w addr

end Image

end WordMachine
