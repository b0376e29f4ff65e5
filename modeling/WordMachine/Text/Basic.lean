/-!
# Text/Basic — characters in order, and how a line is taken apart

A `Text` is a list of characters. This module holds the cuts that every line format of the machine
shares: blanks at both ends are dropped (`trim`), a comment is cut off (`upTo`), a line is split at
its first blank (`splitBlank?`), and a list is split at each separator (`List.splitOn`).
-/

namespace WordMachine

/-- Characters in reading order. -/
abbrev Text := List Char

namespace Text

/-- The characters that carry the Unicode property `White_Space`: 25 in all. -/
def isBlank (c : Char) : Bool :=
  let n := c.toNat
  (0x09 ≤ n && n ≤ 0x0D) || n == 0x20 || n == 0x85 || n == 0xA0 || n == 0x1680 ||
    (0x2000 ≤ n && n ≤ 0x200A) || n == 0x2028 || n == 0x2029 || n == 0x202F || n == 0x205F ||
    n == 0x3000

/-- Every character that the core library calls white space is blank. -/
theorem isBlank_of_isWhitespace {c : Char} (h : c.isWhitespace = true) : isBlank c = true := by
  simp only [Char.isWhitespace, Bool.or_eq_true, decide_eq_true_eq] at h
  rcases h with ((rfl | rfl) | rfl) | rfl <;> rfl

def trimStart (t : Text) : Text := t.dropWhile isBlank

def trimEnd (t : Text) : Text := (t.reverse.dropWhile isBlank).reverse

/-- Without the blanks at either end. -/
def trim (t : Text) : Text := trimEnd (trimStart t)

/-- The lines, numbered from 1. A final line end leaves one more, empty, line. -/
def numberedLines (t : Text) : List (Nat × Text) :=
  ((t.splitOn '\n').zipIdx 1).map fun (line, number) => (number, line)

/-- What stands before the first `c`, or everything if there is none. -/
def upTo (c : Char) (t : Text) : Text := t.takeWhile (· != c)

/-- A line without its comment, which runs from the first `;` on, and without the blanks at the ends
of what is left. -/
def content (line : Text) : Text := trim (upTo ';' line)

/-- What stands before and after the first blank; `none` if there is no blank. -/
def splitBlank? (t : Text) : Option (Text × Text) :=
  match t.span (fun c => !isBlank c) with
  | (_, []) => none
  | (before, _ :: after) => some (before, after)

/-- ASCII letters in upper case, all else unchanged. -/
def upper (t : Text) : Text := t.map Char.toUpper

/-- Equal when the case of ASCII letters is ignored. -/
def sameLetters (s t : Text) : Bool := upper s == upper t

/-- The text behind a leading `lead`, if it starts so. -/
def after? : (t lead : Text) → Option Text
  | t, [] => some t
  | [], _ :: _ => none
  | c :: t, l :: lead => if c = l then after? t lead else none

/-- The text before a closing `c`, if it ends so. -/
def beforeLast? (c : Char) (t : Text) : Option Text :=
  if t.getLast? = some c then some t.dropLast else none

/-- Bytes of the UTF-8 encoding. -/
def utf8Size (t : Text) : Nat := t.foldl (fun n c => n + c.utf8Size) 0

end Text

end WordMachine
