import WordMachine.Text.Numeral

/-!
# Json/Token — JSON text cut into tokens

The machine leaves the reading of JSON to a third-party library that is no part of its source. What
is accepted here, and what is refused, follows the behaviour of that library.

`tokens?` cuts a text into tokens and refuses what is none. `skipValue?` takes one whole value off
the front of a row of tokens, however deep it is nested, and says what is left.

A string can be written with escapes that name halves of a surrogate pair. Such a string is a token
even where a half stands alone; it has no text then.
-/

namespace WordMachine

namespace Json

inductive Token where
  | openObject
  | closeObject
  | openArray
  | closeArray
  | colon
  | comma
  /-- A string, and its text if it has one. -/
  | string (text : Option Text)
  /-- A number written with digits alone. -/
  | natural (n : Nat)
  /-- A number with a sign, a fraction or an exponent. -/
  | otherNumber
  /-- One of `true`, `false` and `null`. -/
  | literal
  deriving DecidableEq, Repr

/-- A piece of a string: a character, or a unit of UTF-16 written as an escape. -/
inductive Piece where
  | char (c : Char)
  | unit (value : Nat)
  deriving DecidableEq, Repr

/-- Whether a unit is the first half of a surrogate pair. -/
def isHighHalf (unit : Nat) : Bool := 0xD800 ≤ unit && unit < 0xDC00

/-- Whether a unit is the second half of a surrogate pair. -/
def isLowHalf (unit : Nat) : Bool := 0xDC00 ≤ unit && unit < 0xE000

/-- The text of the pieces of a string, put behind `before` in reverse; `none` if a half of a
surrogate pair stands alone. -/
def joinAfter (before : Text) : List Piece → Option Text
  | [] => some before.reverse
  | .char c :: rest => joinAfter (c :: before) rest
  | .unit high :: .unit low :: rest =>
    if isHighHalf high then
      if isLowHalf low then
        joinAfter (Char.ofNat (0x10000 + (high - 0xD800) * 0x400 + (low - 0xDC00)) :: before) rest
      else none
    else if isLowHalf high then none
    else joinAfter (Char.ofNat high :: before) (.unit low :: rest)
  | .unit unit :: rest =>
    if isHighHalf unit || isLowHalf unit then none
    else joinAfter (Char.ofNat unit :: before) rest

/-- The character that an escape of one letter stands for. -/
def escaped? : Char → Option Char
  | '"' => some '"'
  | '\\' => some '\\'
  | '/' => some '/'
  | 'b' => some '\x08'
  | 'f' => some '\x0c'
  | 'n' => some '\n'
  | 'r' => some '\r'
  | 't' => some '\t'
  | _ => none

/-- The pieces of a string whose opening quote has been read, put behind `before` in reverse, and
what follows the closing quote. -/
def piecesAfter (before : List Piece) : Text → Option (List Piece × Text)
  | [] => none
  | '"' :: rest => some (before.reverse, rest)
  | '\\' :: 'u' :: a :: b :: c :: d :: rest =>
    match Numeral.value? 16 [a, b, c, d] with
    | some unit => piecesAfter (.unit unit :: before) rest
    | none => none
  | '\\' :: letter :: rest =>
    match escaped? letter with
    | some c => piecesAfter (.char c :: before) rest
    | none => none
  | c :: rest => if c.toNat < 0x20 then none else piecesAfter (.char c :: before) rest

/-- One or more digits at the front, and what follows them. -/
def digits? (t : Text) : Option (Text × Text) :=
  match t.span Char.isDigit with
  | ([], _) => none
  | (digits, rest) => some (digits, rest)

/-- What follows the whole part of a number, if it is well formed. A zero is not followed by
digits. -/
def whole? (t : Text) : Option (Text × Text) :=
  match t with
  | '0' :: rest => some (['0'], rest)
  | _ => digits? t

/-- What follows the exponent of a number, if it has one. -/
def afterExponent? (t : Text) : Option Text :=
  match t with
  | c :: rest =>
    if c = 'e' ∨ c = 'E' then
      match rest with
      | '+' :: rest | '-' :: rest => (digits? rest).map (·.2)
      | _ => (digits? rest).map (·.2)
    else some t
  | [] => some []

/-- What follows the fraction of a number, if it has one. -/
def afterFraction? (t : Text) : Option Text :=
  match t with
  | '.' :: rest => (digits? rest).map (·.2)
  | _ => some t

/-- The number at the front, and what follows it. -/
def number? (t : Text) : Option (Token × Text) := do
  let unsigned := (t.after? ['-']).getD t
  let (whole, rest) ← whole? unsigned
  let after ← afterExponent? (← afterFraction? rest)
  if t.head? ≠ some '-' ∧ after.length = rest.length then
    return (.natural (← Numeral.value? 10 whole), after)
  else
    return (.otherNumber, after)

/-- The token at the front of a text that does not start with white space, and what follows it. -/
def token? (t : Text) : Option (Token × Text) :=
  match t with
  | '\x7b' :: rest => some (.openObject, rest)
  | '\x7d' :: rest => some (.closeObject, rest)
  | '[' :: rest => some (.openArray, rest)
  | ']' :: rest => some (.closeArray, rest)
  | ':' :: rest => some (.colon, rest)
  | ',' :: rest => some (.comma, rest)
  | '"' :: rest => (piecesAfter [] rest).map fun (pieces, rest) =>
    (.string (joinAfter [] pieces), rest)
  | 't' :: 'r' :: 'u' :: 'e' :: rest => some (.literal, rest)
  | 'f' :: 'a' :: 'l' :: 's' :: 'e' :: rest => some (.literal, rest)
  | 'n' :: 'u' :: 'l' :: 'l' :: rest => some (.literal, rest)
  | _ => number? t

/-- The four characters that may stand between tokens. -/
def isSpace (c : Char) : Bool := c == ' ' || c == '\t' || c == '\n' || c == '\r'

/-- The tokens of a text, put behind `before` in reverse. Every token takes a character, so the
text's length is fuel enough. -/
def tokensAfter (before : List Token) : (fuel : Nat) → Text → Option (List Token)
  | 0, t => if t.all isSpace then some before.reverse else none
  | fuel + 1, t =>
    match t.dropWhile isSpace with
    | [] => some before.reverse
    | t =>
      match token? t with
      | none => none
      | some (token, rest) => tokensAfter (token :: before) fuel rest

/-- The tokens of a text, or `none` if a part of it is no token. -/
def tokens? (t : Text) : Option (List Token) := tokensAfter [] t.length t

/-! ## Skipping a value -/

/-- A bracket that is open. -/
inductive Frame where
  | array
  | object
  deriving DecidableEq, Repr

/-- What the next token must be. -/
inductive Expected where
  | value
  /-- A value, or the end of an array. -/
  | firstItem
  | key
  /-- A key, or the end of an object. -/
  | firstKey
  | colon
  /-- A comma, or the end of the innermost bracket. -/
  | separator
  deriving DecidableEq, Repr

/-- Take tokens until all brackets are closed. -/
def skip? (expected : Expected) (frames : List Frame) : List Token → Option (List Token)
  | [] => none
  | token :: rest =>
    let closed (frames : List Frame) : Option (List Token) :=
      match frames with
      | [] => some rest
      | _ => skip? .separator frames rest
    match expected, token, frames with
    | .firstItem, .closeArray, .array :: frames => closed frames
    | .firstKey, .closeObject, .object :: frames => closed frames
    | .value, .openArray, _ | .firstItem, .openArray, _ => skip? .firstItem (.array :: frames) rest
    | .value, .openObject, _ | .firstItem, .openObject, _ => skip? .firstKey (.object :: frames) rest
    | .value, .string _, _ | .value, .natural _, _ | .value, .otherNumber, _ | .value, .literal, _
    | .firstItem, .string _, _ | .firstItem, .natural _, _ | .firstItem, .otherNumber, _
    | .firstItem, .literal, _ => closed frames
    | .key, .string _, _ | .firstKey, .string _, _ => skip? .colon frames rest
    | .colon, .colon, _ => skip? .value frames rest
    | .separator, .comma, .array :: _ => skip? .value frames rest
    | .separator, .comma, .object :: _ => skip? .key frames rest
    | .separator, .closeArray, .array :: frames => closed frames
    | .separator, .closeObject, .object :: frames => closed frames
    | _, _, _ => none

/-- What follows the value at the front. -/
def skipValue? (tokens : List Token) : Option (List Token) := skip? .value [] tokens

/-- Skipping takes at least one token. -/
theorem length_lt_of_skip? {expected : Expected} {frames : List Frame} {tokens rest : List Token}
    (h : skip? expected frames tokens = some rest) : rest.length < tokens.length := by
  induction tokens generalizing expected frames with
  | nil => simp [skip?] at h
  | cons token tokens ih =>
    have step {e : Expected} {f : List Frame} (h : skip? e f tokens = some rest) :
        rest.length < (token :: tokens).length := by
      have := ih h
      simp only [List.length_cons]
      omega
    have closed {f : List Frame} (h : (match f with
        | [] => some tokens
        | _ => skip? .separator f tokens) = some rest) :
        rest.length < (token :: tokens).length := by
      split at h
      · obtain rfl := Option.some.inj h
        simp
      · exact step h
    simp only [skip?] at h
    split at h
    all_goals first
      | exact step h
      | exact closed h
      | simp at h

end Json

end WordMachine
