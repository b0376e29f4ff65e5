import WordMachine.Assembly.Error
import WordMachine.Register

/-!
# Assembly/Value — numbers and label names in a source text

A value stands for one word of the program. It is a number, written in hexadecimal after `0x`, in
binary after `0b` or in decimal, with an optional minus sign in front; or it is the name of a label.
-/

namespace WordMachine

namespace Assembly

/-- A word of the program, known now or once all labels have addresses. -/
inductive Value where
  | number (w : Word)
  | label (name : Text)
  deriving DecidableEq, Repr

/-- Whether a label name may start with this character. -/
def isNameStart (c : Char) : Bool := c.isAlpha || c == '_' || c == '.'

/-- Whether a label name may go on with this character. -/
def isNameRest (c : Char) : Bool := c.isAlphanum || c == '_' || c == '.'

def isLabelName : Text → Bool
  | [] => false
  | c :: rest => isNameStart c && rest.all isNameRest

/-- Operands with a name of their own, registers apart. -/
def keywords : List Text := [
  ['S', 'P'], ['P', 'C'], ['E', 'X'], ['P', 'U', 'S', 'H'], ['P', 'O', 'P'],
  ['P', 'E', 'E', 'K'], ['P', 'I', 'C', 'K']]

/-- Whether an operand would be taken for something else before it is taken for a label. -/
def isReserved (name : Text) : Bool :=
  (Register.ofText? name).isSome || keywords.any fun keyword => Text.sameLetters name keyword

/-- How a text without its minus sign reads as a number. -/
inductive Literal where
  /-- It does not start like one. -/
  | none
  /-- It starts like one and is none, or is one of more than 63 bits. -/
  | malformed
  | number (n : Int)
  deriving DecidableEq, Repr

/-- Literals have 63 bits at most. -/
def Literal.limit : Nat := 0x8000000000000000

def Literal.ofDigits (base : Nat) (digits : Text) : Literal :=
  match Numeral.signedValue? base limit digits with
  | .none => .malformed
  | some n => .number n

def Literal.ofText (t : Text) : Literal :=
  match t with
  | '0' :: 'x' :: digits | '0' :: 'X' :: digits => .ofDigits 16 digits
  | '0' :: 'b' :: digits | '0' :: 'B' :: digits => .ofDigits 2 digits
  | c :: _ => if c.isDigit then .ofDigits 10 t else .none
  | [] => .none

/-- A number modulo 65536, if it lies between the least signed and the greatest unsigned word. -/
def Value.ofInt (n : Int) : Except LineError Value :=
  if -0x8000 ≤ n ∧ n ≤ 0xFFFF then .ok (.number (UInt16.ofInt n)) else .error (.valueOutOfRange n)

/-- The value that a trimmed text denotes. -/
def Value.ofText (t : Text) : Except LineError Value :=
  match t with
  | [] => .error (.malformed .missingValue)
  | '-' :: rest =>
    match Literal.ofText (Text.trimStart rest) with
    | .number n => Value.ofInt (-n)
    | .malformed => .error (.malformed (.invalidNumber t))
    | .none => .error (.malformed (.invalidOperand t))
  | _ =>
    match Literal.ofText t with
    | .number n => Value.ofInt n
    | .malformed => .error (.malformed (.invalidNumber t))
    | .none =>
      if isLabelName t then .ok (.label t) else .error (.malformed (.invalidOperand t))

end Assembly

end WordMachine
