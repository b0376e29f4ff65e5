import WordMachine.Text.Numeral

/-!
# Assembly/Error — what can be wrong with a source text

A line is refused for one cause, a `LineError`; the assembly is refused for the first such line, or
because the whole program is too large.
-/

namespace WordMachine

namespace Assembly

/-- How a line departs from the grammar. -/
inductive Complaint where
  | invalidLabelName (name : Text)
  | reservedLabelName (name : Text)
  | noValues
  | operandsAfterNop
  | operandCount (mnemonic : Text)
  | missingOperand
  | missingValue
  | unclosedBracket (operand : Text)
  | twoRegisters (inner : Text)
  | noRegister (inner : Text)
  | badIndirect (inner : Text)
  | invalidNumber (text : Text)
  | invalidOperand (text : Text)
  deriving DecidableEq, Repr

def Complaint.message : Complaint → String
  | invalidLabelName name => s!"invalid label name '{String.ofList name}'"
  | reservedLabelName name =>
    s!"'{String.ofList name}' is a register or operand keyword and cannot be a label"
  | noValues => "DAT requires at least one value"
  | operandsAfterNop => "NOP takes no operands"
  | operandCount mnemonic => s!"{String.ofList mnemonic} takes two operands"
  | missingOperand => "missing operand"
  | missingValue => "missing value"
  | unclosedBracket operand => s!"unclosed bracket in '{String.ofList operand}'"
  | twoRegisters inner => s!"'[{String.ofList inner}]' adds two registers"
  | noRegister inner => s!"'[{String.ofList inner}]' needs a register"
  | badIndirect inner => s!"bad indirect operand '[{String.ofList inner}]'"
  | invalidNumber text => s!"invalid number '{String.ofList text}'"
  | invalidOperand text => s!"invalid operand '{String.ofList text}'"

/-- Why a line cannot be assembled. -/
inductive LineError where
  | malformed (complaint : Complaint)
  | unknownMnemonic (mnemonic : Text)
  /-- The mnemonic's number is too large for the opcode field. -/
  | unsupportedOpcode (mnemonic : Text) (number : Nat)
  | undefinedLabel (label : Text)
  /-- The value, or the address of the label on this line, does not fit a word. -/
  | valueOutOfRange (value : Int)
  deriving DecidableEq, Repr

/-- The kind of error, as it stands in front of the line number. -/
def LineError.heading : LineError → String
  | malformed _ => "syntax error"
  | unknownMnemonic _ => "unknown mnemonic"
  | unsupportedOpcode _ _ => "unsupported opcode"
  | undefinedLabel _ => "undefined label"
  | valueOutOfRange _ => "value out of range"

/-- What is wrong, as it stands after the line number. -/
def LineError.detail : LineError → String
  | malformed complaint => complaint.message
  | unknownMnemonic mnemonic => String.ofList mnemonic
  | unsupportedOpcode mnemonic number =>
    let code := Numeral.hexMarkedString 2 number
    s!"{String.ofList mnemonic} ({code}) does not fit the 4-bit opcode field"
  | undefinedLabel label => String.ofList label
  | valueOutOfRange value => toString value

/-- Why a source text cannot be assembled. Lines are numbered from 1. -/
inductive Error where
  | onLine (number : Nat) (e : LineError)
  | programTooLarge (size : Nat)
  deriving DecidableEq, Repr

def Error.message : Error → String
  | onLine number e => s!"{e.heading} on line {number}: {e.detail}"
  | programTooLarge size => s!"program of {size} words does not fit in memory"

end Assembly

end WordMachine
