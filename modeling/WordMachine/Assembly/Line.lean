import WordMachine.Assembly.Statement

/-!
# Assembly/Line — reading one source line

    ; a comment
    :loop                    a label for the next address
        SET A, 0x30          a register and a number
        ADD [B + 2], 1       the cell at B + 2
        SET PUSH, A          PUSH as destination, POP as source
        SET PC, loop         a label stands for its address
        DAT 1, 2, loop       plain words

Mnemonics, registers and operand keywords are read in either letter case, label names are not.
-/

namespace WordMachine

namespace Assembly

/-- Whether a term is one that an offset can be added to. -/
def isBase (term : Text) : Bool :=
  (Register.ofText? term).isSome || Text.sameLetters term ['S', 'P']

/-- The operand for a base without an offset. -/
def plainBase? (base : Text) : Option Operand :=
  match Register.ofText? base with
  | some r => some (.indirect r)
  | none => if Text.sameLetters base ['S', 'P'] then some .peek else none

/-- The operand for a base with an offset. -/
def offsetBase? (base : Text) : Option Operand :=
  match Register.ofText? base with
  | some r => some (.indirectOffset r)
  | none => if Text.sameLetters base ['S', 'P'] then some .pick else none

/-- The operand that stands between brackets. -/
def Argument.ofIndirect (inner : Text) : Except LineError Argument := do
  match (inner.splitOn '+').map Text.trim with
  | [term] =>
    match plainBase? term with
    | some operand => return .plain operand
    | none => return .extended .indirectNext (← Value.ofText term)
  | [left, right] =>
    let (base, offset) := if isBase left then (left, right) else (right, left)
    if isBase offset then
      throw (.malformed (.twoRegisters inner))
    let value ← Value.ofText offset
    match offsetBase? base with
    | some operand => return .extended operand value
    | none => throw (.malformed (.noRegister inner))
  | _ => throw (.malformed (.badIndirect inner))

/-- An operand that is a single word of the language. -/
def keyword? (t : Text) : Option Operand :=
  match Register.ofText? t with
  | some r => some (.register r)
  | none =>
    match Text.upper t with
    | ['P', 'U', 'S', 'H'] | ['P', 'O', 'P'] => some .stack
    | ['P', 'E', 'E', 'K'] => some .peek
    | ['S', 'P'] => some .sp
    | ['P', 'C'] => some .pc
    | ['E', 'X'] => some .ex
    | _ => none

/-- What follows the keyword PICK and a space. -/
def afterPick? (t : Text) : Option Text :=
  match t with
  | p :: i :: c :: k :: ' ' :: offset =>
    if Text.sameLetters [p, i, c, k] ['P', 'I', 'C', 'K'] then some offset else none
  | _ => none

/-- The operand for a value by itself: a small number goes into the code, and all else, a label
always, into an extra word. -/
def Argument.ofValue : Value → Argument
  | .number w => if h : w.toNat < 32 then .plain (.inline ⟨w.toNat, h⟩)
    else .extended .nextLiteral (.number w)
  | .label name => .extended .nextLiteral (.label name)

/-- The operand that a trimmed text denotes. -/
def Argument.ofText (t : Text) : Except LineError Argument := do
  match t with
  | [] => throw (.malformed .missingOperand)
  | '[' :: rest =>
    match Text.beforeLast? ']' rest with
    | none => throw (.malformed (.unclosedBracket t))
    | some inner => Argument.ofIndirect (Text.trim inner)
  | _ =>
    match keyword? t with
    | some operand => return .plain operand
    | none =>
      match afterPick? t with
      | some offset => return .extended .pick (← Value.ofText (Text.trim offset))
      | none => return .ofValue (← Value.ofText t)

/-- The label definition whose text follows the colon. -/
def Statement.ofLabel (t : Text) : Except LineError Statement :=
  let (name, trailing) := (Text.splitBlank? t).getD (t, [])
  if !isLabelName name then .error (.malformed (.invalidLabelName name))
  else if isReserved name then .error (.malformed (.reservedLabelName name))
  else .ok (.label name (Text.trim trailing))

/-- The parts of an operand list. -/
def parts (t : Text) : List Text := (t.splitOn ',').map Text.trim

/-- The statement of a mnemonic, in upper case, and the trimmed text after it. -/
def Statement.ofMnemonic (mnemonic operands : Text) : Except LineError Statement := do
  if mnemonic = ['D', 'A', 'T'] then
    if operands = [] then
      throw (.malformed .noValues)
    return .data (← (parts operands).mapM Value.ofText)
  else if mnemonic = Opcode.nopMnemonic then
    if operands ≠ [] then
      throw (.malformed .operandsAfterNop)
    return .instruction Opcode.nop.number (.plain (.register .a)) (.plain (.register .a))
  else
    match Opcode.numberOf? mnemonic with
    | none => throw (.unknownMnemonic mnemonic)
    | some number =>
      if h : number < 16 then
        match parts operands with
        | [a, b] => return .instruction ⟨number, h⟩ (← Argument.ofText a) (← Argument.ofText b)
        | _ => throw (.malformed (.operandCount mnemonic))
      else
        throw (.unsupportedOpcode mnemonic number)

/-- The statement of a source line; `none` if it is blank but for a comment. -/
def Statement.ofLine? (line : Text) : Except LineError (Option Statement) :=
  match Text.content line with
  | [] => .ok none
  | ':' :: rest => (Statement.ofLabel rest).map some
  | t =>
    let (mnemonic, operands) := (Text.splitBlank? t).getD (t, [])
    (Statement.ofMnemonic (Text.upper mnemonic) (Text.trim operands)).map some

end Assembly

end WordMachine
