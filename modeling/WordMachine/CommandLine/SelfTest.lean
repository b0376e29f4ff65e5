import WordMachine.Computer

/-!
# CommandLine/SelfTest — a few programs with known outcomes
-/

namespace WordMachine

namespace CommandLine

/-- A default computer after it has loaded a source text, pressed keys and run. -/
def ranOn (source : String) (keys : List Word) (cycles : Nat) : Except Computer.Error Computer := do
  let start ← Computer.ofConfig {}
  let act : Computer.Action Unit := do
    let _ ← Computer.loadAssembly source.toList
    keys.forM fun key => discard (Computer.keyDown key)
    Computer.run cycles
  match act start with
  | .ok () c => return c
  | .error e _ => throw e

/-- Whether a computer was reached and its registers are as they should be. -/
def holds (result : Except Computer.Error Computer) (p : Registers → Bool) : Bool :=
  match result with
  | .ok c => p c.regs
  | .error _ => false

/-- The checks with their names, and whether they hold. -/
def checks : List (String × Bool) := [
  ("Label round-trip",
    match Assembly.assemble? ":loop SET A, 1\nADD A, 1\nSET PC, loop".toList with
    | .ok p => p.words.length == 3 && p.words[2]? == some 0
    | .error _ => false),
  ("Addition overflow",
    holds (ranOn "SET A, 0xFFFF\nADD A, 1" [] 2) fun regs => regs.get .a == 0 && regs.ex == 1),
  ("Subtraction underflow",
    holds (ranOn "SET A, 0\nSUB A, 1" [] 2) fun regs =>
      regs.get .a == 0xFFFF && regs.ex == 0xFFFF),
  ("Literal write guard",
    match ranOn "SET 5, A" [] 1 with
    | .error (.fault (.illegalWrite _ _)) => true
    | _ => false),
  ("Stack push/pop",
    holds (ranOn "SET PUSH, 0x1234\nSET B, POP" [] 2) fun regs =>
      regs.get .b == 0x1234 && regs.sp == 0xFFFF),
  ("Undefined label",
    match Assembly.assemble? "SET PC, nowhere".toList with
    | .error (.onLine _ (.undefinedLabel _)) => true
    | _ => false),
  ("Keyboard buffering",
    holds (ranOn "SET A, [0xF010]\nSET B, [0xF010]\nSET C, [0xF010]" [88, 89] 3) fun regs =>
      regs.get .a == 88 && regs.get .b == 89 && regs.get .c == 0)]

end CommandLine

end WordMachine
