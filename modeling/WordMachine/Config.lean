import WordMachine.Json.Printer
import WordMachine.Json.Token
import WordMachine.Word

/-!
# Config — the make-up of a machine, and its JSON text

A configuration is a JSON object in which every field may be left out and unknown fields are
skipped, or an array of the fields' values in order of which the tail may be left out. Values are
whole numbers, written with digits alone, that fit the field. `ofJson` reads such a text and refuses
a memory of no words or of more than there are addresses; `toJson` writes one.

The fields, what they are when left out, and `validate` are the machine's own. How an object or an
array is taken for a configuration (`ofMembers`, `ofItems`) follows the behaviour of a third-party
library that is no part of its source.
-/

namespace WordMachine

/-- The make-up of a machine. -/
structure Config where
  /-- Memory cells. -/
  memoryWords : UInt64 := 0x10000
  /-- Where the clock's registers lie. -/
  clockBase : Word := 0xF000
  /-- Where the keyboard's registers lie. -/
  keyboardBase : Word := 0xF010
  /-- Where the display's registers lie. -/
  displayBase : Word := 0xF020
  /-- The clock's rate at the start, in hertz. -/
  clockRate : Word := 60
  /-- Instructions between two ticks of the devices. -/
  cyclesPerFrame : UInt64 := 1000
  deriving DecidableEq, Repr

namespace Config

/-- Why a configuration cannot be used. -/
inductive Error where
  /-- The file could not be read, for the reason the system gives. -/
  | io (reason : String)
  /-- The text is no configuration. -/
  | malformed
  /-- The number of memory cells is not possible. -/
  | memoryWords (count : UInt64)
  deriving DecidableEq, Repr

def Error.message : Error → String
  | io reason => s!"cannot read config: {reason}"
  | malformed => "bad config: not a machine configuration"
  | memoryWords count =>
    s!"invalid config: memory_words must be in 1..={Word.count}, got {count}"

/-- What a configuration must keep beyond the types of its fields. -/
def validate (c : Config) : Except Error Unit :=
  if c.memoryWords = 0 ∨ Word.count < c.memoryWords.toNat then .error (.memoryWords c.memoryWords)
  else .ok ()

/-- A field of a configuration. -/
inductive Field where
  | memoryWords | clockBase | keyboardBase | displayBase | clockRate | cyclesPerFrame
  deriving DecidableEq, Repr

namespace Field

/-- All fields in order. -/
def all : List Field :=
  [memoryWords, clockBase, keyboardBase, displayBase, clockRate, cyclesPerFrame]

/-- The name of a field in JSON. -/
def name : Field → Text
  | memoryWords => "memory_words".toList
  | clockBase => "clock_base".toList
  | keyboardBase => "keyboard_base".toList
  | displayBase => "display_base".toList
  | clockRate => "clock_rate_hz".toList
  | cyclesPerFrame => "cycles_per_frame".toList

def ofName? (name : Text) : Option Field := all.find? fun f => f.name == name

/-- How many values a field can have. -/
def range : Field → Nat
  | memoryWords | cyclesPerFrame => 0x10000000000000000
  | _ => Word.count

/-- The value a token gives a field. -/
def value? (f : Field) : Json.Token → Option Nat
  | .natural n => if n < f.range then some n else none
  | _ => none

end Field

/-- The value of a field. -/
def get (c : Config) : Field → Nat
  | .memoryWords => c.memoryWords.toNat
  | .clockBase => c.clockBase.toNat
  | .keyboardBase => c.keyboardBase.toNat
  | .displayBase => c.displayBase.toNat
  | .clockRate => c.clockRate.toNat
  | .cyclesPerFrame => c.cyclesPerFrame.toNat

/-- The configuration with another value in a field. -/
def set (c : Config) (f : Field) (n : Nat) : Config :=
  match f with
  | .memoryWords => { c with memoryWords := UInt64.ofNat n }
  | .clockBase => { c with clockBase := UInt16.ofNat n }
  | .keyboardBase => { c with keyboardBase := UInt16.ofNat n }
  | .displayBase => { c with displayBase := UInt16.ofNat n }
  | .clockRate => { c with clockRate := UInt16.ofNat n }
  | .cyclesPerFrame => { c with cyclesPerFrame := UInt64.ofNat n }

/-- Read the members of an object from a key on, with the fields given so far. A field is given at
most once. -/
def ofMembers (given : List Field) (c : Config) : List Json.Token → Option Config
  | .string (some key) :: .colon :: rest =>
    match Field.ofName? key with
    | some f =>
      match rest with
      | token :: separator :: rest =>
        if f ∈ given then none
        else
          match f.value? token, separator with
          | some n, .comma => ofMembers (f :: given) (c.set f n) rest
          | some n, .closeObject => if rest.isEmpty then some (c.set f n) else none
          | _, _ => none
      | _ => none
    | none =>
      match h : Json.skipValue? rest with
      | some (.comma :: after) =>
        have := Json.length_lt_of_skip? h
        ofMembers given c after
      | some [.closeObject] => some c
      | _ => none
  | _ => none
  termination_by tokens => tokens.length
  decreasing_by all_goals simp_all; try omega

/-- Read the items of an array for the fields that are left. -/
def ofItems (c : Config) : List Field → List Json.Token → Option Config
  | f :: _, [token, .closeArray] => (f.value? token).map fun n => c.set f n
  | f :: fields, token :: .comma :: rest =>
    match f.value? token with
    | some n => ofItems (c.set f n) fields rest
    | none => none
  | _, _ => none

/-- The configuration that tokens give. -/
def ofTokens? : List Json.Token → Option Config
  | [.openObject, .closeObject] | [.openArray, .closeArray] => some {}
  | .openObject :: rest => ofMembers [] {} rest
  | .openArray :: rest => ofItems {} Field.all rest
  | _ => none

/-- The configuration that a JSON text gives. -/
def ofJson (text : Text) : Except Error Config := do
  match (Json.tokens? text).bind ofTokens? with
  | none => throw .malformed
  | some c =>
    c.validate
    return c

/-- The JSON text of a configuration, with every field. -/
def toJson (c : Config) : Text :=
  (Json.object (Field.all.map fun f => (f.name, .natural (c.get f)))).pretty

end Config

end WordMachine
