import WordMachine.Memory.Span
import WordMachine.Word

/-!
# Device/Display — where the picture lies, and whether it has changed

The display draws nothing itself. It knows the addresses that hold the picture, and it is `dirty`
from a change of a register or of a picture word until it is asked.

| register | meaning                                        |
|----------|------------------------------------------------|
| 0        | first address of the picture, 0 for no picture |
| 1        | font base                                      |
| 2        | palette base                                   |
| 3        | border colour, of which four bits are kept     |
-/

namespace WordMachine

structure Display where
  vram : Word := 0
  font : Word := 0
  palette : Word := 0
  border : Word := 0
  dirty : Bool := false
  deriving DecidableEq, Repr

namespace Display

def hardwareId : UInt32 := 0x7349F615

def registerCount : Word := 4

/-- The words of a picture: 32 by 12 cells. -/
def pictureWords : Nat := 32 * 12

/-- The addresses of the picture, cut off at the last address there is. -/
def window? (d : Display) : Option Span :=
  if d.vram = 0 then none
  else some ⟨d.vram.toNat, min (d.vram.toNat + pictureWords) Word.count⟩

/-- Note that the picture has changed. -/
def markDirty (d : Display) : Display := { d with dirty := true }

/-- Forget that the picture has changed. -/
def markClean (d : Display) : Display := { d with dirty := false }

def read (d : Display) (register : Word) : Word :=
  if register = 0 then d.vram
  else if register = 1 then d.font
  else if register = 2 then d.palette
  else if register = 3 then d.border
  else 0

/-- Every write to a register marks the picture as changed. -/
def write (d : Display) (register value : Word) : Display :=
  if register = 0 then { d with vram := value, dirty := true }
  else if register = 1 then { d with font := value, dirty := true }
  else if register = 2 then { d with palette := value, dirty := true }
  else if register = 3 then { d with border := value &&& 0xF, dirty := true }
  else d

end Display

end WordMachine
