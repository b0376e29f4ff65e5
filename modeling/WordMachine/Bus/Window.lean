import WordMachine.Word

/-!
# Bus/Window — the addresses behind which a device's registers lie
-/

namespace WordMachine

/-- The addresses from `base` on, `length` of them, which stand for the registers of a device. -/
structure Window where
  hardwareId : UInt32
  base : Word
  length : Word
  deriving DecidableEq, Repr

namespace Window

/-- One past the last address, which may be one past the last word. -/
def stop (w : Window) : Nat := w.base.toNat + w.length.toNat

def contains (w : Window) (addr : Word) : Bool := w.base ≤ addr && addr.toNat < w.stop

/-- Whether each window starts before the other ends. -/
def overlaps (w v : Window) : Bool := w.base.toNat < v.stop && v.base.toNat < w.stop

def summary (w : Window) : String :=
  s!"Mapping \x7b hardware_id: {w.hardwareId}, base: {w.base}, len: {w.length} \x7d"

end Window

end WordMachine
