/-!
The address windows of the part, the fixed vector table, and the places of the
on-chip peripherals.
-/

namespace RxBoard

/-- A range of addresses, both ends included. -/
structure Window where
  first : UInt32
  last : UInt32
  deriving DecidableEq

namespace Window

def contains (window : Window) (address : UInt32) : Bool :=
  window.first ≤ address && address ≤ window.last

def size (window : Window) : Nat :=
  window.last.toNat - window.first.toNat + 1

end Window

namespace AddressMap

def ram : Window := ⟨0x00000000, 0x0003FFFF⟩

def rom : Window := ⟨0xFFE00000, 0xFFFFFFFF⟩

def peripherals1 : Window := ⟨0x00080000, 0x000FFFFF⟩

def peripherals2 : Window := ⟨0x007FC000, 0x007FFFFF⟩

def dataFlash : Window := ⟨0x00100000, 0x00107FFF⟩

def vectorTable : Window := ⟨0xFFFFFF80, 0xFFFFFFFF⟩

def resetVectorNumber : UInt32 := 31

def resetVector : UInt32 := vectorTable.first + resetVectorNumber * 4

def ramSize : Nat := ram.size

def romSize : Nat := rom.size

def pinsBase : UInt32 := 0x0008C000

def timerBase : UInt32 := 0x00088000

/-- Where the transmit data register of the serial channel is. -/
def serialBase : UInt32 := 0x0008A003

@[simp] theorem ramSize_eq : ramSize = 262144 := rfl

@[simp] theorem romSize_eq : romSize = 2097152 := rfl

@[simp] theorem resetVector_eq : resetVector = 0xFFFFFFFC := rfl

theorem ram_first_le_last : ram.first.toNat ≤ ram.last.toNat := by decide

theorem rom_first_le_last : rom.first.toNat ≤ rom.last.toNat := by decide

theorem ram_last_lt_rom_first :
    ram.last.toNat < rom.first.toNat := by
  decide

theorem rom_first_le_resetVector :
    rom.first.toNat ≤ resetVector.toNat := by
  decide

theorem rom_last_add_one : rom.last.toNat + 1 = UInt32.size := by decide

theorem resetVector_add_four :
    resetVector.toNat + 4 = UInt32.size := by
  decide

end AddressMap

end RxBoard
