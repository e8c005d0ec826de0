import RxBoard.AddressMap

/-!
Where an address leads: to a byte of RAM, to a byte of code flash, or nowhere.

A `Location` holds an offset that lies inside its store by type, so a location
can always be read and written.
-/

namespace RxBoard

inductive Region where
  | ram
  | rom
  deriving DecidableEq

inductive Location where
  | ram (offset : Fin AddressMap.ramSize)
  | rom (offset : Fin AddressMap.romSize)
  deriving DecidableEq

theorem Window.offset_lt_size (window : Window) (address : UInt32)
    (inside : window.contains address = true) :
    address.toNat - window.first.toNat < window.size := by
  simp only [Window.contains, Bool.and_eq_true, decide_eq_true_eq,
    UInt32.le_iff_toNat_le] at inside
  unfold Window.size
  omega

def Location.ofAddress? (address : UInt32) : Option Location :=
  if inRam : AddressMap.ram.contains address = true then
    some (.ram ⟨address.toNat - AddressMap.ram.first.toNat,
      Window.offset_lt_size AddressMap.ram address inRam⟩)
  else if inRom : AddressMap.rom.contains address = true then
    some (.rom ⟨address.toNat - AddressMap.rom.first.toNat,
      Window.offset_lt_size AddressMap.rom address inRom⟩)
  else
    none

def Location.region : Location → Region
  | ram _ => .ram
  | rom _ => .rom

/-- The bytes from a location to the end of its store. -/
def Location.room : Location → Nat
  | ram offset => AddressMap.ramSize - offset
  | rom offset => AddressMap.romSize - offset

def Region.ofAddress? (address : UInt32) : Option Region :=
  (Location.ofAddress? address).map Location.region

/-- The address some bytes further on, unless it lies past the top of the
address space. -/
def advance? (address : UInt32) (distance : Nat) : Option UInt32 :=
  if address.toNat + distance < UInt32.size then
    some (address + UInt32.ofNat distance)
  else
    none

end RxBoard
