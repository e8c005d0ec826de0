import RxBoard.Memory.Basic

/-!
The vector table: one word for each interrupt vector, from a fixed base on.
Slot addresses wrap around, so that a vector number past the table still names
a slot.
-/

namespace RxBoard.VectorTable

def slotAddress (vector : UInt32) : UInt32 :=
  AddressMap.vectorTable.first + vector * 4

def handler (memory : Memory) (vector : UInt32) : Logged UInt32 :=
  memory.read32 (slotAddress vector)

end RxBoard.VectorTable
