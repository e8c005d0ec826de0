import RxBoard.Memory.Location
import RxBoard.LittleEndian
import RxBoard.Logged

/-!
The memory of the machine: RAM and code flash behind a 32-bit address space.

Every address can be read and written.  An address that leads nowhere reads as
zero and takes no write, and is reported.  Wider accesses are made of byte
accesses, least significant byte first; they end at the top of the address
space, where the missing bytes read as zero and are not written.

`Memory.byteAt` is the view of memory as a function from addresses to bytes.
-/

namespace RxBoard

/-- RAM and code flash.  Code flash can be written like RAM; it differs in that
it keeps its contents when memory is cleared. -/
structure Memory where
  ram : Vector UInt8 AddressMap.ramSize
  rom : Vector UInt8 AddressMap.romSize

/-- Writes bytes over cells from an offset on; what runs past the last cell is
dropped. -/
def overwrite {size : Nat} (cells : Vector UInt8 size) (offset : Nat) :
    List UInt8 → Vector UInt8 size
  | [] => cells
  | byte :: rest =>
      overwrite (cells.setIfInBounds offset byte) (offset + 1) rest

namespace Memory

/-- Cleared RAM, and code flash filled with the encoding of `NOP`. -/
def blank : Memory where
  ram := Vector.replicate AddressMap.ramSize 0x00
  rom := Vector.replicate AddressMap.romSize 0x03

def clearRam (memory : Memory) : Memory :=
  { memory with ram := Vector.replicate AddressMap.ramSize 0x00 }

def get (memory : Memory) : Location → UInt8
  | .ram offset => memory.ram.get offset
  | .rom offset => memory.rom.get offset

def set (memory : Memory) (location : Location) (byte : UInt8) : Memory :=
  match location with
  | .ram offset =>
      { memory with
        ram := memory.ram.set offset.val byte offset.isLt }
  | .rom offset =>
      { memory with
        rom := memory.rom.set offset.val byte offset.isLt }

def store (memory : Memory) (location : Location)
    (bytes : List UInt8) : Memory :=
  match location with
  | .ram offset =>
      { memory with ram := overwrite memory.ram offset.val bytes }
  | .rom offset =>
      { memory with rom := overwrite memory.rom offset.val bytes }

def byteAt (memory : Memory) (address : UInt32) : UInt8 :=
  match Location.ofAddress? address with
  | some location => memory.get location
  | none => 0

def read8 (memory : Memory) (address : UInt32) : Logged UInt8 :=
  match Location.ofAddress? address with
  | some location => pure (memory.get location)
  | none => do
      Logged.report (.unmappedRead address)
      return 0

def write8 (memory : Memory) (address : UInt32) (byte : UInt8) :
    Logged Memory :=
  match Location.ofAddress? address with
  | some location => pure (memory.set location byte)
  | none => do
      Logged.report (.unmappedWrite address)
      return memory

@[simp] theorem value_read8 (memory : Memory) (address : UInt32) :
    (memory.read8 address).value = memory.byteAt address := by
  unfold read8 byteAt
  cases Location.ofAddress? address <;> rfl

def readPast (memory : Memory) (address : UInt32) (distance : Nat) :
    Logged UInt8 :=
  match advance? address distance with
  | some target => memory.read8 target
  | none => pure 0

def writePast (memory : Memory) (address : UInt32) (distance : Nat)
    (byte : UInt8) : Logged Memory :=
  match advance? address distance with
  | some target => memory.write8 target byte
  | none => pure memory

def dump (memory : Memory) (address : UInt32) (count : Nat) :
    Logged (List UInt8) :=
  Logged.forEach (List.range count) (memory.readPast address)

def writeBytesPast (memory : Memory) (address : UInt32)
    (distance : Nat) : List UInt8 → Logged Memory
  | [] => pure memory
  | byte :: rest => do
      let written ← memory.writePast address distance byte
      writeBytesPast written address (distance + 1) rest

def read16 (memory : Memory) (address : UInt32) : Logged UInt16 :=
  LittleEndian.halfword <$> memory.dump address 2

def read32 (memory : Memory) (address : UInt32) : Logged UInt32 :=
  LittleEndian.word <$> memory.dump address 4

def write16 (memory : Memory) (address : UInt32) (number : UInt16) :
    Logged Memory :=
  memory.writeBytesPast address 0 (LittleEndian.halfwordBytes number)

def write32 (memory : Memory) (address : UInt32) (number : UInt32) :
    Logged Memory :=
  memory.writeBytesPast address 0 (LittleEndian.wordBytes number)

/-- Copies data to an address and after it, up to the end of the store the
address leads to, and returns how many bytes were stored.  Data for an address
that leads nowhere is dropped. -/
def load (memory : Memory) (data : List UInt8) (address : UInt32) :
    Logged (Nat × Memory) :=
  match Location.ofAddress? address with
  | none => do
      Logged.report (.loadIgnored data.length address)
      return (0, memory)
  | some location => do
      let stored := min data.length location.room
      if stored < data.length then
        Logged.report (.loadTruncated address data.length stored)
      else
        Logged.report (.loaded stored address)
      return (stored, memory.store location data)

end Memory

end RxBoard
