import RxBoard.LittleEndian
import RxBoard.Peripheral.InterruptQueue

/-!
What the peripherals have in common: a block of byte registers that are
reached by their offset in the block.

Offsets without a register read as zero and take no write.  Wider accesses are
made of byte accesses, least significant byte first, at offsets that wrap
around.
-/

namespace RxBoard

class RegisterBlock (δ : Type) where
  baseAddress : UInt32
  size : UInt32
  reset : δ → δ
  read8 : δ → UInt32 → UInt8
  write8 : δ → UInt32 → UInt8 → Logged δ
  /-- Lets cycles pass.  Interrupts are added to the queue. -/
  tick : δ → Nat → InterruptQueue → Logged (δ × InterruptQueue) :=
    fun block _ queue => pure (block, queue)

namespace RegisterBlock

variable {δ : Type} [RegisterBlock δ]

def readBytes (block : δ) (offset : UInt32) (count : Nat) :
    List UInt8 :=
  (List.range count).map fun distance =>
    read8 block (offset + UInt32.ofNat distance)

def writeBytes (block : δ) (offset : UInt32) :
    List UInt8 → Logged δ
  | [] => pure block
  | byte :: rest => do
      let written ← write8 block offset byte
      writeBytes written (offset + 1) rest

def read16 (block : δ) (offset : UInt32) : UInt16 :=
  LittleEndian.halfword (readBytes block offset 2)

def read32 (block : δ) (offset : UInt32) : UInt32 :=
  LittleEndian.word (readBytes block offset 4)

def write16 (block : δ) (offset : UInt32) (number : UInt16) :
    Logged δ :=
  writeBytes block offset (LittleEndian.halfwordBytes number)

def write32 (block : δ) (offset : UInt32) (number : UInt32) :
    Logged δ :=
  writeBytes block offset (LittleEndian.wordBytes number)

end RegisterBlock

end RxBoard
