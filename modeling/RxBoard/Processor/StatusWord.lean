/-!
The processor status word.

| Bits | Flag |
|---|---|
| 0 | carry |
| 1 | zero |
| 2 | sign |
| 3 | overflow |
| 16 | interrupts enabled |
| 17 | user stack active |
| 20 | user mode |
| 24 to 27 | interrupt priority level |

The other bits are reserved: they pack as zero and are ignored on unpacking.
-/

namespace RxBoard

structure StatusWord where
  interruptsEnabled : Bool := false
  userStack : Bool := false
  userMode : Bool := false
  priorityLevel : UInt8 := 0
  overflow : Bool := false
  sign : Bool := false
  zero : Bool := false
  carry : Bool := false
  deriving DecidableEq

namespace StatusWord

def flagBit (flag : Bool) (bit : UInt32) : UInt32 :=
  if flag then bit else 0

/-- Packs the flags into a word.  Of the priority level the low four bits are
kept. -/
def pack (status : StatusWord) : UInt32 :=
  flagBit status.carry 0x00000001 |||
    flagBit status.zero 0x00000002 |||
    flagBit status.sign 0x00000004 |||
    flagBit status.overflow 0x00000008 |||
    flagBit status.interruptsEnabled 0x00010000 |||
    flagBit status.userStack 0x00020000 |||
    flagBit status.userMode 0x00100000 |||
    (status.priorityLevel &&& 0x0F).toUInt32 <<< 24

def unpack (word : UInt32) : StatusWord where
  interruptsEnabled := word.toNat.testBit 16
  userStack := word.toNat.testBit 17
  userMode := word.toNat.testBit 20
  priorityLevel := ((word >>> 24) &&& 0x0F).toUInt8
  overflow := word.toNat.testBit 3
  sign := word.toNat.testBit 2
  zero := word.toNat.testBit 1
  carry := word.toNat.testBit 0

/-- The flags after a result was written to a register: zero and sign follow
the result, and all else stays. -/
def afterResult (status : StatusWord) (result : UInt32) : StatusWord :=
  { status with
    zero := result == 0
    sign := result.toNat.testBit 31 }

end StatusWord

end RxBoard
