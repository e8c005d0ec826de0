import RxBoard.Instruction.Basic

/-!
What the machine lets the outside know while it works.

An operation with something to tell returns a `Logged` value: its result
together with its events, oldest first.  Events are data.  Most of them make a
record for the log, which `Event.record?` grades and words; the others are
bytes handed to whoever listens to the serial channel.
-/

namespace RxBoard

structure Fault where
  opcode : UInt8
  pc : UInt32
  deriving DecidableEq

def addressText (address : UInt32) : String :=
  "0x" ++ String.ofList (Text.hexWord address)

def byteText (byte : UInt8) : String :=
  "0x" ++ String.ofList (Text.hexByte byte)

def Fault.message (fault : Fault) : String :=
  "unrecognized opcode " ++ byteText fault.opcode ++
    " at PC=" ++ addressText fault.pc

inductive Level where
  | trace
  | debug
  | warn
  deriving DecidableEq

namespace Level

def rank : Level → Nat
  | trace => 0
  | debug => 1
  | warn => 2

def name : Level → String
  | trace => "TRACE"
  | debug => "DEBUG"
  | warn => "WARN"

end Level

structure Record where
  level : Level
  message : String
  deriving DecidableEq

def Record.isAtLeast (minimum : Level) (record : Record) : Bool :=
  minimum.rank ≤ record.level.rank

inductive Event where
  | unmappedRead (address : UInt32)
  | unmappedWrite (address : UInt32)
  | loadIgnored (offered : Nat) (address : UInt32)
  | loadTruncated (address : UInt32) (offered stored : Nat)
  | loaded (stored : Nat) (address : UInt32)
  | reset (pc interruptStack : UInt32)
  | faulted (fault : Fault)
  | executed (pc : UInt32) (instruction : Instruction)
  | breakpointReached (pc : UInt32)
  | interruptRequested (vector : UInt32) (priority : UInt8)
      (source : String)
  | interruptTaken (vector : UInt32) (priority : UInt8)
  | compareMatch (compare : UInt32)
  | transmitted (byte : UInt8)
  /-- A transmitted byte is handed to the listener. -/
  | delivered (byte : UInt8)
  | assembled (bytes errors : Nat)
  deriving DecidableEq

namespace Event

def record? : Event → Option Record
  | unmappedRead address =>
      some ⟨.trace, "read from unmapped address " ++ addressText address⟩
  | unmappedWrite address =>
      some ⟨.trace, "write to unmapped address " ++ addressText address ++
        " ignored"⟩
  | loadIgnored offered address =>
      some ⟨.warn, "load of " ++ toString offered ++ " bytes at " ++
        addressText address ++ " is outside RAM and ROM; ignored"⟩
  | loadTruncated address offered stored =>
      some ⟨.debug, "load at " ++ addressText address ++
        " truncated from " ++ toString offered ++ " to " ++
        toString stored ++ " bytes"⟩
  | loaded stored address =>
      some ⟨.debug, "loaded " ++ toString stored ++ " bytes at " ++
        addressText address⟩
  | reset pc interruptStack =>
      some ⟨.debug, "reset: pc=" ++ addressText pc ++ " isp=" ++
        addressText interruptStack⟩
  | faulted fault => some ⟨.warn, fault.message⟩
  | executed pc instruction =>
      some ⟨.trace, addressText pc ++ ": " ++ instruction.description⟩
  | breakpointReached pc =>
      some ⟨.debug, "breakpoint at " ++ addressText pc⟩
  | interruptRequested vector priority source =>
      some ⟨.debug, "interrupt requested: vector " ++
        toString vector.toNat ++ " priority " ++
        toString priority.toNat ++ " from " ++ source⟩
  | interruptTaken vector priority =>
      some ⟨.debug, "interrupt taken: vector " ++
        toString vector.toNat ++ " priority " ++
        toString priority.toNat⟩
  | compareMatch compare =>
      some ⟨.debug, "CMT0 compare match at " ++
        toString compare.toNat⟩
  | transmitted byte => some ⟨.trace, "SCI0 TX " ++ byteText byte⟩
  | delivered _ => none
  | assembled bytes errors =>
      some ⟨.debug, "assembled " ++ toString bytes ++ " bytes with " ++
        toString errors ++ " error(s)"⟩

def delivery? : Event → Option UInt8
  | delivered byte => some byte
  | _ => none

end Event

def recordsAtLeast (minimum : Level) (events : List Event) :
    List Record :=
  (events.filterMap Event.record?).filter (Record.isAtLeast minimum)

def deliveries (events : List Event) : List UInt8 :=
  events.filterMap Event.delivery?

end RxBoard
