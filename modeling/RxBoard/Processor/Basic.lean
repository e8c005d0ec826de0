import RxBoard.Instruction.Encoding
import RxBoard.Memory.Basic
import RxBoard.Processor.Breakpoints
import RxBoard.Processor.StatusWord

/-!
The state of the processor, its reset, and access to its registers.

The processor owns its memory.  Registers are numbered by the low four bits of
a byte, so every byte names a register.

Cycles, steps and faults are counted in natural numbers, and the counters of the
board are 64-bit words.  What is proved of the counts is meant of processors
whose counts are below 2 ^ 64; there the two agree.
-/

namespace RxBoard

/-- The interrupt stack pointer after a reset: just past the last byte of RAM,
where a stack that grows downwards starts. -/
def initialInterruptStack : UInt32 := AddressMap.ram.last + 1

/-- The state of the processor.  Fields that have a default value have it after
a reset. -/
structure Processor where
  registers : Vector UInt32 16 := Vector.replicate 16 0
  pc : UInt32
  userStack : UInt32 := 0
  interruptStack : UInt32 := initialInterruptStack
  accumulator : UInt64 := 0
  status : StatusWord := {}
  /-- The cycles taken since the last reset. -/
  cycles : Nat := 0
  /-- The steps made since the last reset, faults included. -/
  instructions : Nat := 0
  lastFault : Option Fault := none
  faultCount : Nat := 0
  /-- The addresses before which a run stops. -/
  breakpoints : Breakpoints
  /-- Where the last run stopped, if a breakpoint stopped it. -/
  breakpointHit : Option UInt32 := none
  memory : Memory

namespace Processor

/-- Brings the processor to its power-on state and fetches the start address
from the reset vector.  Memory and breakpoints stay as they are. -/
def reset (processor : Processor) : Logged Processor := do
  let start ← processor.memory.read32 AddressMap.resetVector
  Logged.report (.reset start initialInterruptStack)
  return {
    pc := start
    breakpoints := processor.breakpoints
    memory := processor.memory }

def powerOn (memory : Memory) : Logged Processor :=
  reset { pc := 0, breakpoints := Breakpoints.empty, memory }

def registerIndex (name : UInt8) : Fin 16 :=
  ⟨name.toNat % 16, Nat.mod_lt name.toNat (by decide)⟩

def register (processor : Processor) (name : UInt8) : UInt32 :=
  processor.registers[registerIndex name]

def setRegister (processor : Processor) (name : UInt8)
    (value : UInt32) : Processor :=
  { processor with
    registers := processor.registers.set (registerIndex name).val value
      (registerIndex name).isLt }

def setPc (processor : Processor) (address : UInt32) : Processor :=
  { processor with pc := address }

def modifyStatus (processor : Processor)
    (change : StatusWord → StatusWord) : Processor :=
  { processor with status := change processor.status }

def setInterruptsEnabled (processor : Processor) (value : Bool) :
    Processor :=
  processor.modifyStatus fun status =>
    { status with interruptsEnabled := value }

def setOverflow (processor : Processor) (value : Bool) : Processor :=
  processor.modifyStatus fun status => { status with overflow := value }

def setSign (processor : Processor) (value : Bool) : Processor :=
  processor.modifyStatus fun status => { status with sign := value }

def setZero (processor : Processor) (value : Bool) : Processor :=
  processor.modifyStatus fun status => { status with zero := value }

def setCarry (processor : Processor) (value : Bool) : Processor :=
  processor.modifyStatus fun status => { status with carry := value }

/-- Sets the interrupt priority level to the low four bits of a byte. -/
def setPriorityLevel (processor : Processor) (level : UInt8) :
    Processor :=
  processor.modifyStatus fun status =>
    { status with priorityLevel := level &&& 0x0F }

def addBreakpoint (processor : Processor) (address : UInt32) :
    Processor :=
  { processor with
    breakpoints := processor.breakpoints.insert address }

def removeBreakpoint (processor : Processor) (address : UInt32) :
    Bool × Processor :=
  (processor.breakpoints.contains address,
    { processor with
      breakpoints := processor.breakpoints.erase address })

def toggleBreakpoint (processor : Processor) (address : UInt32) :
    Bool × Processor :=
  (!processor.breakpoints.contains address,
    { processor with
      breakpoints := processor.breakpoints.toggle address })

def clearBreakpoints (processor : Processor) : Processor :=
  { processor with breakpoints := Breakpoints.empty }

def withMemory {α : Type} (processor : Processor)
    (operation : Memory → Logged (α × Memory)) :
    Logged (α × Processor) := do
  let (result, memory) ← operation processor.memory
  return (result, { processor with memory })

end Processor

end RxBoard
