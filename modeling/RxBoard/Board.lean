import RxBoard.Assembly.Basic
import RxBoard.Listing
import RxBoard.Memory.HexDump
import RxBoard.Peripheral.Bank
import RxBoard.Processor.Execution

/-!
The board: a processor with its memory, the peripherals, and the program that
is loaded.

Peripherals are told of the cycles of each instruction as soon as it is done,
whether the board makes single steps or runs.  A program is loaded only if all
of it assembles and its start lies in memory; the reset vector then points at
it, and the board is reset.
-/

namespace RxBoard

structure Board where
  processor : Processor
  peripherals : PeripheralBank
  programStart : UInt32
  /-- The address after the last byte that was loaded. -/
  programEnd : UInt32

structure AssemblyReport where
  success : Bool
  code : List UInt8
  start : UInt32
  /-- The address after the last byte of the code. -/
  stop : UInt32
  errors : List Text
  deriving DecidableEq

def AssemblyReport.errorText (report : AssemblyReport) : Text :=
  Text.joinLines report.errors

namespace Board

/-- A new board.  Code flash holds `NOP` throughout, and the reset vector
points at its first byte. -/
def powerOn : Logged Board := do
  let memory ←
    Memory.blank.write32 AddressMap.resetVector AddressMap.rom.first
  let processor ← Processor.powerOn memory
  return {
    processor
    peripherals := {}
    programStart := AddressMap.rom.first
    programEnd := AddressMap.rom.first }

def step (board : Board) : Logged (Nat × Board) := do
  let (cycles, processor) ← board.processor.step
  let peripherals ← board.peripherals.tick cycles
  return (cycles, { board with processor, peripherals })

def run (board : Board) (budget : Nat) : Logged (Nat × Board) := do
  let result ←
    board.processor.runWith budget
      (fun cycles peripherals => peripherals.tick cycles)
      board.peripherals
  return (result.consumed,
    { board with
      processor := result.processor
      peripherals := result.observed })

/-- Resets the processor and the peripherals.  Memory and breakpoints stay as
they are. -/
def reset (board : Board) : Logged Board := do
  let processor ← board.processor.reset
  return {
    board with
    processor
    peripherals := board.peripherals.reset }

def addBreakpoint (board : Board) (address : UInt32) : Board :=
  { board with processor := board.processor.addBreakpoint address }

def removeBreakpoint (board : Board) (address : UInt32) :
    Bool × Board :=
  let (wasSet, processor) := board.processor.removeBreakpoint address
  (wasSet, { board with processor })

def toggleBreakpoint (board : Board) (address : UInt32) :
    Bool × Board :=
  let (isSet, processor) := board.processor.toggleBreakpoint address
  (isSet, { board with processor })

def clearBreakpoints (board : Board) : Board :=
  { board with processor := board.processor.clearBreakpoints }

def setPinInput (board : Board) (pin : UInt8) (level : Bool) :
    Board :=
  { board with
    peripherals :=
      { board.peripherals with
        pins := board.peripherals.pins.setInput pin level } }

def attachListener (board : Board) : Board :=
  { board with
    peripherals :=
      { board.peripherals with
        serial := board.peripherals.serial.attachListener } }

def writePeripheral (board : Board) (name : String)
    (offset : UInt32) (byte : UInt8) : Logged (Bool × Board) :=
  match board.peripherals.write? name offset byte with
  | none => pure (false, board)
  | some written => do
      let peripherals ← written
      return (true, { board with peripherals })

def readMemory (board : Board) (address : UInt32) : Logged UInt8 :=
  board.processor.memory.read8 address

def writeMemory (board : Board) (address : UInt32) (byte : UInt8) :
    Logged Board := do
  let ((), processor) ← board.processor.withMemory fun memory => do
    let written ← memory.write8 address byte
    return ((), written)
  return { board with processor }

def dumpMemory (board : Board) (address : UInt32) (count : Nat) :
    Logged (List UInt8) :=
  board.processor.memory.dump address count

def hexDump (board : Board) (address : UInt32) (count : Nat) :
    Logged Text :=
  board.processor.memory.hexDump address count

/-- The most bytes that a listing of instructions reads. -/
def listingLimit : Nat := 0x10000

def listingWindow (count : Nat) : Nat :=
  min (count * longestEncoding) listingLimit

def listingLines (board : Board) (address : UInt32) (count : Nat) :
    Logged (List Text) := do
  let window ← board.dumpMemory address (listingWindow count)
  return ((disassemble window address).take count).map fun entry =>
    Text.hexWord entry.address ++ "  ".toList ++ entry.text

def assembleAt (source : Text) (start : UInt32) :
    Logged AssemblyReport := do
  let assembly ← assemble source
  return {
    success := assembly.isComplete
    code := assembly.bytes
    start
    stop := start + UInt32.ofNat assembly.bytes.length
    errors := assembly.errors.map LineError.message }

def unmappedStart (start : UInt32) : Text :=
  "address 0x".toList ++ Text.hexWord start ++
    " is not in RAM or ROM".toList

/-- Puts code into cleared memory and points the reset vector at it; returns
how many bytes were stored. -/
def install (code : List UInt8) (start : UInt32) (memory : Memory) :
    Logged (Nat × Memory) := do
  let (stored, loaded) ← memory.clearRam.load code start
  let seeded ← loaded.write32 AddressMap.resetVector start
  return (stored, seeded)

/-- Assembles a text and loads it at an address, if every line assembles and
the address lies in memory; otherwise the board stays as it is. -/
def assembleAndLoad (board : Board) (source : Text) (start : UInt32) :
    Logged (AssemblyReport × Board) := do
  let report ← assembleAt source start
  if !report.success then
    return (report, board)
  else if (Region.ofAddress? start).isNone then
    return ({
      report with
      success := false
      errors := report.errors ++ [unmappedStart start] }, board)
  else
    let (stored, processor) ←
      board.processor.withMemory (install report.code start)
    let restarted ← reset { board with processor }
    return (report, {
      restarted with
      programStart := start
      programEnd := start + UInt32.ofNat stored })

end Board

end RxBoard
