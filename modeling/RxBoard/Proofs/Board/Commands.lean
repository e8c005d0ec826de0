import RxBoard.Proofs.Board.Loading
import RxBoard.Proofs.Peripheral.Drift
import RxBoard.Proofs.Processor.Frame

/-!
Sessions with a board.

Commands and answers are data here, so that a session is a list of commands.
Most commands leave alone what outlasts a reset: memory, breakpoints, the
listener and the place of the program (`retains_perform`).
-/

namespace RxBoard

inductive Command where
  | step
  | run (budget : Nat)
  | reset
  | addBreakpoint (address : UInt32)
  | removeBreakpoint (address : UInt32)
  | toggleBreakpoint (address : UInt32)
  | clearBreakpoints
  | setPinInput (pin : UInt8) (level : Bool)
  | writePeripheral (name : String) (offset : UInt32) (byte : UInt8)
  | attachListener
  | writeMemory (address : UInt32) (byte : UInt8)
  | assembleAndLoad (source : Text) (start : UInt32)
  | assemble (source : Text) (start : UInt32)
  | readMemory (address : UInt32)
  | dumpMemory (address : UInt32) (count : Nat)
  | hexDump (address : UInt32) (count : Nat)
  | list (address : UInt32) (count : Nat)

inductive Answer where
  | done
  | cycles (consumed : Nat)
  | flag (value : Bool)
  | byte (value : UInt8)
  | bytes (values : List UInt8)
  | text (value : Text)
  | report (value : AssemblyReport)

/-- A reset of the peripherals keeps nothing of them but the listener. -/
theorem PeripheralBank.reset_congr {bank other : PeripheralBank}
    (same : other.serial.hasListener = bank.serial.hasListener) :
    other.reset = bank.reset := by
  have serialEq : other.serial.clearLog = bank.serial.clearLog := by
    unfold SerialChannel.clearLog
    rw [same]
  change PeripheralBank.mk InterruptQueue.empty {} {}
    other.serial.clearLog = _
  rw [serialEq]
  rfl

namespace Board

def perform (board : Board) : Command → Logged (Answer × Board)
  | .step => Prod.map .cycles id <$> board.step
  | .run budget => Prod.map .cycles id <$> board.run budget
  | .reset => Prod.mk .done <$> board.reset
  | .addBreakpoint address => pure (.done, board.addBreakpoint address)
  | .removeBreakpoint address =>
      pure (Prod.map .flag id (board.removeBreakpoint address))
  | .toggleBreakpoint address =>
      pure (Prod.map .flag id (board.toggleBreakpoint address))
  | .clearBreakpoints => pure (.done, board.clearBreakpoints)
  | .setPinInput pin level => pure (.done, board.setPinInput pin level)
  | .writePeripheral name offset byte =>
      Prod.map .flag id <$> board.writePeripheral name offset byte
  | .attachListener => pure (.done, board.attachListener)
  | .writeMemory address byte =>
      Prod.mk .done <$> board.writeMemory address byte
  | .assembleAndLoad source start =>
      Prod.map .report id <$> board.assembleAndLoad source start
  | .assemble source start =>
      (fun report => (.report report, board)) <$> assembleAt source start
  | .readMemory address =>
      (fun byte => (.byte byte, board)) <$> board.readMemory address
  | .dumpMemory address count =>
      (fun bytes => (.bytes bytes, board)) <$>
        board.dumpMemory address count
  | .hexDump address count =>
      (fun text => (.text text, board)) <$> board.hexDump address count
  | .list address count =>
      (fun lines => (.text (Text.joinLines lines), board)) <$>
        board.listingLines address count

def performAll (board : Board) (commands : List Command) : Board :=
  commands.foldl (fun current command => (current.perform command).value.2)
    board

theorem performAll_cons (board : Board) (first : Command)
    (rest : List Command) :
    board.performAll (first :: rest) =
      (board.perform first).value.2.performAll rest := rfl

def trace (board : Board) : List Command → List (Logged (Answer × Board))
  | [] => []
  | first :: rest =>
      board.perform first :: (board.perform first).value.2.trace rest

structure Retains (before after : Board) : Prop where
  memory : after.processor.memory = before.processor.memory
  breakpoints :
    after.processor.breakpoints = before.processor.breakpoints
  hasListener :
    after.peripherals.serial.hasListener =
      before.peripherals.serial.hasListener
  programStart : after.programStart = before.programStart
  programEnd : after.programEnd = before.programEnd

namespace Retains

variable {first second third : Board}

theorem refl (board : Board) : board.Retains board :=
  ⟨rfl, rfl, rfl, rfl, rfl⟩

theorem trans (retains : first.Retains second)
    (further : second.Retains third) : first.Retains third where
  memory := further.memory.trans retains.memory
  breakpoints := further.breakpoints.trans retains.breakpoints
  hasListener := further.hasListener.trans retains.hasListener
  programStart := further.programStart.trans retains.programStart
  programEnd := further.programEnd.trans retains.programEnd

end Retains

theorem serial_tickAll (peripherals : PeripheralBank)
    (costs : List Nat) :
    (tickAll peripherals costs).serial = peripherals.serial := by
  induction costs generalizing peripherals with
  | nil => rfl
  | cons cost rest inductionHypothesis =>
      exact inductionHypothesis (peripherals.tick cost).value

theorem retains_afterSteps (board : Board) (count : Nat) :
    board.Retains (board.afterSteps count) := by
  rw [afterSteps_eq]
  constructor
  · exact Processor.memory_afterSteps board.processor count
  · exact Processor.breakpoints_afterSteps board.processor count
  · exact congrArg SerialChannel.hasListener
      (serial_tickAll board.peripherals _)
  · rfl
  · rfl

theorem retains_run (board : Board) (budget : Nat) :
    board.Retains (board.run budget).value.2 := by
  obtain ⟨count, hit, ran⟩ := board.exists_value_run budget
  have retained := board.retains_afterSteps count
  rw [ran]
  exact ⟨retained.memory, retained.breakpoints, retained.hasListener,
    retained.programStart, retained.programEnd⟩

theorem hasListener_write? {bank : PeripheralBank} {name : String}
    {offset : UInt32} {byte : UInt8} {written : Logged PeripheralBank}
    (found : bank.write? name offset byte = some written) :
    written.value.serial.hasListener = bank.serial.hasListener := by
  unfold PeripheralBank.write? at found
  split at found
  · obtain rfl := Option.some.inj found
    rfl
  · obtain rfl := Option.some.inj found
    rfl
  · obtain rfl := Option.some.inj found
    change (if offset = 0 then bank.serial.transmit byte
      else pure bank.serial).value.hasListener = bank.serial.hasListener
    split
    · rw [SerialChannel.value_transmit]
    · rfl
  · cases found

theorem retains_writePeripheral (board : Board) (name : String)
    (offset : UInt32) (byte : UInt8) :
    board.Retains (board.writePeripheral name offset byte).value.2 := by
  unfold writePeripheral
  cases found : board.peripherals.write? name offset byte with
  | none => exact .refl board
  | some written => exact ⟨rfl, rfl, hasListener_write? found, rfl, rfl⟩

end Board

/-- Whether some board refuses to load a text at an address.  All boards do so
then, for it depends on text and address alone. -/
def LoadRefused (source : Text) (start : UInt32) : Prop :=
  ∃ board : Board,
    (board.assembleAndLoad source start).value.1.success = false

theorem loadRefused_iff (source : Text) (start : UInt32) :
    LoadRefused source start ↔
      ¬((Assembly.ofText source).errors = [] ∧
        (Region.ofAddress? start).isSome = true) := by
  unfold LoadRefused
  simp only [← Bool.not_eq_true, Board.success_assembleAndLoad_iff,
    exists_const_iff]
  exact and_iff_right ⟨Board.powerOn.value⟩

theorem LoadRefused.failure {source : Text} {start : UInt32}
    (refused : LoadRefused source start) (board : Board) :
    (board.assembleAndLoad source start).value.1.success = false := by
  rw [← Bool.not_eq_true, Board.success_assembleAndLoad_iff]
  exact (loadRefused_iff source start).mp refused

/-- Whether nothing that a command does outlasts a reset. -/
def Command.IsVolatile : Command → Prop
  | .step | .run _ | .reset | .setPinInput _ _ | .writePeripheral _ _ _ =>
      True
  | .assembleAndLoad source start => LoadRefused source start
  | _ => False

namespace Board

theorem retains_perform (board : Board) {command : Command}
    (isVolatile : command.IsVolatile) :
    board.Retains (board.perform command).value.2 := by
  cases command with
  | step => exact board.retains_afterSteps 1
  | run budget => exact board.retains_run budget
  | reset => exact ⟨rfl, rfl, rfl, rfl, rfl⟩
  | setPinInput pin level => exact ⟨rfl, rfl, rfl, rfl, rfl⟩
  | writePeripheral name offset byte =>
      exact board.retains_writePeripheral name offset byte
  | assembleAndLoad source start =>
      have unchanged :=
        (board.refused_of_failure source start (isVolatile.failure board)).1
      change board.Retains (board.assembleAndLoad source start).value.2
      rw [unchanged]
      exact .refl board
  | _ => cases isVolatile

theorem retains_performAll (board : Board) {commands : List Command}
    (volatile : ∀ command ∈ commands, command.IsVolatile) :
    board.Retains (board.performAll commands) := by
  induction commands generalizing board with
  | nil => exact .refl board
  | cons first rest inductionHypothesis =>
      rcases List.forall_mem_cons.mp volatile with
        ⟨firstVolatile, restVolatile⟩
      exact (board.retains_perform firstVolatile).trans
        (inductionHypothesis _ restVolatile)

end Board

end RxBoard
