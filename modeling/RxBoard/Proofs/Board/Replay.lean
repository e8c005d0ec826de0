import RxBoard.Proofs.Board.Commands

/-!
Sessions that a reset undoes.

A reset reads nothing of a board but what volatile commands leave alone.  So it
leads to the same board with and without them, and whatever follows it goes the
same way.
-/

namespace RxBoard.Board

variable {before after : Board}

theorem Retains.reset_processor (retains : before.Retains after) :
    after.processor.reset = before.processor.reset := by
  unfold Processor.reset
  rw [retains.memory, retains.breakpoints]

theorem Retains.reset_peripherals (retains : before.Retains after) :
    after.peripherals.reset = before.peripherals.reset :=
  PeripheralBank.reset_congr retains.hasListener

theorem Retains.reset_eq (retains : before.Retains after) :
    after.reset = before.reset := by
  unfold reset
  rw [retains.reset_processor, retains.reset_peripherals,
    retains.programStart, retains.programEnd]

theorem trace_reset (board : Board) (later : List Command) :
    board.trace (.reset :: later) =
      (Prod.mk .done <$> board.reset) ::
        board.reset.value.trace later := rfl

/-- A reset leads to the same board with and without volatile commands in front
of it, and all that follows it has the same answers, events and boards.  The
volatile commands may themselves be what follows. -/
theorem reset_performAll (board : Board) (commands : List Command)
    (volatile : ∀ command ∈ commands, command.IsVolatile) :
    (board.performAll commands).reset = board.reset ∧
      ∀ later : List Command,
        (board.performAll commands).trace (.reset :: later) =
          board.trace (.reset :: later) := by
  have resetEq := (board.retains_performAll volatile).reset_eq
  refine ⟨resetEq, ?_⟩
  intro later
  rw [trace_reset, trace_reset, resetEq]

theorem reset_performAll_refusedLoad :
    let commands : List Command :=
      [.setPinInput 3 true, .writePeripheral "timer" 8 1, .run 5,
        .assembleAndLoad "MOV.L #1, R16".toList 0x1000, .reset, .step]
    (∀ command ∈ commands, command.IsVolatile) ∧
      (powerOn.value.performAll commands).reset = powerOn.value.reset ∧
      (powerOn.value.performAll (.reset :: commands)).trace
          (.reset :: commands) =
        powerOn.value.trace (.reset :: commands) := by
  intro commands
  have refused : LoadRefused "MOV.L #1, R16".toList 0x1000 := by
    rw [loadRefused_iff]
    intro facts
    exact absurd facts.1 (by decide +kernel)
  have volatile : ∀ command ∈ commands, command.IsVolatile := by
    simp only [commands, List.forall_mem_cons, Command.IsVolatile,
      true_and]
    exact ⟨refused, List.forall_mem_nil _⟩
  have resetVolatile : ∀ command ∈ Command.reset :: commands,
      command.IsVolatile :=
    List.forall_mem_cons.mpr ⟨trivial, volatile⟩
  exact ⟨volatile, (reset_performAll powerOn.value commands volatile).1,
    (reset_performAll powerOn.value (.reset :: commands) resetVolatile).2
      commands⟩

end RxBoard.Board
