import RxBoard.Proofs.Board.Commands

/-!
The reset vector and the program.

The reset vector of a new board points at its program, and every command keeps
it so, short of a host that writes to the vector itself.  A load writes the
vector last, so it holds also where code overlaps it.
-/

namespace RxBoard

/-- Whether a command leaves the bytes of the reset vector to the board. -/
def Command.SparesResetVector : Command → Prop
  | .writeMemory address _ => address < AddressMap.resetVector
  | _ => True

namespace Board

structure StartsAtProgram (board : Board) : Prop where
  vector :
    (board.processor.memory.read32 AddressMap.resetVector).value =
      board.programStart
  mapped : (Region.ofAddress? board.programStart).isSome = true

theorem memory_powerOn :
    powerOn.value.processor.memory =
      (Memory.blank.write32 AddressMap.resetVector
        AddressMap.rom.first).value := by
  unfold powerOn
  -- Blank memory is too large for definitions to be unfolded around it.
  generalize Memory.blank.write32 AddressMap.resetVector
    AddressMap.rom.first = written
  rfl

theorem startsAtProgram_powerOn : powerOn.value.StartsAtProgram := by
  constructor
  · rw [memory_powerOn, value_read32_write32_resetVector]
    rfl
  · change (Region.ofAddress? AddressMap.rom.first).isSome = true
    decide

theorem value_read32_write8_below (memory : Memory) {address : UInt32}
    (below : address < AddressMap.resetVector) (byte : UInt8) :
    ((memory.write8 address byte).value.read32
        AddressMap.resetVector).value =
      (memory.read32 AddressMap.resetVector).value := by
  refine congrArg LittleEndian.word (Memory.value_dump_congr ?_)
  intro distance inside target reached
  rw [advance?_eq_some_iff] at reached
  rw [UInt32.lt_iff_toNat_lt] at below
  have apart : ¬(target = address ∧ IsMapped target) := by
    rintro ⟨rfl, _⟩
    omega
  rw [Memory.byteAt_write8, if_neg apart]

namespace StartsAtProgram

variable {board : Board}

theorem of_retains (starts : board.StartsAtProgram) {after : Board}
    (retains : board.Retains after) : after.StartsAtProgram := by
  constructor
  · rw [retains.memory, retains.programStart]
    exact starts.vector
  · rw [retains.programStart]
    exact starts.mapped

theorem assembleAndLoad (starts : board.StartsAtProgram) (source : Text)
    (start : UInt32) :
    (board.assembleAndLoad source start).value.2.StartsAtProgram := by
  rcases board.unchanged_or_accepted source start with
    unchanged | ⟨complete, mapped⟩
  · rw [unchanged]
    exact starts
  · rw [assembleAndLoad_loads board complete mapped]
    exact ⟨value_read32_install (Assembly.ofText source).bytes start
      board.processor.memory, mapped⟩

theorem perform (starts : board.StartsAtProgram) {command : Command}
    (spares : command.SparesResetVector) :
    (board.perform command).value.2.StartsAtProgram := by
  cases command with
  | step | run | reset | setPinInput | writePeripheral =>
      exact starts.of_retains (board.retains_perform trivial)
  | writeMemory address byte =>
      refine ⟨?_, starts.mapped⟩
      exact (value_read32_write8_below board.processor.memory spares
        byte).trans starts.vector
  | assembleAndLoad source start => exact starts.assembleAndLoad source start
  | _ => exact ⟨starts.vector, starts.mapped⟩

theorem performAll (starts : board.StartsAtProgram)
    {commands : List Command}
    (spare : ∀ command ∈ commands, command.SparesResetVector) :
    (board.performAll commands).StartsAtProgram := by
  induction commands generalizing board with
  | nil => exact starts
  | cons first rest inductionHypothesis =>
      rcases List.forall_mem_cons.mp spare with ⟨firstSpares, restSpare⟩
      exact inductionHypothesis (starts.perform firstSpares) restSpare

end StartsAtProgram

/-- After any session in which the host leaves the reset vector alone, the
vector points at the program, the program starts in memory, and a reset starts
it. -/
theorem pc_reset_performAll (commands : List Command)
    (spare : ∀ command ∈ commands, command.SparesResetVector) :
    let board := powerOn.value.performAll commands
    (board.processor.memory.read32 AddressMap.resetVector).value =
        board.programStart ∧
      (∃ region : Region,
        region.window.contains board.programStart = true) ∧
      board.reset.value.processor.pc = board.programStart := by
  intro board
  have starts : board.StartsAtProgram :=
    startsAtProgram_powerOn.performAll spare
  obtain ⟨region, leads⟩ := Option.isSome_iff_exists.mp starts.mapped
  refine ⟨starts.vector, ⟨region, ?_⟩, starts.vector⟩
  exact (Region.ofAddress?_eq_some_iff board.programStart region).mp leads

/-- The last two bytes of this program give way to the reset vector, and the
second load is refused. -/
theorem pc_reset_performAll_overlap :
    let load : Command :=
      .assembleAndLoad "NOP\nNOP\nNOP\nNOP".toList 0xFFFFFFFA
    let rest : List Command :=
      [.run 3, .assembleAndLoad "NOP".toList 0x00080000, .step]
    let commands := .writeMemory 0xFFFFFFFB 1 :: load :: rest
    (∀ command ∈ commands, command.SparesResetVector) ∧
      (powerOn.value.performAll commands).reset.value.processor.pc =
        0xFFFFFFFA := by
  intro load rest commands
  have spare : ∀ command ∈ commands, command.SparesResetVector := by
    simp only [commands, load, rest, List.forall_mem_cons,
      Command.SparesResetVector, true_and]
    exact ⟨by decide, List.forall_mem_nil _⟩
  have refused : LoadRefused "NOP".toList 0x00080000 := by
    rw [loadRefused_iff]
    intro facts
    exact absurd facts.2 (by decide)
  have volatile : ∀ command ∈ rest, command.IsVolatile := by
    simp only [rest, List.forall_mem_cons, Command.IsVolatile, true_and]
    exact ⟨refused, List.forall_mem_nil _⟩
  have complete :
      (Assembly.ofText "NOP\nNOP\nNOP\nNOP".toList).errors = [] := by
    decide +kernel
  have started (board : Board) :
      (board.performAll (load :: rest)).programStart = 0xFFFFFFFA := by
    have loaded : board.Restarted _ 0xFFFFFFFA (board.perform load).value.2 :=
      restarted_assembleAndLoad board complete (by decide)
    have retained := retains_performAll (board.perform load).value.2 volatile
    exact retained.programStart.trans loaded.programStart
  refine ⟨spare, ?_⟩
  rw [(pc_reset_performAll commands spare).2.2, performAll_cons]
  exact started _

end Board

end RxBoard
