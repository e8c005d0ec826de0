import RxBoard.Proofs.Board.StartAddress
import RxBoard.Proofs.Memory.Flat
import RxBoard.Proofs.Processor.Settled

/-!
What an earlier program leaves for a later one.

A load clears RAM, but code flash keeps what no code takes the place of.  So an
earlier program that reached further than the last one is still there in part.
Nothing else is left of the past: the last program runs as on a new board until
a step depends on such a byte.
-/

namespace RxBoard

namespace Command

def LoadsOrRuns : Command → Prop
  | .assembleAndLoad _ _ | .step | .run _ | .reset => True
  | _ => False

/-- Whether a command puts a byte of code at an address. -/
def Stores : Command → UInt32 → Prop
  | .assembleAndLoad source start, address =>
      (Assembly.ofText source).errors = [] ∧
        start.toNat ≤ address.toNat ∧
        address.toNat < start.toNat +
          min (Assembly.ofText source).bytes.length (roomFrom start)
  | _, _ => False

/-- Such a command is volatile, unless it is a load that is not refused. -/
theorem LoadsOrRuns.cases {command : Command}
    (loadsOrRuns : command.LoadsOrRuns) :
    command.IsVolatile ∨
      ∃ source start, command = .assembleAndLoad source start ∧
        (Assembly.ofText source).errors = [] ∧
        (Region.ofAddress? start).isSome = true := by
  cases command with
  | step | run | reset => exact .inl trivial
  | assembleAndLoad source start =>
      by_cases accepted : (Assembly.ofText source).errors = [] ∧
          (Region.ofAddress? start).isSome = true
      · exact .inr ⟨source, start, rfl, accepted⟩
      · exact .inl ((loadRefused_iff source start).mpr accepted)
  | _ => cases loadsOrRuns

end Command

/-- Whether code flash may hold a byte at an address that a command of a
history put there and the last command did not replace. -/
structure LeftOver (history : List Command) (last : Command)
    (address : UInt32) : Prop where
  inFlash : Region.ofAddress? address = some .rom
  below : address < AddressMap.resetVector
  stored : ∃ command ∈ history, command.Stores address
  kept : ¬last.Stores address

namespace Board

structure SameSetup (before after : Board) : Prop where
  breakpoints :
    after.processor.breakpoints = before.processor.breakpoints
  hasListener :
    after.peripherals.serial.hasListener =
      before.peripherals.serial.hasListener

theorem sameSetup_perform (board : Board) {command : Command}
    (loadsOrRuns : command.LoadsOrRuns) :
    board.SameSetup (board.perform command).value.2 := by
  rcases loadsOrRuns.cases with
    isVolatile | ⟨source, start, rfl, complete, mapped⟩
  · have retains := board.retains_perform isVolatile
    exact ⟨retains.breakpoints, retains.hasListener⟩
  · have restarted := board.restarted_assembleAndLoad complete mapped
    have listening := congrArg SerialChannel.hasListener restarted.serial
    exact ⟨restarted.breakpoints, listening⟩

theorem sameSetup_performAll (board : Board) {history : List Command}
    (loadsOrRun : ∀ command ∈ history, command.LoadsOrRuns) :
    board.SameSetup (board.performAll history) := by
  induction history generalizing board with
  | nil => exact ⟨rfl, rfl⟩
  | cons first rest inductionHypothesis =>
      rcases List.forall_mem_cons.mp loadsOrRun with ⟨firstDoes, restDo⟩
      have firstSame := board.sameSetup_perform firstDoes
      have restSame :=
        inductionHypothesis (board.perform first).value.2 restDo
      exact ⟨restSame.breakpoints.trans firstSame.breakpoints,
        restSame.hasListener.trans firstSame.hasListener⟩

section

variable {address : UInt32}
  (inFlash : Region.ofAddress? address = some .rom)
  (below : address < AddressMap.resetVector)

include inFlash below

theorem byteAt_perform_kept (board : Board) {command : Command}
    (loadsOrRuns : command.LoadsOrRuns)
    (kept : ¬command.Stores address) :
    (board.perform command).value.2.processor.memory.byteAt address =
      board.processor.memory.byteAt address := by
  rcases loadsOrRuns.cases with
    isVolatile | ⟨source, start, rfl, complete, mapped⟩
  · rw [(board.retains_perform isVolatile).memory]
  · have restarted := board.restarted_assembleAndLoad complete mapped
    refine (restarted.memory address).trans ?_
    exact installedByte_kept inFlash below
      (fun inside => kept ⟨complete, inside⟩) _

/-- Code flash holds at an address what it held before a history, unless the
history stores a byte of code there. -/
theorem byteAt_performAll_kept (board : Board) {history : List Command}
    (loadsOrRun : ∀ command ∈ history, command.LoadsOrRuns)
    (kept : ∀ command ∈ history, ¬command.Stores address) :
    (board.performAll history).processor.memory.byteAt address =
      board.processor.memory.byteAt address := by
  induction history generalizing board with
  | nil => rfl
  | cons first rest inductionHypothesis =>
      rcases List.forall_mem_cons.mp loadsOrRun with ⟨firstDoes, restDo⟩
      rcases List.forall_mem_cons.mp kept with ⟨firstKeeps, restKeep⟩
      rw [performAll_cons, inductionHypothesis _ restDo restKeep,
        board.byteAt_perform_kept inFlash below firstDoes firstKeeps]

end

def withStore (board : Board) (memory : Memory) : Board :=
  { board with processor := board.processor.withStore memory }

section

variable (board : Board) {history : List Command}
  (loadsOrRun : ∀ command ∈ history, command.LoadsOrRuns)
  {source : Text} {start : UInt32}
  (complete : (Assembly.ofText source).errors = [])
  (mapped : (Region.ofAddress? start).isSome = true)

include loadsOrRun complete mapped

theorem reload_eq_withStore :
    let fresh := (board.assembleAndLoad source start).value.2
    let reused :=
      ((board.performAll history).assembleAndLoad source start).value.2
    reused = fresh.withStore reused.processor.memory := by
  intro fresh reused
  have same := board.sameSetup_performAll loadsOrRun
  -- Of the board before it, a load reads memory, breakpoints and listener.
  have freshEq := congrArg Prod.snd
    (assembleAndLoad_loads board complete mapped)
  have reusedEq := congrArg Prod.snd
    (assembleAndLoad_loads (board.performAll history) complete mapped)
  rw [stored_install] at freshEq reusedEq
  change fresh = _ at freshEq
  change reused = _ at reusedEq
  rw [freshEq, reusedEq, same.breakpoints,
    PeripheralBank.reset_congr same.hasListener]
  rfl

/-- Memory differs only where something is left over. -/
theorem byteAt_reload {address : UInt32}
    (clean : ¬LeftOver history (.assembleAndLoad source start) address) :
    let fresh := (board.assembleAndLoad source start).value.2
    let reused :=
      ((board.performAll history).assembleAndLoad source start).value.2
    reused.processor.memory.byteAt address =
      fresh.processor.memory.byteAt address := by
  intro fresh reused
  have freshByte :=
    (restarted_assembleAndLoad board complete mapped).memory address
  have reusedByte := (restarted_assembleAndLoad
    (board.performAll history) complete mapped).memory address
  rw [freshByte, reusedByte]
  -- Only in code flash can the byte before the load be seen after it.
  cases leads : Region.ofAddress? address with
  | none =>
      have unmapped : ¬IsMapped address := by
        rw [isMapped_iff, leads]
        exact Bool.false_ne_true
      rw [Memory.byteAt_of_not_mapped _ unmapped,
        Memory.byteAt_of_not_mapped _ unmapped]
  | some region =>
      cases region with
      | ram => exact installedByte_ram _ start leads _ _
      | rom =>
          by_cases below : address < AddressMap.resetVector
          · by_cases stored :
                (Command.assembleAndLoad source start).Stores address
            · exact installedByte_replaced (.inr stored.2) _ _
            · have kept : ∀ command ∈ history,
                  ¬command.Stores address := by
                intro command member stores
                exact clean ⟨leads, below, ⟨command, member, stores⟩, stored⟩
              rw [board.byteAt_performAll_kept leads below loadsOrRun kept]
          · exact installedByte_replaced (.inl (UInt32.not_lt.mp below)) _ _

end

/-! ### Steps after a load -/

/-- Whether two boards make a number of steps at the same costs, and are then
the same but for memory. -/
structure StepsAlike (board other : Board) (count : Nat) : Prop where
  costs : other.stepCosts count = board.stepCosts count
  boards : other.afterSteps count =
    (board.afterSteps count).withStore other.processor.memory

theorem stepsAlike_withStore (board : Board) {avoided : UInt32 → Prop}
    {memory : Memory}
    (agree : ∀ address, ¬avoided address →
      memory.byteAt address = board.processor.memory.byteAt address)
    {count : Nat}
    (clear : ∀ earlier < count,
      (board.afterSteps earlier).processor.StepsClearOf avoided) :
    board.StepsAlike (board.withStore memory) count := by
  simp only [processor_afterSteps] at clear
  obtain ⟨costs, processors⟩ := Processor.steps_withStore agree clear
  constructor
  · rw [stepCosts_eq, stepCosts_eq]
    exact costs
  · rw [afterSteps_eq, afterSteps_eq]
    unfold withStore
    rw [costs, processors]
    rfl

/-- Memory holds, at the program counter, the instruction of the next emitting
line. -/
theorem holds_encode_afterSteps (board : Board) {source : Text}
    {start : UInt32}
    (complete : (Assembly.ofText source).errors = [])
    (fits : CodeFits start (Assembly.ofText source).bytes.length)
    {index : Nat} {entry : EmittingLine}
    (found : (emittingLines source)[index]? = some entry) :
    let reached :=
      ((board.assembleAndLoad source start).value.2.afterSteps
        index).processor
    reached.memory.Holds reached.pc entry.instruction.encode := by
  intro reached
  have before := (List.getElem?_eq_some_iff.mp found).1
  have pcEq : reached.pc =
      start + UInt32.ofNat
        (EmittingLine.offset (emittingLines source) index) :=
    (board.afterSteps_loaded complete fits (Nat.le_of_lt before)).2.1
  have memoryEq : reached.memory =
      (board.assembleAndLoad source start).value.2.processor.memory := by
    rw [show reached = _ from processor_afterSteps _ index,
      Processor.memory_afterSteps]
  have holds := board.holds_assembleAndLoad complete fits
  rw [Assembly.bytes_ofText, EmittingLine.code_of_getElem? found] at holds
  rw [memoryEq, pcEq]
  exact holds.append_right.append_left

theorem stores_of_fits {source : Text} {start : UInt32}
    (complete : (Assembly.ofText source).errors = [])
    (fits : CodeFits start (Assembly.ofText source).bytes.length)
    {index : Nat} (inside : index < (Assembly.ofText source).bytes.length)
    {address : UInt32} (reached : advance? start index = some address) :
    (Command.assembleAndLoad source start).Stores address := by
  obtain ⟨_, alsoReached, isMapped, sameRegion⟩ :=
    fits.reachable index inside
  obtain rfl := Option.some.inj (alsoReached.symm.trans reached)
  rw [advance?_eq_some_iff] at reached
  have room := (lt_add_roomFrom_iff (by omega)).mpr ⟨isMapped, sameRegion⟩
  exact ⟨complete, by omega, by omega⟩

/-- Within the program, steps are settled by its own code. -/
theorem stepsClearOf_leftOver (board : Board) (history : List Command)
    {source : Text} {start : UInt32}
    (complete : (Assembly.ofText source).errors = [])
    (fits : CodeFits start (Assembly.ofText source).bytes.length)
    {index : Nat} (before : index < (emittingLines source).length) :
    ((board.assembleAndLoad source start).value.2.afterSteps
      index).processor.StepsClearOf
        (LeftOver history (.assembleAndLoad source start)) := by
  have found := List.getElem?_eq_getElem before
  have pcEq :=
    (board.afterSteps_loaded complete fits (Nat.le_of_lt before)).2.1
  obtain ⟨recognized, masked⟩ := (emittingLines source)[index].known
  obtain ⟨instructionEq, sizeEq, _⟩ := Processor.fetch_of_holds recognized
    masked (board.holds_encode_afterSteps complete fits found)
  apply Processor.stepsClearOf_of_recognized
  · rw [instructionEq]
    exact recognized
  · intro distance inside address reached leftOver
    have next := EmittingLine.offset_succ found
    have last :=
      EmittingLine.offset_le_length (emittingLines source) (index + 1)
    rw [← Assembly.bytes_ofText] at last
    rw [sizeEq] at inside
    have below := Nat.lt_trans
      (fits.lt_resetVector
        (EmittingLine.offset (emittingLines source) index) (by omega))
      AddressMap.resetVector.toNat_lt_size
    rw [pcEq, advance?_add below] at reached
    exact leftOver.kept (stores_of_fits complete fits (by omega) reached)

/-- Code flash of a new board holds `NOP` after `NOP`. -/
theorem holds_powerOn {start : UInt32} {count : Nat}
    (fits : CodeFits start count)
    (inFlash : Region.ofAddress? start = some .rom) :
    powerOn.value.processor.memory.Holds start
      (List.replicate count 0x03) := by
  intro index byte found
  obtain ⟨inside, byteEq⟩ := List.getElem?_eq_some_iff.mp found
  rw [List.getElem_replicate] at byteEq
  rw [List.length_replicate] at inside
  obtain ⟨address, reached, _, sameRegion⟩ := fits.reachable index inside
  have below := fits.lt_resetVector index inside
  rw [← (advance?_eq_some_iff ..).mp reached] at below
  refine ⟨address, reached, ?_⟩
  rw [memory_powerOn, Memory.write32, Memory.byteAt_writeBytesPast,
    Nat.add_zero, laid_of_outside (.inl below), ite_self,
    Memory.byteAt_blank, if_pos (sameRegion.trans inFlash), byteEq]

/-- Code flash still holds a program after another is loaded that it begins
with. -/
theorem holds_reload (board : Board) {source : Text} {start : UInt32}
    (complete : (Assembly.ofText source).errors = [])
    (inFlash : Region.ofAddress? start = some .rom)
    {whole : List UInt8} (fits : CodeFits start whole.length)
    (front : (Assembly.ofText source).bytes <+: whole)
    (stands : board.processor.memory.Holds start whole) :
    (board.assembleAndLoad source start).value.2.processor.memory.Holds
      start whole := by
  have loaded := board.holds_assembleAndLoad complete
    (fits.mono front.length_le)
  intro index byte found
  have inside := (List.getElem?_eq_some_iff.mp found).1
  by_cases replaced : index < (Assembly.ofText source).bytes.length
  · have frontAt := List.prefix_iff_getElem?.mp front index replaced
    apply loaded index byte
    rw [List.getElem?_eq_getElem replaced, ← frontAt, found]
  · obtain ⟨address, reached, byteEq⟩ := stands index byte found
    obtain ⟨_, mappedReached, _, sameRegion⟩ := fits.reachable index inside
    obtain rfl := Option.some.inj (mappedReached.symm.trans reached)
    have below := fits.lt_resetVector index inside
    rw [advance?_eq_some_iff] at reached
    rw [← reached] at below
    refine ⟨_, mappedReached, ?_⟩
    rw [(board.restarted_assembleAndLoad complete fits.mapped).memory,
      installedByte_kept (sameRegion.trans inFlash)
        (UInt32.lt_iff_toNat_lt.mpr below) (by omega), byteEq]

/-- A board runs the program that memory holds at the start, be it loaded or
left over. -/
theorem agrees_of_holds (board : Board) {source : Text} {start : UInt32}
    (complete : (Assembly.ofText source).errors = [])
    (mapped : (Region.ofAddress? start).isSome = true)
    {program : List Instruction}
    (known : ∀ instruction ∈ program,
      instruction.isRecognized = true ∧ instruction.masked = instruction)
    (holds : (board.assembleAndLoad source
      start).value.2.processor.memory.Holds start
        (program.flatMap Instruction.encode)) :
    ((board.assembleAndLoad source start).value.2.afterSteps
      program.length).processor.Agrees (ReferenceState.run program) := by
  rw [processor_afterSteps]
  rw [processor_assembleAndLoad board complete mapped] at holds ⊢
  have reached := (Processor.afterSteps_program known holds
    (agrees_initial start board.processor.breakpoints _)
    (Nat.le_refl _)).1
  rw [List.take_length] at reached
  exact reached

/-! ### Traces of an earlier program -/

/-- After any history of loads and runs, a program leaves the board as a new
board would be, but for bytes of earlier programs in code flash.  It goes the
same way for as long as no step depends on such a byte: for ever if there is
none, and over all of its own lines if it fits. -/
theorem assembleAndLoad_performAll (history : List Command)
    (loadsOrRun : ∀ command ∈ history, command.LoadsOrRuns)
    (source : Text) (start : UInt32)
    (success : ((powerOn.value.performAll history).assembleAndLoad source
      start).value.1.success = true) :
    let fresh := (powerOn.value.assembleAndLoad source start).value.2
    let reused := ((powerOn.value.performAll history).assembleAndLoad
      source start).value.2
    let leftOver := LeftOver history (.assembleAndLoad source start)
    (∀ address, ¬leftOver address →
        (reused.readMemory address).value =
          (fresh.readMemory address).value) ∧
      (∀ count,
        (∀ earlier < count,
          (fresh.afterSteps earlier).processor.StepsClearOf leftOver) →
        fresh.StepsAlike reused count) ∧
      ((∀ address, ¬leftOver address) →
        ∀ count, fresh.StepsAlike reused count) ∧
      (CodeFits start (Assembly.ofText source).bytes.length →
        ∀ count ≤ (emittingLines source).length,
          fresh.StepsAlike reused count) := by
  intro fresh reused leftOver
  obtain ⟨complete, mapped⟩ := (success_assembleAndLoad_iff
    (powerOn.value.performAll history) source start).mp success
  have agree : ∀ address, ¬leftOver address →
      reused.processor.memory.byteAt address =
        fresh.processor.memory.byteAt address :=
    fun address clean =>
      powerOn.value.byteAt_reload loadsOrRun complete mapped clean
  have alike : ∀ count,
      (∀ earlier < count,
        (fresh.afterSteps earlier).processor.StepsClearOf leftOver) →
      fresh.StepsAlike reused count := by
    intro count clear
    have reusedEq : reused = fresh.withStore reused.processor.memory :=
      powerOn.value.reload_eq_withStore loadsOrRun complete mapped
    rw [reusedEq]
    exact fresh.stepsAlike_withStore agree clear
  refine ⟨?_, alike, ?_, ?_⟩
  · intro address clean
    unfold readMemory
    rw [Memory.value_read8, Memory.value_read8]
    exact agree address clean
  · intro none count
    exact alike count fun earlier _ =>
      Processor.stepsClearOf_of_forall_not none
        (fresh.afterSteps earlier).processor
  · intro fits count bound
    exact alike count fun earlier before =>
      powerOn.value.stepsClearOf_leftOver history complete fits
        (Nat.lt_of_lt_of_le before bound)

theorem assembleAndLoad_performAll_shorter :
    let history : List Command :=
      [.assembleAndLoad "NOP\nMOV.L #7, R1".toList 0xFFE00000, .run 3]
    let fresh :=
      (powerOn.value.assembleAndLoad "NOP".toList 0xFFE00000).value
    let reused := ((powerOn.value.performAll history).assembleAndLoad
      "NOP".toList 0xFFE00000).value
    (∀ command ∈ history, command.LoadsOrRuns) ∧
      reused.1.success = true ∧
      fresh.2.StepsAlike reused.2 1 := by
  intro history fresh reused
  have complete : (Assembly.ofText "NOP".toList).errors = [] := by
    decide +kernel
  have loadsOrRun : ∀ command ∈ history, command.LoadsOrRuns := by
    simp only [history, List.forall_mem_cons, Command.LoadsOrRuns,
      true_and]
    exact List.forall_mem_nil _
  have inFlash : Region.ofAddress? 0xFFE00000 = some .rom := by decide
  have success : reused.1.success = true :=
    (success_assembleAndLoad_iff _ _ _).mpr
      ⟨complete, Option.isSome_of_eq_some inFlash⟩
  have fits : CodeFits 0xFFE00000
      (Assembly.ofText "NOP".toList).bytes.length :=
    .of_flash inFlash (by decide +kernel)
  exact ⟨loadsOrRun, success,
    (assembleAndLoad_performAll history loadsOrRun "NOP".toList 0xFFE00000
      success).2.2.2 fits 1 (by decide +kernel)⟩

/-- An earlier program can leave a trace: what it has behind the code of the
last one is executed next. -/
theorem not_traceless :
    let history : List Command :=
      [.assembleAndLoad "NOP\nMOV.L #7, R1".toList 0xFFE00000]
    let fresh :=
      (powerOn.value.assembleAndLoad "NOP".toList 0xFFE00000).value
    let reused := ((powerOn.value.performAll history).assembleAndLoad
      "NOP".toList 0xFFE00000).value
    (∀ command ∈ history, command.LoadsOrRuns) ∧
      reused.1.success = true ∧
      (fresh.2.afterSteps 2).processor.register 1 = 0 ∧
      (reused.2.afterSteps 2).processor.register 1 = 7 := by
  intro history fresh reused
  have complete : (Assembly.ofText "NOP".toList).errors = [] := by
    decide +kernel
  have codeEq : (Assembly.ofText "NOP".toList).bytes =
      [Instruction.nop].flatMap Instruction.encode := by
    decide +kernel
  have inFlash : Region.ofAddress? 0xFFE00000 = some .rom := by decide
  have mapped := Option.isSome_of_eq_some inFlash
  have fits : CodeFits 0xFFE00000 2 := .of_flash inFlash (by decide)
  refine ⟨?_, ?_, ?_, ?_⟩
  · simp only [history, List.forall_mem_cons, Command.LoadsOrRuns,
      true_and]
    exact List.forall_mem_nil _
  · exact (success_assembleAndLoad_iff _ _ _).mpr ⟨complete, mapped⟩
  · have holds : fresh.2.processor.memory.Holds 0xFFE00000
        ([Instruction.nop, .nop].flatMap Instruction.encode) :=
      powerOn.value.holds_reload complete inFlash fits
        (by rw [codeEq]; exact ⟨[0x03], rfl⟩)
        (holds_powerOn fits inFlash)
    have agrees :=
      powerOn.value.agrees_of_holds complete mapped (by decide) holds
    exact (agrees.registers (Processor.registerIndex 1)).trans (by decide)
  · have longComplete :
        (Assembly.ofText "NOP\nMOV.L #7, R1".toList).errors = [] := by
      decide +kernel
    have longCode :
        (Assembly.ofText "NOP\nMOV.L #7, R1".toList).bytes =
          [Instruction.nop, .moveImmediate 1 7].flatMap
            Instruction.encode := by
      decide +kernel
    have longFits : CodeFits 0xFFE00000
        (Assembly.ofText "NOP\nMOV.L #7, R1".toList).bytes.length :=
      .of_flash inFlash (by decide +kernel)
    have stands :=
      powerOn.value.holds_assembleAndLoad longComplete longFits
    have holds := (powerOn.value.performAll history).holds_reload complete
      inFlash longFits (by rw [codeEq, longCode]; exact ⟨_, rfl⟩) stands
    rw [longCode] at holds
    have agrees := (powerOn.value.performAll history).agrees_of_holds
      complete mapped (by decide) holds
    exact (agrees.registers (Processor.registerIndex 1)).trans (by decide)

end Board

end RxBoard
