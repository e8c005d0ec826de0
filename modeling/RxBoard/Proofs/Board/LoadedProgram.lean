import RxBoard.Proofs.Assembly.Accounting
import RxBoard.Proofs.Board.Stepping
import RxBoard.Proofs.Processor.Program

/-!
A loaded program, step by step.

A text that assembles and fits in memory is executed line by line: each step
of the board does what the reference interpreter does with the instruction
that the next emitting line denotes, and the source map takes the program
counter back to that line.
-/

namespace RxBoard

theorem EmittingLine.known (entry : EmittingLine) :
    entry.instruction.isRecognized = true ∧
      entry.instruction.masked = entry.instruction := by
  rcases entry.denotes with ⟨tokens, _, denotes⟩
  exact ⟨denotes.isRecognized, denotes.masked⟩

structure CodeFits (start : UInt32) (length : Nat) : Prop where
  mapped : (Region.ofAddress? start).isSome = true
  inside :
    (∀ distance < length,
      start.toNat + distance ≤ AddressMap.ram.last.toNat) ∨
    (∀ distance < length,
      AddressMap.rom.first.toNat ≤ start.toNat + distance ∧
        start.toNat + distance < AddressMap.resetVector.toNat)

namespace CodeFits

variable {start : UInt32} {length : Nat}

/-- All bytes of code that fits are in the store of its first byte. -/
theorem reachable (fits : CodeFits start length) :
    ∀ index < length, ∃ address,
      advance? start index = some address ∧ IsMapped address ∧
        Region.ofAddress? address = Region.ofAddress? start := by
  rcases fits.inside with inRam | inRom
  · apply Memory.reachable_of_window Region.ofAddress?_of_ram
    intro distance inside
    exact ⟨Nat.zero_le _, inRam distance inside⟩
  · apply Memory.reachable_of_window Region.ofAddress?_of_rom
    intro distance inside
    rcases inRom distance inside with ⟨low, high⟩
    have last := AddressMap.rom_last_add_one
    have top := AddressMap.resetVector.toNat_lt_size
    exact ⟨low, by omega⟩

theorem of_flash (inFlash : Region.ofAddress? start = some .rom)
    (below : start.toNat + length ≤ AddressMap.resetVector.toNat) :
    CodeFits start length := by
  have startInside :=
    (Region.ofAddress?_eq_some_iff start .rom).mp inFlash
  have low := ((Window.contains_iff ..).mp startInside).1
  refine ⟨Option.isSome_of_eq_some inFlash, .inr ?_⟩
  intro distance inside
  exact ⟨Nat.le_trans low (Nat.le_add_right ..),
    Nat.lt_of_lt_of_le (Nat.add_lt_add_left inside _) below⟩

theorem mono (fits : CodeFits start length) {shorter : Nat}
    (short : shorter ≤ length) : CodeFits start shorter where
  mapped := fits.mapped
  inside := fits.inside.imp
    (fun inRam distance before =>
      inRam distance (Nat.lt_of_lt_of_le before short))
    (fun inRom distance before =>
      inRom distance (Nat.lt_of_lt_of_le before short))

theorem lt_resetVector (fits : CodeFits start length) :
    ∀ index < length,
      start.toNat + index < AddressMap.resetVector.toNat := by
  intro index inside
  rcases fits.inside with inRam | inRom
  · have last := Nat.lt_of_lt_of_le AddressMap.ram_last_lt_rom_first
      AddressMap.rom_first_le_resetVector
    exact Nat.lt_of_le_of_lt (inRam index inside) last
  · exact (inRom index inside).2

end CodeFits

/-! ### Memory after a load -/

namespace Board

theorem value_install (code : List UInt8) (start : UInt32)
    (memory : Memory) :
    (install code start memory).value.2 =
      ((memory.clearRam.load code start).value.2.write32
        AddressMap.resetVector start).value := rfl

theorem install_holds {code : List UInt8} {start : UInt32}
    (fits : CodeFits start code.length) (memory : Memory) :
    (install code start memory).value.2.Holds start code := by
  rw [value_install, Memory.write32]
  apply (Memory.holds_load fits.reachable).writeBytesPast
  intro index inside
  exact Or.inl (fits.lt_resetVector index inside)

theorem value_read32_write32_resetVector (memory : Memory)
    (word : UInt32) :
    ((memory.write32 AddressMap.resetVector word).value.read32
      AddressMap.resetVector).value = word := by
  apply Memory.Holds.value_read32
  apply Memory.holds_writeBytesPast
  intro index inside
  obtain rfl | rfl | rfl | rfl :
      index = 0 ∨ index = 1 ∨ index = 2 ∨ index = 3 := by
    rw [LittleEndian.length_wordBytes] at inside
    omega
  all_goals exact ⟨_, rfl, by decide⟩

theorem value_read32_install (code : List UInt8) (start : UInt32)
    (memory : Memory) :
    ((install code start memory).value.2.read32
      AddressMap.resetVector).value = start := by
  rw [value_install]
  exact value_read32_write32_resetVector _ start

theorem processor_assembleAndLoad (board : Board) {source : Text}
    {start : UInt32}
    (complete : (Assembly.ofText source).errors = [])
    (mapped : (Region.ofAddress? start).isSome = true) :
    (board.assembleAndLoad source start).value.2.processor =
      { pc := start
        breakpoints := board.processor.breakpoints
        memory := (install (Assembly.ofText source).bytes start
          board.processor.memory).value.2 } := by
  have success :
      (assembleAt source start).value.success = true := by
    change (Assembly.ofText source).errors.isEmpty = true
    rw [complete]
    rfl
  have notUnmapped : ¬(Region.ofAddress? start).isNone = true := by
    rw [Bool.not_eq_true, Option.isNone_eq_false_iff]
    exact mapped
  have restarted :
      (board.assembleAndLoad source start).value.2.processor =
        { pc := ((install (Assembly.ofText source).bytes start
            board.processor.memory).value.2.read32
              AddressMap.resetVector).value
          breakpoints := board.processor.breakpoints
          memory := (install (Assembly.ofText source).bytes start
            board.processor.memory).value.2 } := by
    rw [assembleAndLoad, Logged.value_bind, success, Bool.not_true,
      if_neg Bool.false_ne_true, if_neg notUnmapped]
    rfl
  rw [restarted, value_read32_install]

theorem holds_assembleAndLoad (board : Board) {source : Text}
    {start : UInt32}
    (complete : (Assembly.ofText source).errors = [])
    (fits : CodeFits start (Assembly.ofText source).bytes.length) :
    (board.assembleAndLoad source start).value.2.processor.memory.Holds
      start (Assembly.ofText source).bytes := by
  rw [processor_assembleAndLoad board complete fits.mapped]
  exact install_holds fits board.processor.memory

theorem agrees_initial (pc : UInt32) (breakpoints : Breakpoints)
    (memory : Memory) :
    Processor.Agrees { pc, breakpoints, memory } {} := by
  refine ⟨?_, rfl, rfl, rfl, rfl, rfl⟩
  intro index
  exact Vector.getElem_replicate index.isLt

theorem afterSteps_loaded (board : Board) {source : Text}
    {start : UInt32}
    (complete : (Assembly.ofText source).errors = [])
    (fits : CodeFits start (Assembly.ofText source).bytes.length)
    {count : Nat} (bound : count ≤ (emittingLines source).length) :
    let processor :=
      ((board.assembleAndLoad source start).value.2.afterSteps
        count).processor
    processor.Agrees
        (ReferenceState.run
          (((emittingLines source).take count).map
            EmittingLine.instruction)) ∧
      processor.pc = start +
        UInt32.ofNat
          (EmittingLine.offset (emittingLines source) count) ∧
      processor.faultCount = 0 := by
  intro processor
  have known : ∀ instruction ∈
      (emittingLines source).map EmittingLine.instruction,
      instruction.isRecognized = true ∧
        instruction.masked = instruction := by
    intro instruction member
    rcases List.mem_map.mp member with ⟨emitting, _, rfl⟩
    exact emitting.known
  have program :
      ((emittingLines source).map EmittingLine.instruction).flatMap
        Instruction.encode = (Assembly.ofText source).bytes := by
    rw [EmittingLine.flatMap_encode_instructions, Assembly.bytes_ofText]
  have holds := install_holds fits board.processor.memory
  rw [← program] at holds
  have mappedBound :
      count ≤
        ((emittingLines source).map EmittingLine.instruction).length := by
    rw [List.length_map]
    exact bound
  have reached := Processor.afterSteps_program known holds
    (agrees_initial start board.processor.breakpoints _) mappedBound
  -- The peripherals tick along and change nothing the processor sees.
  have processorEq :
      processor =
        (board.assembleAndLoad source start).value.2.processor.afterSteps
          count :=
    processor_afterSteps _ count
  rw [processor_assembleAndLoad board complete fits.mapped,
    ← program] at processorEq
  rw [← processorEq, ← List.map_take] at reached
  rcases reached with ⟨agrees, pcEq, faultsEq⟩
  have executed := EmittingLine.flatMap_encode_instructions
    ((emittingLines source).take count)
  exact ⟨agrees, pcEq.trans (congrArg
    (fun code => start + UInt32.ofNat code.length) executed), faultsEq⟩

/-- A text that assembles and fits runs line by line as the reference
interpreter runs the instructions that its lines denote. -/
theorem afterSteps_assembleAndLoad (board : Board) (source : Text)
    (start : UInt32)
    (complete : (Assembly.ofText source).errors = [])
    (fits : CodeFits start (Assembly.ofText source).bytes.length)
    (count : Nat) (bound : count ≤ (emittingLines source).length) :
    let assembly := Assembly.ofText source
    let processor :=
      ((board.assembleAndLoad source start).value.2.afterSteps
        count).processor
    processor.Agrees
        (ReferenceState.run
          (((emittingLines source).take count).map
            EmittingLine.instruction)) ∧
      processor.faultCount = 0 ∧
      (count = (emittingLines source).length →
        processor.pc = start + UInt32.ofNat assembly.bytes.length) ∧
      ∀ emitting : EmittingLine,
        (emittingLines source)[count]? = some emitting →
        ∃ range : OffsetRange,
          assembly.sourceMap.searchRange? emitting.line = some range ∧
          processor.pc = start + UInt32.ofNat range.start ∧
          assembly.sourceMap.searchLine? (processor.pc - start).toNat =
            some emitting.line := by
  intro assembly processor
  obtain ⟨agrees, pcEq, faultsEq⟩ :=
    afterSteps_loaded board complete fits bound
  refine ⟨agrees, faultsEq, ?_, ?_⟩
  · rintro rfl
    rw [EmittingLine.offset, List.take_length,
      ← Assembly.bytes_ofText] at pcEq
    exact pcEq
  · intro emitting found
    refine ⟨_, Assembly.searchRange?_of_emits found, pcEq, ?_⟩
    have inside :
        EmittingLine.offset (emittingLines source) count <
          EmittingLine.offset (emittingLines source) (count + 1) :=
      EmittingLine.offset_lt_succ found
    have distance :
        (processor.pc - start).toNat =
          EmittingLine.offset (emittingLines source) count := by
      have last := EmittingLine.offset_le_length (emittingLines source)
        (count + 1)
      rw [← Assembly.bytes_ofText] at last
      have below := fits.lt_resetVector _ (Nat.lt_of_lt_of_le inside last)
      have top := AddressMap.resetVector.toNat_lt
      have fitsWord :
          EmittingLine.offset (emittingLines source) count <
            UInt32.size := by
        simp only [UInt32.size]
        omega
      rw [pcEq, UInt32.add_comm, UInt32.add_sub_cancel,
        UInt32.toNat_ofNat_of_lt' fitsWord]
    rw [distance]
    exact Assembly.searchLine?_of_emits found (Nat.le_refl _) inside

theorem afterSteps_move_add :
    let source := "MOV.L #5, R1\n; add\nADD.L #0xFFFFFFFE, R1".toList
    let assembly := Assembly.ofText source
    let processor :=
      ((powerOn.value.assembleAndLoad source 0x100).value.2.afterSteps
        2).processor
    assembly.errors = [] ∧
      CodeFits 0x100 assembly.bytes.length ∧
      2 ≤ (emittingLines source).length ∧
      processor.registers[1] = 3 ∧
      processor.status.sign = false ∧
      processor.cycles = 4 ∧
      processor.pc = 0x10D := by
  intro source assembly processor
  have complete : assembly.errors = [] := by decide +kernel
  have lengthEq : assembly.bytes.length = 13 := by decide +kernel
  have fits : CodeFits 0x100 assembly.bytes.length := by
    rw [lengthEq]
    exact ⟨by decide, .inl (by decide)⟩
  have twoLines : (emittingLines source).length = 2 := by decide +kernel
  obtain ⟨agrees, _, pcEq, _⟩ :=
    afterSteps_assembleAndLoad powerOn.value source 0x100 complete fits 2
      (Nat.le_of_eq twoLines.symm)
  refine ⟨complete, fits, Nat.le_of_eq twoLines.symm, ?_, ?_, ?_, ?_⟩
  · exact (agrees.registers 1).trans (by decide +kernel)
  · exact agrees.sign.trans (by decide +kernel)
  · exact agrees.cycles.trans (by decide +kernel)
  · refine (pcEq twoLines.symm).trans ?_
    rw [lengthEq]
    rfl

end Board

end RxBoard
