import RxBoard.Proofs.Board.LoadedProgram

/-!
What a load leaves behind.

A load that is refused leaves the board as it is.  One that is not refused
restarts the board on the program, and `Restarted` names every field and every
byte of memory it leaves.  Code that runs past the end of its store is cut off
there, and the reset vector is written last: it may take the place of code.
-/

namespace RxBoard

theorem LineOutput.cause?_eq_none_iff (output : LineOutput) :
    output.cause? = none ↔ ∀ cause, output ≠ failed cause := by
  cases output <;> simp [cause?]

theorem Assembly.errors_ofText_eq_nil_iff (source : Text) :
    (Assembly.ofText source).errors = [] ↔
      ∀ text ∈ Text.lines source, ∀ cause,
        LineOutput.ofText text ≠ .failed cause := by
  rw [Assembly.ofText, Assembly.errors_ofLines,
    List.filterMap_eq_nil_iff]
  simp only [Option.map_eq_none_iff, LineOutput.cause?_eq_none_iff]
  constructor
  · intro sound text member
    rcases List.mem_iff_getElem?.mp member with ⟨index, textAt⟩
    apply sound (text, index + 1)
    rw [List.mem_zipIdx_iff_le_and_getElem?_sub]
    exact ⟨Nat.le_add_left 1 index, textAt⟩
  · intro sound entry member
    exact sound entry.1 (List.fst_mem_of_mem_zipIdx member)

namespace Board

theorem stored_install (code : List UInt8) (start : UInt32)
    (memory : Memory) :
    (install code start memory).value.1 =
      min code.length (roomFrom start) :=
  Memory.value_load_fst memory.clearRam code start

/-- The byte at an address after code was put into cleared memory, given the
byte that was there. -/
def installedByte (code : List UInt8) (start address : UInt32)
    (old : UInt8) : UInt8 :=
  let cleared :=
    if Region.ofAddress? address = some .ram then 0 else old
  let loaded :=
    laid (code.take (roomFrom start)) start.toNat address.toNat cleared
  laid (LittleEndian.wordBytes start) AddressMap.resetVector.toNat
    address.toNat loaded

theorem byteAt_install (code : List UInt8) (start address : UInt32)
    (memory : Memory) :
    (install code start memory).value.2.byteAt address =
      installedByte code start address (memory.byteAt address) := by
  rw [value_install, Memory.write32, Memory.byteAt_writeBytesPast,
    Memory.byteAt_load_take, Memory.byteAt_clearRam]
  split
  · rfl
  · rename_i unmapped
    -- Every address from the reset vector on is mapped.
    have below : address.toNat < AddressMap.resetVector.toNat := by
      by_contra above
      apply unmapped
      apply (Region.ofAddress?_of_rom address _).1
      rw [Window.contains_iff]
      have low := AddressMap.rom_first_le_resetVector
      have high := AddressMap.rom_last_add_one
      have bound := address.toNat_lt_size
      omega
    rw [installedByte, laid_of_outside (.inl below)]

theorem installedByte_code {code : List UInt8} {start : UInt32}
    {index : Nat} {byte : UInt8} (found : code[index]? = some byte)
    (stored : index < roomFrom start)
    (below : start.toNat + index < AddressMap.resetVector.toNat)
    (old : UInt8) :
    installedByte code start (start + UInt32.ofNat index) old = byte := by
  have reached :
      (start + UInt32.ofNat index).toNat = start.toNat + index :=
    toNat_add_ofNat (Nat.lt_trans below
      AddressMap.resetVector.toNat_lt_size)
  rw [installedByte, reached, laid_of_outside (.inl below)]
  apply laid_of_getElem?
  rw [List.getElem?_take_of_lt stored, found]

theorem installedByte_resetVector (code : List UInt8) {start : UInt32}
    {index : Nat} {byte : UInt8}
    (found : (LittleEndian.wordBytes start)[index]? = some byte)
    {address : UInt32}
    (reached : address.toNat = AddressMap.resetVector.toNat + index)
    (old : UInt8) :
    installedByte code start address old = byte := by
  rw [installedByte, reached]
  exact laid_of_getElem? found _ _

theorem installedByte_ram (code : List UInt8) (start : UInt32)
    {address : UInt32}
    (inRam : Region.ofAddress? address = some .ram) (old other : UInt8) :
    installedByte code start address old =
      installedByte code start address other := by
  unfold installedByte
  rw [if_pos inRam, if_pos inRam]

/-- What was in code flash stays where neither code nor the reset vector takes
its place. -/
theorem installedByte_kept {code : List UInt8} {start address : UInt32}
    (inFlash : Region.ofAddress? address = some .rom)
    (below : address < AddressMap.resetVector)
    (outside : ¬(start.toNat ≤ address.toNat ∧
      address.toNat < start.toNat + min code.length (roomFrom start)))
    (old : UInt8) :
    installedByte code start address old = old := by
  have notInRam : ¬Region.ofAddress? address = some .ram := by
    rw [inFlash]
    decide
  unfold installedByte
  rw [if_neg notInRam,
    laid_of_outside (.inl (UInt32.lt_iff_toNat_lt.mp below)),
    laid_of_outside]
  rw [List.length_take]
  omega

/-- What was there before is of no account where it is replaced. -/
theorem installedByte_replaced {code : List UInt8}
    {start address : UInt32}
    (replaced : AddressMap.resetVector ≤ address ∨
      start.toNat ≤ address.toNat ∧
        address.toNat < start.toNat + min code.length (roomFrom start))
    (old other : UInt8) :
    installedByte code start address old =
      installedByte code start address other := by
  unfold installedByte
  rcases replaced with above | ⟨behind, inside⟩
  · apply laid_of_inside (UInt32.le_iff_toNat_le.mp above)
    rw [LittleEndian.length_wordBytes, AddressMap.resetVector_add_four]
    exact address.toNat_lt_size
  · apply congrArg (laid (LittleEndian.wordBytes start)
      AddressMap.resetVector.toNat address.toNat)
    apply laid_of_inside behind
    rw [List.length_take]
    omega

theorem success_assembleAt (source : Text) (start : UInt32) :
    (assembleAt source start).value.success =
      (Assembly.ofText source).errors.isEmpty := rfl

theorem errors_assembleAt (source : Text) (start : UInt32) :
    (assembleAt source start).value.errors =
      (Assembly.ofText source).errors.map LineError.message := rfl

theorem assembleAndLoad_incomplete (board : Board) {source : Text}
    (start : UInt32)
    (incomplete : (Assembly.ofText source).errors ≠ []) :
    (board.assembleAndLoad source start).value =
      ((assembleAt source start).value, board) := by
  have failure : (assembleAt source start).value.success = false := by
    rw [success_assembleAt, List.isEmpty_eq_false_iff]
    exact incomplete
  rw [assembleAndLoad, Logged.value_bind, failure, Bool.not_false,
    if_pos rfl, Logged.value_pure]

theorem assembleAndLoad_unmapped (board : Board) {source : Text}
    {start : UInt32}
    (complete : (Assembly.ofText source).errors = [])
    (unmapped : Region.ofAddress? start = none) :
    (board.assembleAndLoad source start).value =
      ({ (assembleAt source start).value with
          success := false
          errors := [unmappedStart start] }, board) := by
  have success : (assembleAt source start).value.success = true := by
    rw [success_assembleAt, complete, List.isEmpty_nil]
  have noErrors : (assembleAt source start).value.errors = [] := by
    rw [errors_assembleAt, complete, List.map_nil]
  rw [assembleAndLoad, Logged.value_bind, success, Bool.not_true,
    if_neg Bool.false_ne_true, unmapped, Option.isNone_none, if_pos rfl,
    Logged.value_pure, noErrors, List.nil_append]

theorem assembleAndLoad_loads (board : Board) {source : Text}
    {start : UInt32}
    (complete : (Assembly.ofText source).errors = [])
    (mapped : (Region.ofAddress? start).isSome = true) :
    let installed := (install (Assembly.ofText source).bytes start
      board.processor.memory).value
    (board.assembleAndLoad source start).value =
      ((assembleAt source start).value,
        { processor :=
            { pc := start
              breakpoints := board.processor.breakpoints
              memory := installed.2 }
          peripherals := board.peripherals.reset
          programStart := start
          programEnd := start + UInt32.ofNat installed.1 }) := by
  have success : (assembleAt source start).value.success = true := by
    rw [success_assembleAt, complete, List.isEmpty_nil]
  have notUnmapped : ¬(Region.ofAddress? start).isNone = true := by
    rw [Bool.not_eq_true, Option.isNone_eq_false_iff]
    exact mapped
  intro installed
  rw [← processor_assembleAndLoad board complete mapped, assembleAndLoad,
    Logged.value_bind, success, Bool.not_true, if_neg Bool.false_ne_true,
    if_neg notUnmapped]
  rfl

theorem report_assembleAndLoad (board : Board) {source : Text}
    {start : UInt32}
    (complete : (Assembly.ofText source).errors = [])
    (mapped : (Region.ofAddress? start).isSome = true) :
    (board.assembleAndLoad source start).value.1 =
      (assembleAt source start).value :=
  congrArg Prod.fst (assembleAndLoad_loads board complete mapped)

theorem success_assembleAndLoad_iff (board : Board) (source : Text)
    (start : UInt32) :
    (board.assembleAndLoad source start).value.1.success = true ↔
      (Assembly.ofText source).errors = [] ∧
        (Region.ofAddress? start).isSome = true := by
  constructor
  · intro success
    by_cases complete : (Assembly.ofText source).errors = []
    · cases leads : Region.ofAddress? start with
      | none =>
          rw [assembleAndLoad_unmapped board complete leads] at success
          cases success
      | some region => exact ⟨complete, rfl⟩
    · rw [assembleAndLoad_incomplete board start complete,
        success_assembleAt, List.isEmpty_iff] at success
      exact absurd success complete
  · rintro ⟨complete, mapped⟩
    rw [report_assembleAndLoad board complete mapped, success_assembleAt,
      complete, List.isEmpty_nil]

theorem refused_of_failure (board : Board) (source : Text)
    (start : UInt32)
    (failure :
      (board.assembleAndLoad source start).value.1.success = false) :
    (board.assembleAndLoad source start).value.2 = board ∧
      1 ≤ (board.assembleAndLoad source start).value.1.errors.length := by
  by_cases complete : (Assembly.ofText source).errors = []
  · cases leads : Region.ofAddress? start with
    | none =>
        rw [assembleAndLoad_unmapped board complete leads]
        exact ⟨rfl, Nat.le_refl 1⟩
    | some region =>
        have success := (success_assembleAndLoad_iff board source start).mpr
          ⟨complete, Option.isSome_of_eq_some leads⟩
        cases failure.symm.trans success
  · rw [assembleAndLoad_incomplete board start complete,
      errors_assembleAt, List.length_map]
    exact ⟨rfl, List.length_pos_iff.mpr complete⟩

theorem unchanged_or_accepted (board : Board) (source : Text)
    (start : UInt32) :
    (board.assembleAndLoad source start).value.2 = board ∨
      (Assembly.ofText source).errors = [] ∧
        (Region.ofAddress? start).isSome = true := by
  rw [← success_assembleAndLoad_iff board source start]
  cases outcome :
      (board.assembleAndLoad source start).value.1.success with
  | false => exact .inl (board.refused_of_failure source start outcome).1
  | true => exact .inr rfl

structure Restarted (before : Board) (code : List UInt8)
    (start : UInt32) (after : Board) : Prop where
  registers : after.processor.registers = Vector.replicate 16 0
  pc : after.processor.pc = start
  userStack : after.processor.userStack = 0
  interruptStack :
    after.processor.interruptStack = initialInterruptStack
  accumulator : after.processor.accumulator = 0
  status : after.processor.status = {}
  counters :
    after.processor.cycles = 0 ∧ after.processor.instructions = 0
  faults :
    after.processor.lastFault = none ∧ after.processor.faultCount = 0
  breakpoints :
    after.processor.breakpoints = before.processor.breakpoints
  breakpointHit : after.processor.breakpointHit = none
  memory : ∀ address,
    after.processor.memory.byteAt address =
      installedByte code start address
        (before.processor.memory.byteAt address)
  interrupts : after.peripherals.interrupts = InterruptQueue.empty
  pins : after.peripherals.pins = {}
  timer : after.peripherals.timer = {}
  /-- The listener is not part of what a reset clears. -/
  serial : after.peripherals.serial =
    { hasListener := before.peripherals.serial.hasListener }
  programStart : after.programStart = start
  programEnd : after.programEnd =
    start + UInt32.ofNat (min code.length (roomFrom start))

theorem restarted_assembleAndLoad (board : Board) {source : Text}
    {start : UInt32}
    (complete : (Assembly.ofText source).errors = [])
    (mapped : (Region.ofAddress? start).isSome = true) :
    board.Restarted (Assembly.ofText source).bytes start
      (board.assembleAndLoad source start).value.2 := by
  rw [assembleAndLoad_loads board complete mapped]
  exact {
    registers := rfl
    pc := rfl
    userStack := rfl
    interruptStack := rfl
    accumulator := rfl
    status := rfl
    counters := ⟨rfl, rfl⟩
    faults := ⟨rfl, rfl⟩
    breakpoints := rfl
    breakpointHit := rfl
    memory := fun address => byteAt_install
      (Assembly.ofText source).bytes start address board.processor.memory
    interrupts := rfl
    pins := rfl
    timer := rfl
    serial := rfl
    programStart := rfl
    programEnd := congrArg (fun stored => start + UInt32.ofNat stored)
      (stored_install (Assembly.ofText source).bytes start
        board.processor.memory) }

/-- A load is refused if a line fails to assemble or the start lies in no store,
and then changes nothing; otherwise it restarts the board on the program. -/
theorem assembleAndLoad_allOrNothing (board : Board) (source : Text)
    (start : UInt32) :
    let outcome := (board.assembleAndLoad source start).value
    (outcome.1.success = false ↔
      (∃ text ∈ Text.lines source, ∃ cause,
          LineOutput.ofText text = .failed cause) ∨
        ∀ region : Region, ¬region.window.contains start = true) ∧
      (outcome.1.success = false →
        outcome.2 = board ∧ 1 ≤ outcome.1.errors.length) ∧
      (outcome.1.success = true →
        outcome.1.errors.length = 0 ∧
          board.Restarted (Assembly.ofText source).bytes start
            outcome.2) := by
  intro outcome
  refine ⟨?_, refused_of_failure board source start, ?_⟩
  · have failing :
        (∃ text ∈ Text.lines source, ∃ cause,
          LineOutput.ofText text = .failed cause) ↔
        ¬(Assembly.ofText source).errors = [] := by
      rw [Assembly.errors_ofText_eq_nil_iff]
      push Not
      rfl
    rw [failing, ← Region.ofAddress?_eq_none_iff,
      ← Option.not_isSome_iff_eq_none, ← not_and_or,
      ← success_assembleAndLoad_iff board source start, Bool.not_eq_true]
  · intro success
    obtain ⟨complete, mapped⟩ :=
      (success_assembleAndLoad_iff board source start).mp success
    have report : outcome.1 = (assembleAt source start).value :=
      report_assembleAndLoad board complete mapped
    refine ⟨?_, restarted_assembleAndLoad board complete mapped⟩
    rw [report, errors_assembleAt, complete]
    rfl

/-! ### What is in memory after a load -/

/-- The code is in memory up to the end of its store, except where the reset
vector is; all of it is there if it fits. -/
theorem assembleAndLoad_stored (board : Board) (source : Text)
    (start : UInt32)
    (success :
      (board.assembleAndLoad source start).value.1.success = true) :
    let outcome := (board.assembleAndLoad source start).value
    let code := outcome.1.code
    outcome.2.programEnd =
        start + UInt32.ofNat (min code.length (roomFrom start)) ∧
      (code.length ≤ roomFrom start →
        outcome.2.programEnd = outcome.1.stop) ∧
      (∀ index byte, code[index]? = some byte →
        index < roomFrom start →
        start.toNat + index < AddressMap.resetVector.toNat →
        (outcome.2.readMemory (start + UInt32.ofNat index)).value =
          byte) ∧
      (outcome.2.processor.memory.read32
        AddressMap.resetVector).value = start ∧
      (CodeFits start code.length →
        (outcome.2.dumpMemory start code.length).value = code) := by
  intro outcome code
  obtain ⟨complete, mapped⟩ :=
    (success_assembleAndLoad_iff board source start).mp success
  have report : outcome.1 = (assembleAt source start).value :=
    report_assembleAndLoad board complete mapped
  have codeEq : code = (Assembly.ofText source).bytes :=
    congrArg AssemblyReport.code report
  have restarted : board.Restarted code start outcome.2 := by
    rw [codeEq]
    exact restarted_assembleAndLoad board complete mapped
  have memoryEq :
      outcome.2.processor.memory =
        (install code start board.processor.memory).value.2 := by
    rw [codeEq]
    exact congrArg Processor.memory
      (processor_assembleAndLoad board complete mapped)
  refine ⟨restarted.programEnd, ?_, ?_, ?_, ?_⟩
  · intro whole
    rw [restarted.programEnd, Nat.min_eq_left whole, report, codeEq]
    rfl
  · intro index byte found stored below
    rw [readMemory, Memory.value_read8, restarted.memory]
    exact installedByte_code found stored below _
  · rw [memoryEq]
    exact value_read32_install code start board.processor.memory
  · intro fits
    have holds := install_holds fits board.processor.memory
    rw [← memoryEq] at holds
    symm
    apply (holds.prefix_dump (Nat.le_refl _)).eq_of_length
    rw [Memory.length_value_dump]

/-- The second byte of this program gives way to the reset vector. -/
theorem assembleAndLoad_stored_beforeVector :
    let outcome := (powerOn.value.assembleAndLoad
      "MOV.L R1, R2".toList 0xFFFFFFFB).value
    outcome.1.success = true ∧
      outcome.2.programEnd = outcome.1.stop ∧
      (outcome.2.readMemory 0xFFFFFFFB).value = 0xCF ∧
      (outcome.2.processor.memory.read32
        AddressMap.resetVector).value = 0xFFFFFFFB := by
  intro outcome
  have report : outcome.1 =
      (assembleAt "MOV.L R1, R2".toList 0xFFFFFFFB).value :=
    report_assembleAndLoad powerOn.value (by decide +kernel) (by decide)
  have success : outcome.1.success = true := by
    rw [report]
    decide +kernel
  obtain ⟨_, endEq, bytes, vector, _⟩ := assembleAndLoad_stored
    powerOn.value "MOV.L R1, R2".toList 0xFFFFFFFB success
  refine ⟨success, endEq ?_, bytes 0 0xCF ?_ ?_ ?_, vector⟩
  · change outcome.1.code.length ≤ _
    rw [report]
    decide +kernel
  · change outcome.1.code[0]? = _
    rw [report]
    decide +kernel
  · decide
  · decide

/-- A success report does not say that the program is in memory: one is cut off
at the end of RAM, the other gives way to the reset vector. -/
theorem not_assembleAndLoad_whole :
    let cut := (powerOn.value.assembleAndLoad
      "MOV.L R1, R2".toList 0x0003FFFF).value
    let replaced := (powerOn.value.assembleAndLoad
      "NOP".toList 0xFFFFFFFC).value
    (cut.1.success = true ∧
        (cut.2.dumpMemory 0x0003FFFF cut.1.code.length).value ≠
          cut.1.code ∧
        cut.2.programEnd ≠ cut.1.stop) ∧
      (replaced.1.success = true ∧
        (replaced.2.dumpMemory 0xFFFFFFFC
          replaced.1.code.length).value ≠ replaced.1.code) := by
  intro cut replaced
  constructor
  · have complete :
        (Assembly.ofText "MOV.L R1, R2".toList).errors = [] := by
      decide +kernel
    have report : cut.1 =
        (assembleAt "MOV.L R1, R2".toList 0x0003FFFF).value :=
      report_assembleAndLoad powerOn.value complete (by decide)
    have codeEq : cut.1.code = [0xCF, 0x12] := by
      rw [report]
      decide +kernel
    have restarted : powerOn.value.Restarted _ 0x0003FFFF cut.2 :=
      restarted_assembleAndLoad powerOn.value complete (by decide)
    refine ⟨?_, ?_, ?_⟩
    · rw [report]
      decide +kernel
    · intro whole
      have codeAt : cut.1.code[1]? = some 0x12 := by
        rw [codeEq]
        rfl
      have second : cut.2.processor.memory.byteAt 0x00040000 = 0x12 :=
        Memory.byteAt_of_dump whole codeAt (by decide)
      rw [Memory.byteAt_of_not_mapped _ (by decide)] at second
      cases second
    · rw [restarted.programEnd, report]
      decide +kernel
  · have complete : (Assembly.ofText "NOP".toList).errors = [] := by
      decide +kernel
    have report : replaced.1 =
        (assembleAt "NOP".toList 0xFFFFFFFC).value :=
      report_assembleAndLoad powerOn.value complete (by decide)
    have codeEq : replaced.1.code = [0x03] := by
      rw [report]
      decide +kernel
    have restarted : powerOn.value.Restarted _ 0xFFFFFFFC replaced.2 :=
      restarted_assembleAndLoad powerOn.value complete (by decide)
    constructor
    · rw [report]
      decide +kernel
    · intro whole
      have codeAt : replaced.1.code[0]? = some 0x03 := by
        rw [codeEq]
        rfl
      have first :
          replaced.2.processor.memory.byteAt 0xFFFFFFFC = 0x03 :=
        Memory.byteAt_of_dump whole codeAt (by decide)
      have vector :
          (LittleEndian.wordBytes 0xFFFFFFFC)[0]? = some 0xFC := by
        decide
      rw [restarted.memory,
        installedByte_resetVector _ vector (by decide)] at first
      cases first

end Board

end RxBoard
