import RxBoard.Proofs.Instruction.Codec
import RxBoard.Proofs.Memory.Contents
import RxBoard.Proofs.Processor.Stepping

/-!
Straight-line programs in memory, against a reference interpreter.

The reference interpreter knows registers, flags and cycles, but neither
memory nor encodings.  Where memory holds the encodings of a program, each
step of the processor does what the interpreter does with the next
instruction (`afterSteps_program`).
-/

namespace RxBoard

structure ReferenceState where
  registers : Fin 16 → UInt32 := fun _ => 0
  zero : Bool := false
  sign : Bool := false
  carry : Bool := false
  overflow : Bool := false
  cycles : Nat := 0

namespace ReferenceState

def spend (state : ReferenceState) (cycles : Nat) : ReferenceState :=
  { state with cycles := state.cycles + cycles }

def write (state : ReferenceState) (target : Fin 16) (value : UInt32) :
    ReferenceState :=
  { state with
    registers := fun index =>
      if index = target then value else state.registers index
    zero := decide (value = 0)
    sign := decide (2 ^ 31 ≤ value.toNat) }

def next (state : ReferenceState) : Instruction → ReferenceState
  | .nop => state.spend 1
  | .moveImmediate destination immediate =>
      (state.write (Processor.registerIndex destination)
        immediate).spend 2
  | .moveRegister source destination =>
      (state.write (Processor.registerIndex destination)
        (state.registers (Processor.registerIndex source))).spend 1
  | .addImmediate destination immediate =>
      (state.write (Processor.registerIndex destination)
        (state.registers (Processor.registerIndex destination) +
          immediate)).spend 2
  | .unrecognized _ => state

def run (program : List Instruction) : ReferenceState :=
  program.foldl next {}

end ReferenceState

namespace Processor

structure Agrees (processor : Processor) (state : ReferenceState) :
    Prop where
  registers : ∀ index : Fin 16,
    processor.registers[index] = state.registers index
  zero : processor.status.zero = state.zero
  sign : processor.status.sign = state.sign
  carry : processor.status.carry = state.carry
  overflow : processor.status.overflow = state.overflow
  cycles : processor.cycles = state.cycles

variable {processor : Processor} {state : ReferenceState}

theorem testBit_sign (value : UInt32) :
    value.toNat.testBit 31 = decide (2 ^ 31 ≤ value.toNat) := by
  have bound := value.toNat_lt
  rw [Nat.testBit_eq_decide_div_mod_eq, decide_eq_decide]
  omega

theorem Agrees.writeResult (agrees : processor.Agrees state)
    (name : UInt8) (value : UInt32) :
    (processor.writeResult name value).Agrees
      (state.write (registerIndex name) value) := by
  constructor
  · intro index
    have written :
        (processor.writeResult name value).registers[index] =
          if (registerIndex name).val = index.val then
            value
          else
            processor.registers[index] :=
      Vector.getElem_set (registerIndex name).isLt index.isLt
    rw [written, agrees.registers]
    simp only [ReferenceState.write, Fin.ext_iff, eq_comm]
  · rfl
  · exact testBit_sign value
  · exact agrees.carry
  · exact agrees.overflow
  · exact agrees.cycles

theorem Agrees.advance (agrees : processor.Agrees state)
    (decoded : Decoded) :
    (processor.advance decoded).Agrees (state.spend decoded.cycles) where
  registers := agrees.registers
  zero := agrees.zero
  sign := agrees.sign
  carry := agrees.carry
  overflow := agrees.overflow
  cycles := congrArg (· + decoded.cycles) agrees.cycles

/-- An instruction does to a processor what it does to the reference
interpreter. -/
theorem Agrees.execute (agrees : processor.Agrees state)
    {instruction : Instruction}
    (recognized : instruction.isRecognized = true) {decoded : Decoded}
    (cyclesEq : decoded.cycles = instruction.cost) :
    ((processor.execute instruction).advance decoded).Agrees
      (state.next instruction) := by
  cases instruction with
  | nop =>
      have advanced := agrees.advance decoded
      rw [cyclesEq] at advanced
      exact advanced
  | moveImmediate destination immediate =>
      have advanced :=
        (agrees.writeResult destination immediate).advance decoded
      rw [cyclesEq] at advanced
      exact advanced
  | moveRegister source destination =>
      have moved : processor.register source = state.registers _ :=
        agrees.registers (registerIndex source)
      have advanced :=
        (agrees.writeResult destination (processor.register source)).advance
          decoded
      rw [cyclesEq] at advanced
      rw [ReferenceState.next, ← moved]
      exact advanced
  | addImmediate destination immediate =>
      have added : processor.register destination = state.registers _ :=
        agrees.registers (registerIndex destination)
      have advanced :=
        (agrees.writeResult destination
          (processor.register destination + immediate)).advance decoded
      rw [cyclesEq] at advanced
      rw [ReferenceState.next, ← added]
      exact advanced
  | unrecognized opcode => cases recognized

theorem fetch_of_holds {memory : Memory} {pc : UInt32}
    {instruction : Instruction}
    (recognized : instruction.isRecognized = true)
    (masked : instruction.masked = instruction)
    (holds : memory.Holds pc instruction.encode) :
    (fetch memory pc).value.instruction = instruction ∧
      (fetch memory pc).value.size = instruction.encode.length ∧
      (fetch memory pc).value.cycles = instruction.cost := by
  obtain ⟨rest, windowEq⟩ :=
    holds.prefix_dump (length_encode_le instruction)
  have decoded := decode_encode_append instruction recognized rest
  rw [windowEq, masked] at decoded
  exact decoded

theorem value_perform {instruction : Instruction}
    (recognized : instruction.isRecognized = true)
    (processor : Processor) :
    (processor.perform instruction).value =
      processor.execute instruction := by
  cases instruction with
  | unrecognized opcode => cases recognized
  | _ => rfl

theorem execute_frame (processor : Processor) (instruction : Instruction) :
    (processor.execute instruction).memory = processor.memory ∧
      (processor.execute instruction).pc = processor.pc ∧
      (processor.execute instruction).faultCount =
        processor.faultCount := by
  cases instruction <;> exact ⟨rfl, rfl, rfl⟩

/-- A step at the encoding of an instruction does that instruction. -/
theorem step_of_holds (agrees : processor.Agrees state)
    {instruction : Instruction}
    (recognized : instruction.isRecognized = true)
    (masked : instruction.masked = instruction)
    (holds : processor.memory.Holds processor.pc instruction.encode) :
    let stepped := processor.step.value.2
    stepped.Agrees (state.next instruction) ∧
      stepped.memory = processor.memory ∧
      stepped.pc =
        processor.pc + UInt32.ofNat instruction.encode.length ∧
      stepped.faultCount = processor.faultCount := by
  obtain ⟨instructionEq, sizeEq, cyclesEq⟩ :=
    fetch_of_holds recognized masked holds
  have steppedEq :
      processor.step.value.2 =
        (processor.execute instruction).advance
          (fetch processor.memory processor.pc).value := by
    change ((processor.perform _).value.advance _) = _
    rw [instructionEq, value_perform recognized]
  rcases execute_frame processor instruction with ⟨memoryEq, pcEq, faultsEq⟩
  rw [steppedEq]
  refine ⟨agrees.execute recognized cyclesEq, memoryEq, ?_, faultsEq⟩
  rw [Processor.advance, pcEq, sizeEq]

theorem afterSteps_program {program : List Instruction}
    (known : ∀ instruction ∈ program,
      instruction.isRecognized = true ∧ instruction.masked = instruction)
    (holds : processor.memory.Holds processor.pc
      (program.flatMap Instruction.encode))
    (agrees : processor.Agrees state) {count : Nat}
    (bound : count ≤ program.length) :
    let reached := processor.afterSteps count
    let executed := program.take count
    reached.Agrees (executed.foldl ReferenceState.next state) ∧
      reached.pc = processor.pc +
        UInt32.ofNat (executed.flatMap Instruction.encode).length ∧
      reached.faultCount = processor.faultCount := by
  -- Program, processor and reference state all move on by one instruction,
  -- so all of them stay general; what memory holds is carried along.
  induction count generalizing program processor state with
  | zero => exact ⟨agrees, (UInt32.add_zero _).symm, rfl⟩
  | succ count inductionHypothesis =>
      cases program with
      | nil => contradiction
      | cons instruction rest =>
          obtain ⟨⟨recognized, masked⟩, restKnown⟩ :=
            List.forall_mem_cons.mp known
          rw [List.flatMap_cons] at holds
          obtain ⟨stepAgrees, memoryEq, pcEq, faultsEq⟩ :=
            step_of_holds agrees recognized masked holds.append_left
          have restHolds := holds.append_right
          rw [← memoryEq, ← pcEq] at restHolds
          obtain ⟨restAgrees, restPc, restFaults⟩ :=
            inductionHypothesis restKnown restHolds stepAgrees
              (Nat.le_of_succ_le_succ bound)
          refine ⟨restAgrees, ?_, restFaults.trans faultsEq⟩
          refine restPc.trans ?_
          rw [pcEq, List.take_succ_cons, List.flatMap_cons,
            List.length_append, UInt32.ofNat_add, UInt32.add_assoc]

end Processor

end RxBoard
