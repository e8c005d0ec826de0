import Mathlib.Algebra.Order.BigOperators.Group.List
import Mathlib.Algebra.Order.Ring.Nat
import RxBoard.Proofs.Memory.Contents
import RxBoard.Proofs.Processor.Requests

/-!
What the counters of a processor count.

From a reset on the counters, the record of the last fault and the program
counter are sums over the steps made (`CountsFrom`), whatever is changed
between the steps: a step counts with what memory held when it was made.  The
sums are those of 64-bit counters as long as fewer than 2 ^ 64 cycles are taken,
since no count is above that of the cycles.
-/

namespace RxBoard.Processor

/-- Whether the next step meets a byte that starts no instruction. -/
def faults (processor : Processor) : Bool :=
  !processor.fetched.instruction.isRecognized

def byteAtPc (processor : Processor) : Fault :=
  ⟨processor.memory.byteAt processor.pc, processor.pc⟩

structure CountsFrom (start : UInt32) (steps : List Processor)
    (reached : Processor) : Prop where
  instructions : reached.instructions = steps.length
  cycles :
    reached.cycles = (steps.map fun step => step.step.value.1).sum
  faultCount : reached.faultCount = (steps.filter faults).length
  lastFault :
    reached.lastFault = (steps.filter faults).getLast?.map byteAtPc
  pc :
    reached.pc = start +
      UInt32.ofNat (steps.map fun step => step.fetched.size).sum

theorem perform_progress (processor : Processor)
    (instruction : Instruction) :
    let performed := (processor.perform instruction).value
    performed.instructions = processor.instructions ∧
      performed.cycles = processor.cycles ∧
      performed.pc = processor.pc := by
  cases instruction <;> exact ⟨rfl, rfl, rfl⟩

theorem instruction_of_faults {processor : Processor}
    (faulty : processor.faults = true) :
    processor.fetched.instruction =
      .unrecognized (processor.memory.byteAt processor.pc) := by
  have unrecognized : processor.fetched.instruction.isRecognized = false :=
    Bool.not_eq_true' .. ▸ faulty
  rw [← Memory.headD_value_dump processor.memory processor.pc 6]
  exact instruction_decode_of_not_recognized unrecognized

theorem perform_of_faults {processor : Processor}
    (faulty : processor.faults = true) :
    (processor.perform processor.fetched.instruction).value =
      processor.recordFault processor.byteAtPc := by
  rw [instruction_of_faults faulty]
  rfl

theorem perform_of_not_faults {processor : Processor}
    (faultless : processor.faults = false) :
    let performed := (processor.perform processor.fetched.instruction).value
    performed.faultCount = processor.faultCount ∧
      performed.lastFault = processor.lastFault := by
  unfold faults at faultless
  cases instructionEq : processor.fetched.instruction with
  | unrecognized opcode =>
      rw [instructionEq] at faultless
      cases faultless
  | _ => exact ⟨rfl, rfl⟩

/-- A fault is one more and the last one; without a fault nothing changes. -/
theorem faults_step (processor : Processor) :
    let faulty := [processor].filter faults
    processor.step.value.2.faultCount =
        processor.faultCount + faulty.length ∧
      processor.step.value.2.lastFault =
        (faulty.getLast?.map byteAtPc).or processor.lastFault := by
  intro faulty
  have split : faulty = bif processor.faults then [processor] else [] :=
    List.filter_singleton ..
  cases meets : processor.faults with
  | true =>
      have recorded := perform_of_faults meets
      rw [split, meets, cond_true]
      exact ⟨congrArg Processor.faultCount recorded,
        congrArg Processor.lastFault recorded⟩
  | false =>
      rw [split, meets, cond_false]
      exact perform_of_not_faults meets

theorem pc_step (processor : Processor) :
    processor.step.value.2.pc =
      processor.pc + UInt32.ofNat processor.fetched.size := by
  obtain ⟨_, _, pcEq⟩ :=
    perform_progress processor processor.fetched.instruction
  exact congrArg (· + UInt32.ofNat processor.fetched.size) pcEq

/-- No step stays where it is. -/
theorem pc_step_ne (processor : Processor) :
    processor.step.value.2.pc ≠ processor.pc := by
  rw [pc_step]
  intro stalled
  have noMove : UInt32.ofNat processor.fetched.size = 0 := by
    simpa using stalled
  have legal : processor.fetched.size ∈ [1, 2, 6, 7] := size_decode_mem _
  simp only [List.mem_cons, List.not_mem_nil, or_false] at legal
  rcases legal with sizeEq | sizeEq | sizeEq | sizeEq <;>
    rw [sizeEq] at noMove <;> cases noMove

namespace CountsFrom

variable {start : UInt32} {steps : List Processor}
  {processor : Processor}

theorem step_faults (counts : CountsFrom start steps processor) :
    let faulty := (steps ++ [processor]).filter faults
    processor.step.value.2.faultCount = faulty.length ∧
      processor.step.value.2.lastFault = faulty.getLast?.map byteAtPc := by
  intro faulty
  have split : faulty =
      steps.filter faults ++ [processor].filter faults :=
    List.filter_append ..
  obtain ⟨faultCountEq, lastFaultEq⟩ := faults_step processor
  rw [split, List.length_append, List.getLast?_append, Option.map_or,
    ← counts.faultCount, ← counts.lastFault]
  exact ⟨faultCountEq, lastFaultEq⟩

theorem step (counts : CountsFrom start steps processor) :
    CountsFrom start (steps ++ [processor]) processor.step.value.2 := by
  obtain ⟨instructionsEq, cyclesEq, _⟩ :=
    perform_progress processor processor.fetched.instruction
  have steppedInstructions : processor.step.value.2.instructions =
      processor.instructions + 1 := congrArg (· + 1) instructionsEq
  have steppedCycles : processor.step.value.2.cycles =
      processor.cycles + processor.step.value.1 :=
    congrArg (· + processor.step.value.1) cyclesEq
  obtain ⟨faultCountEq, lastFaultEq⟩ := counts.step_faults
  constructor
  · rw [steppedInstructions, counts.instructions, List.length_append]
    rfl
  · rw [steppedCycles, counts.cycles, List.map_append, List.sum_append]
    rfl
  · exact faultCountEq
  · exact lastFaultEq
  · rw [pc_step, counts.pc, List.map_append, List.sum_append,
      UInt32.ofNat_add, UInt32.add_assoc]
    rfl

/-- Adjustments leave the counters and the program counter alone. -/
theorem adjusted (counts : CountsFrom start steps processor)
    (adjustment : Adjustment) :
    CountsFrom start steps (processor.adjusted adjustment) := by
  cases adjustment with
  | setFlag flag value => cases flag <;> exact { counts with }
  | _ => exact { counts with }

theorem kept (start : UInt32) : KeptByExecution (CountsFrom start) where
  step _ _ counts := counts.step
  stop _ _ _ counts := { counts with }

theorem reset (processor : Processor) :
    CountsFrom (processor.memory.read32 AddressMap.resetVector).value []
      processor.reset.value :=
  ⟨rfl, rfl, rfl, rfl, (UInt32.add_zero _).symm⟩

theorem bounds_cycles (counts : CountsFrom start steps processor) :
    processor.instructions ≤ processor.cycles ∧
      processor.cycles ≤ 2 * processor.instructions := by
  have costs (cost : Nat)
      (member : cost ∈ steps.map fun step => step.step.value.1) :
      1 ≤ cost ∧ cost ≤ 2 := by
    obtain ⟨step, _, rfl⟩ := List.mem_map.mp member
    exact ⟨step_cost_pos step, cycles_decode_le _⟩
  have lower := List.length_le_sum_of_one_le _ fun cost member =>
    (costs cost member).1
  have upper := List.sum_le_card_nsmul _ 2 fun cost member =>
    (costs cost member).2
  rw [List.length_map, ← counts.cycles, ← counts.instructions] at lower
  rw [List.length_map, ← counts.cycles, ← counts.instructions,
    Nat.nsmul_eq_mul, Nat.mul_comm] at upper
  exact ⟨lower, upper⟩

theorem lastFault_eq_none_iff
    (counts : CountsFrom start steps processor) :
    processor.lastFault = none ↔ processor.faultCount = 0 := by
  rw [counts.lastFault, counts.faultCount, Option.map_eq_none_iff,
    List.getLast?_eq_none_iff, List.length_eq_zero_iff]

end CountsFrom

/-- From a reset on, whatever is executed and adjusted, the counters account
for the steps made: one or two cycles each, and the faults among them with the
byte that memory held when the step was made.  The program counter has moved on
by the sizes of all steps, none of which is zero. -/
theorem countsFrom_reset (processor : Processor)
    (requests : List Request) :
    let start := (processor.memory.read32 AddressMap.resetVector).value
    let reached := processor.reset.value.obeyAll requests
    let steps := processor.reset.value.stepsForAll requests
    CountsFrom start steps reached ∧
      (reached.instructions ≤ reached.cycles ∧
        reached.cycles ≤ 2 * reached.instructions) ∧
      (reached.lastFault = none ↔ reached.faultCount = 0) ∧
      ∀ step ∈ steps,
        step.fetched.size ∈ [1, 2, 6, 7] ∧
          step.step.value.2.pc =
            step.pc + UInt32.ofNat step.fetched.size ∧
          step.step.value.2.pc ≠ step.pc := by
  intro start reached steps
  have counts : CountsFrom start steps reached :=
    (CountsFrom.kept start).obeyAll
      (fun adjustment _ _ _ counts => counts.adjusted adjustment)
      (CountsFrom.reset processor)
  refine ⟨counts, counts.bounds_cycles, counts.lastFault_eq_none_iff, ?_⟩
  intro step _
  exact ⟨size_decode_mem _, pc_step step, pc_step_ne step⟩

end RxBoard.Processor
