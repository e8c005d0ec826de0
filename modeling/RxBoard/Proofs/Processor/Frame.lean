import RxBoard.Proofs.Processor.Stepping

/-!
What execution leaves alone.

Instructions work on registers and flags only, so memory and the breakpoints
outlast any number of steps.  Memory matters to a step through what is fetched
from it (`value_step_withStore`).
-/

namespace RxBoard.Processor

def withStore (processor : Processor) (memory : Memory) : Processor :=
  { processor with memory }

theorem value_perform_withStore (processor : Processor) (memory : Memory)
    (instruction : Instruction) :
    ((processor.withStore memory).perform instruction).value =
      (processor.perform instruction).value.withStore memory := by
  cases instruction <;> rfl

theorem value_step_withStore (processor : Processor) {memory : Memory}
    (same : (fetch memory processor.pc).value =
      (fetch processor.memory processor.pc).value) :
    (processor.withStore memory).step.value =
      (processor.step.value.1, processor.step.value.2.withStore memory) := by
  have performed := value_perform_withStore processor memory
    (fetch processor.memory processor.pc).value.instruction
  change ((fetch memory processor.pc).value.cycles,
    ((processor.withStore memory).perform
      (fetch memory processor.pc).value.instruction).value.advance
        (fetch memory processor.pc).value) = _
  rw [same, performed]
  rfl

theorem memory_step (processor : Processor) :
    processor.step.value.2.memory = processor.memory := by
  have same : (fetch processor.memory processor.pc).value =
      (fetch processor.memory processor.pc).value := rfl
  have stepped := value_step_withStore processor same
  exact congrArg (fun result => result.2.memory) stepped

theorem breakpoints_perform (processor : Processor)
    (instruction : Instruction) :
    (processor.perform instruction).value.breakpoints =
      processor.breakpoints := by
  cases instruction <;> rfl

theorem breakpoints_step (processor : Processor) :
    processor.step.value.2.breakpoints = processor.breakpoints :=
  breakpoints_perform processor
    (fetch processor.memory processor.pc).value.instruction

theorem memory_afterSteps (processor : Processor) (count : Nat) :
    (processor.afterSteps count).memory = processor.memory := by
  induction count generalizing processor with
  | zero => rfl
  | succ count inductionHypothesis =>
      rw [afterSteps, inductionHypothesis, memory_step]

theorem breakpoints_afterSteps (processor : Processor) (count : Nat) :
    (processor.afterSteps count).breakpoints = processor.breakpoints := by
  induction count generalizing processor with
  | zero => rfl
  | succ count inductionHypothesis =>
      rw [afterSteps, inductionHypothesis, breakpoints_step]

end RxBoard.Processor
