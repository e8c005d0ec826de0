import Mathlib.Algebra.Order.Ring.Int
import RxBoard.Processor.Execution
import RxBoard.Proofs.Instruction.Codec

/-!
Runs as sequences of single steps.

A run makes the least number of steps after which its budget is used up or,
from the first step on, a breakpoint is reached; `runFrom_value` gives its
result in terms of these steps.
-/

namespace RxBoard.Processor

def afterSteps (processor : Processor) : Nat → Processor
  | 0 => processor
  | count + 1 => processor.step.value.2.afterSteps count

def stepCosts (processor : Processor) : Nat → List Nat
  | 0 => []
  | count + 1 =>
      processor.step.value.1 :: processor.step.value.2.stepCosts count

def withHit (processor : Processor) (hit : Option UInt32) : Processor :=
  { processor with breakpointHit := hit }

theorem length_stepCosts (processor : Processor) (count : Nat) :
    (processor.stepCosts count).length = count := by
  induction count generalizing processor with
  | zero => rfl
  | succ count inductionHypothesis =>
      rw [stepCosts, List.length_cons, inductionHypothesis]

theorem sum_stepCosts_pos (processor : Processor) (count : Nat) :
    0 < (processor.stepCosts count).sum ↔ 0 < count := by
  cases count with
  | zero => simp [stepCosts]
  | succ count =>
      have costPositive := step_cost_pos processor
      simp only [stepCosts, List.sum_cons]
      omega

theorem bounds_stepCosts (processor : Processor) (count : Nat) :
    ∀ cost ∈ processor.stepCosts count, 1 ≤ cost ∧ cost ≤ 2 := by
  induction count generalizing processor with
  | zero => exact List.forall_mem_nil _
  | succ count inductionHypothesis =>
      refine List.forall_mem_cons.mpr ⟨⟨step_cost_pos processor, ?_⟩,
        inductionHypothesis processor.step.value.2⟩
      exact cycles_decode_le _

theorem value_perform_withHit (processor : Processor)
    (hit : Option UInt32) (instruction : Instruction) :
    ((processor.withHit hit).perform instruction).value =
      (processor.perform instruction).value.withHit hit := by
  cases instruction <;> rfl

theorem value_step_withHit (processor : Processor)
    (hit : Option UInt32) :
    (processor.withHit hit).step.value =
      (processor.step.value.1, processor.step.value.2.withHit hit) := by
  have performed := value_perform_withHit processor hit
    (fetch processor.memory processor.pc).value.instruction
  change (_, (((processor.withHit hit).perform
      (fetch processor.memory processor.pc).value.instruction).value).advance
        (fetch processor.memory processor.pc).value) = _
  rw [performed]
  rfl

theorem breakpointHit_step (processor : Processor) :
    processor.step.value.2.breakpointHit = processor.breakpointHit := by
  have stepped := value_step_withHit processor processor.breakpointHit
  exact congrArg (fun result => result.2.breakpointHit) stepped

theorem afterSteps_withHit (processor : Processor)
    (hit : Option UInt32) (count : Nat) :
    (processor.withHit hit).afterSteps count =
      (processor.afterSteps count).withHit hit := by
  induction count generalizing processor with
  | zero => rfl
  | succ count inductionHypothesis =>
      simp only [afterSteps, value_step_withHit, inductionHypothesis]

theorem stepCosts_withHit (processor : Processor)
    (hit : Option UInt32) (count : Nat) :
    (processor.withHit hit).stepCosts count =
      processor.stepCosts count := by
  induction count generalizing processor with
  | zero => rfl
  | succ count inductionHypothesis =>
      simp only [stepCosts, value_step_withHit, inductionHypothesis]

/-- Whether a run that has consumed some cycles ends after a number of further
steps, if it gets that far. -/
def EndsAfter (budget consumed : Nat) (processor : Processor)
    (count : Nat) : Prop :=
  budget ≤ consumed + (processor.stepCosts count).sum ∨
    0 < consumed + (processor.stepCosts count).sum ∧
      (processor.afterSteps count).breakpoints.contains
        (processor.afterSteps count).pc = true

theorem endsAfter_succ (budget consumed : Nat) (processor : Processor)
    (count : Nat) :
    EndsAfter budget consumed processor (count + 1) ↔
      EndsAfter budget (consumed + processor.step.value.1)
        processor.step.value.2 count := by
  simp only [EndsAfter, stepCosts, afterSteps, List.sum_cons,
    Nat.add_assoc]

/-- Where a run ends does not depend on its observer. -/
theorem eq_of_least_endsAfter {budget consumed : Nat}
    {processor : Processor} {count other : Nat}
    (ends : EndsAfter budget consumed processor count)
    (least : ∀ fewer, fewer < count →
      ¬EndsAfter budget consumed processor fewer)
    (otherEnds : EndsAfter budget consumed processor other)
    (otherLeast : ∀ fewer, fewer < other →
      ¬EndsAfter budget consumed processor fewer) :
    count = other := by
  apply Nat.le_antisymm
  · exact Nat.le_of_not_lt fun fewer => least other fewer otherEnds
  · exact Nat.le_of_not_lt fun fewer => otherLeast count fewer ends

/-- Where a run that ends after a number of steps has stopped. -/
def hitAfter (budget consumed : Nat) (processor : Processor)
    (count : Nat) : Option UInt32 :=
  if consumed + (processor.stepCosts count).sum < budget then
    some (processor.afterSteps count).pc
  else
    none

theorem hitAfter_succ (budget consumed : Nat) (processor : Processor)
    (count : Nat) :
    hitAfter budget consumed processor (count + 1) =
      hitAfter budget (consumed + processor.step.value.1)
        processor.step.value.2 count := by
  unfold hitAfter
  rw [stepCosts, List.sum_cons, ← Nat.add_assoc]
  rfl

theorem runFrom_value {σ : Type} (observe : Nat → σ → Logged σ)
    (budget consumed : Nat) (processor : Processor) (observed : σ)
    (reported : Array Event) (noHit : processor.breakpointHit = none) :
    ∃ count, EndsAfter budget consumed processor count ∧
      (∀ fewer, fewer < count →
        ¬EndsAfter budget consumed processor fewer) ∧
      (runFrom observe budget consumed processor observed
          reported).value =
        ⟨consumed + (processor.stepCosts count).sum,
          (processor.afterSteps count).withHit
            (hitAfter budget consumed processor count),
          (processor.stepCosts count).foldl
            (fun state cost => (observe cost state).value) observed⟩ := by
  induction left : budget - consumed using Nat.strongRecOn
    generalizing consumed processor observed reported with
  | ind unused inductionHypothesis =>
      by_cases unspent : consumed < budget
      · by_cases stops : (0 < consumed &&
            processor.breakpoints.contains processor.pc) = true
        · refine ⟨0, ?_, by simp, ?_⟩
          · simpa [EndsAfter, stepCosts, afterSteps] using Or.inr stops
          · rw [runFrom_breakpoint observe _ _ _ unspent stops]
            simp [hitAfter, stepCosts, afterSteps, withHit, unspent]
        · -- One step, and then the rest of the run by induction.
          have costPositive := step_cost_pos processor
          obtain ⟨count, ends, least, value⟩ :=
            inductionHypothesis
              (budget - (consumed + processor.step.value.1))
              (by omega) (consumed + processor.step.value.1)
              processor.step.value.2
              (observe processor.step.value.1 observed).value
              (reported.appendList processor.step.events |>.appendList
                (observe processor.step.value.1 observed).events)
              ((breakpointHit_step processor).trans noHit) rfl
          refine ⟨count + 1, (endsAfter_succ ..).mpr ends, ?_, ?_⟩
          · intro fewer fewerLess
            cases fewer with
            | zero =>
                simp only [EndsAfter, stepCosts, afterSteps,
                  List.sum_nil, Nat.add_zero]
                simpa [unspent] using stops
            | succ fewer =>
                rw [endsAfter_succ]
                exact least fewer (by omega)
          · rw [runFrom_step observe _ _ _ unspent stops, value,
              hitAfter_succ, stepCosts, List.sum_cons, List.foldl_cons,
              ← Nat.add_assoc]
            rfl
      · refine ⟨0, ?_, by simp, ?_⟩
        · left
          simp only [stepCosts, List.sum_nil]
          omega
        · rw [runFrom_spent observe _ _ _ unspent]
          have same : processor.withHit none = processor := by
            rw [← noHit]
            rfl
          simp [hitAfter, stepCosts, afterSteps, unspent, same]

end RxBoard.Processor
