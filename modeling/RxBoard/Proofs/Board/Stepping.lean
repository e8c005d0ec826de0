import RxBoard.Board
import RxBoard.Proofs.Processor.Stepping

/-!
Runs of the board as sequences of its single steps.

The processor does not depend on the peripherals, and the peripherals are told
of the same costs in the same order by steps and by a run.  So a run leaves the
board as the least sufficient number of single steps leaves it, apart from the
record of where the run stopped.
-/

namespace RxBoard.Board

def afterSteps (board : Board) : Nat → Board
  | 0 => board
  | count + 1 => board.step.value.2.afterSteps count

def stepCosts (board : Board) : Nat → List Nat
  | 0 => []
  | count + 1 => board.step.value.1 :: board.step.value.2.stepCosts count

def withHit (board : Board) (hit : Option UInt32) : Board :=
  { board with processor := board.processor.withHit hit }

/-- Whether a number of single steps uses up a budget of cycles or, being at
least one step, reaches a breakpoint. -/
def StopsAfter (board : Board) (budget count : Nat) : Prop :=
  budget ≤ (board.stepCosts count).sum ∨
    1 ≤ count ∧
      (board.afterSteps count).processor.breakpoints.contains
        (board.afterSteps count).processor.pc = true

def tickAll (peripherals : PeripheralBank) (costs : List Nat) :
    PeripheralBank :=
  costs.foldl (fun bank cost => (bank.tick cost).value) peripherals

theorem tickAll_append (peripherals : PeripheralBank)
    (costs others : List Nat) :
    tickAll peripherals (costs ++ others) =
      tickAll (tickAll peripherals costs) others :=
  List.foldl_append

theorem stepCosts_eq (board : Board) (count : Nat) :
    board.stepCosts count = board.processor.stepCosts count := by
  induction count generalizing board with
  | zero => rfl
  | succ count inductionHypothesis =>
      rw [stepCosts, inductionHypothesis]
      rfl

theorem afterSteps_eq (board : Board) (count : Nat) :
    board.afterSteps count =
      { board with
        processor := board.processor.afterSteps count
        peripherals :=
          tickAll board.peripherals (board.processor.stepCosts count) } := by
  induction count generalizing board with
  | zero => rfl
  | succ count inductionHypothesis =>
      rw [afterSteps, inductionHypothesis]
      rfl

theorem processor_afterSteps (board : Board) (count : Nat) :
    (board.afterSteps count).processor =
      board.processor.afterSteps count :=
  congrArg Board.processor (afterSteps_eq board count)

theorem stopsAfter_iff (board : Board) (budget count : Nat) :
    board.StopsAfter budget count ↔
      Processor.EndsAfter budget 0 (board.processor.withHit none)
        count := by
  have counted :=
    Processor.sum_stepCosts_pos board.processor count
  simp only [StopsAfter, Processor.EndsAfter, stepCosts_eq,
    afterSteps_eq, Processor.stepCosts_withHit,
    Processor.afterSteps_withHit, Nat.zero_add, counted]
  exact Iff.rfl

/-- A run makes the least number of single steps that uses up its budget or
reaches a breakpoint, returns their cost, and leaves the board as they leave
it; it then records the breakpoint exactly if the budget is not used up. -/
theorem value_run_eq_afterSteps (board : Board) (budget : Nat) :
    ∃ count, board.StopsAfter budget count ∧
      (∀ fewer, fewer < count → ¬board.StopsAfter budget fewer) ∧
      (board.run budget).value =
        ((board.stepCosts count).sum,
          (board.afterSteps count).withHit
            (if (board.stepCosts count).sum < budget then
              some (board.afterSteps count).processor.pc
            else
              none)) := by
  obtain ⟨count, ends, least, value⟩ :=
    Processor.runFrom_value
      (fun cycles peripherals => peripherals.tick cycles)
      budget 0 (board.processor.withHit none) board.peripherals #[] rfl
  refine ⟨count, (stopsAfter_iff ..).mpr ends, ?_, ?_⟩
  · intro fewer fewerLess stops
    exact least fewer fewerLess ((stopsAfter_iff ..).mp stops)
  · have ran :
        (board.run budget).value =
          let result :=
            (Processor.runFrom
              (fun cycles peripherals =>
                PeripheralBank.tick peripherals cycles)
              budget 0 (board.processor.withHit none)
              board.peripherals #[]).value
          (result.consumed,
            { board with
              processor := result.processor
              peripherals := result.observed }) := rfl
    rw [ran, value, stepCosts_eq, afterSteps_eq]
    simp only [Processor.hitAfter, Processor.stepCosts_withHit,
      Processor.afterSteps_withHit, Nat.zero_add]
    rfl

theorem exists_value_run (board : Board) (budget : Nat) :
    ∃ count hit,
      (board.run budget).value =
        ((board.stepCosts count).sum,
          (board.afterSteps count).withHit hit) := by
  let observe := fun cycles (bank : PeripheralBank) => bank.tick cycles
  let start := board.processor.withHit none
  obtain ⟨count, _ends, _least, value⟩ :=
    Processor.runFrom_value observe budget 0 start board.peripherals #[]
      rfl
  have ran :
      (board.run budget).value =
        let result := (Processor.runFrom observe budget 0 start
          board.peripherals #[]).value
        (result.consumed,
          { board with
            processor := result.processor
            peripherals := result.observed }) := rfl
  refine ⟨count, Processor.hitAfter budget 0 start count, ?_⟩
  rw [ran, value, stepCosts_eq, afterSteps_eq,
    Processor.afterSteps_withHit, Processor.stepCosts_withHit,
    Nat.zero_add]
  rfl

inductive ExecutionCall where
  | step
  | run (budget : Nat)

def call (board : Board) : ExecutionCall → Nat × Board
  | .step => board.step.value
  | .run budget => (board.run budget).value

def callAll (board : Board) : List ExecutionCall → Nat × Board
  | [] => (0, board)
  | first :: rest =>
      let called := board.call first
      let remaining := called.2.callAll rest
      (called.1 + remaining.1, remaining.2)

theorem exists_costs_call (board : Board) (made : ExecutionCall) :
    ∃ costs : List Nat, (∀ cost ∈ costs, 1 ≤ cost ∧ cost ≤ 2) ∧
      (board.call made).1 = costs.sum ∧
      (board.call made).2.peripherals =
        tickAll board.peripherals costs := by
  cases made with
  | step =>
      exact ⟨board.processor.stepCosts 1,
        Processor.bounds_stepCosts board.processor 1, rfl, rfl⟩
  | run budget =>
      obtain ⟨count, hit, ran⟩ := board.exists_value_run budget
      refine ⟨board.stepCosts count, ?_, ?_, ?_⟩
      · rw [stepCosts_eq]
        exact Processor.bounds_stepCosts board.processor count
      · exact congrArg Prod.fst ran
      · rw [call, ran, afterSteps_eq, stepCosts_eq]
        rfl

/-- Calls let the peripherals pass the cycles of one instruction at a time. -/
theorem exists_costs_callAll (board : Board)
    (calls : List ExecutionCall) :
    ∃ costs : List Nat, (∀ cost ∈ costs, 1 ≤ cost ∧ cost ≤ 2) ∧
      (board.callAll calls).1 = costs.sum ∧
      (board.callAll calls).2.peripherals =
        tickAll board.peripherals costs := by
  induction calls generalizing board with
  | nil => exact ⟨[], List.forall_mem_nil _, rfl, rfl⟩
  | cons first rest inductionHypothesis =>
      obtain ⟨costs, bounds, sumEq, bankEq⟩ :=
        board.exists_costs_call first
      obtain ⟨others, otherBounds, otherSumEq, otherBankEq⟩ :=
        inductionHypothesis (board.call first).2
      refine ⟨costs ++ others, ?_, ?_, ?_⟩
      · exact List.forall_mem_append.mpr ⟨bounds, otherBounds⟩
      · rw [List.sum_append, ← sumEq, ← otherSumEq]
        rfl
      · rw [tickAll_append, ← bankEq]
        exact otherBankEq

end RxBoard.Board
