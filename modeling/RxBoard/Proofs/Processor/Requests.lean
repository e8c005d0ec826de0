import RxBoard.Proofs.Memory.Flat
import RxBoard.Proofs.Processor.Frame

/-!
A processor under requests from outside.

A request makes the processor execute, or adjusts it between executions.
`stepsFor` lists the states in which a request makes its steps.  What each step
and each end of a run keeps true of the steps made so far and the state reached,
executions keep true (`KeptByExecution.executed`); with adjustments in between
it is enough that these keep it too (`KeptByExecution.obeyAll`).
-/

namespace RxBoard

inductive Execution where
  | step
  | run (budget : Nat)

inductive Flag where
  | interruptsEnabled
  | overflow
  | sign
  | zero
  | carry

/-- The ways to change a processor between executions other than a reset and
moving the program counter. -/
inductive Adjustment where
  | setRegister (name : UInt8) (value : UInt32)
  | setFlag (flag : Flag) (value : Bool)
  | setPriorityLevel (level : UInt8)
  | changeMemory (operation : MemoryOperation)
  | addBreakpoint (address : UInt32)
  | removeBreakpoint (address : UInt32)
  | toggleBreakpoint (address : UInt32)
  | clearBreakpoints

inductive Request where
  | execute (execution : Execution)
  | adjust (adjustment : Adjustment)

namespace Processor

def executed (processor : Processor) : Execution → Processor
  | .step => processor.step.value.2
  | .run budget => (processor.run budget).value.2

def setFlag (processor : Processor) (flag : Flag) (value : Bool) :
    Processor :=
  match flag with
  | .interruptsEnabled => processor.setInterruptsEnabled value
  | .overflow => processor.setOverflow value
  | .sign => processor.setSign value
  | .zero => processor.setZero value
  | .carry => processor.setCarry value

def adjusted (processor : Processor) : Adjustment → Processor
  | .setRegister name value => processor.setRegister name value
  | .setFlag flag value => processor.setFlag flag value
  | .setPriorityLevel level => processor.setPriorityLevel level
  | .changeMemory operation =>
      processor.withStore (processor.memory.after operation)
  | .addBreakpoint address => processor.addBreakpoint address
  | .removeBreakpoint address => (processor.removeBreakpoint address).2
  | .toggleBreakpoint address => (processor.toggleBreakpoint address).2
  | .clearBreakpoints => processor.clearBreakpoints

def obey (processor : Processor) : Request → Processor
  | .execute execution => processor.executed execution
  | .adjust adjustment => processor.adjusted adjustment

def obeyAll (processor : Processor) (requests : List Request) :
    Processor :=
  requests.foldl obey processor

def fetched (processor : Processor) : Decoded :=
  (fetch processor.memory processor.pc).value

/-- The costs that the observer of a run is told, one for each step. -/
def runCosts (processor : Processor) (budget : Nat) : List Nat :=
  (processor.runWith budget
    (fun cost costs => pure (costs ++ [cost])) []).value.observed

/-- The states in which steps in sequence are made. -/
def stepStates (processor : Processor) : Nat → List Processor
  | 0 => []
  | count + 1 => processor :: processor.step.value.2.stepStates count

def stepsFor (processor : Processor) : Request → List Processor
  | .execute .step => [processor]
  | .execute (.run budget) =>
      (processor.withHit none).stepStates
        (processor.runCosts budget).length
  | .adjust _ => []

def stepsForAll (processor : Processor) : List Request → List Processor
  | [] => []
  | request :: rest =>
      processor.stepsFor request ++ (processor.obey request).stepsForAll rest

theorem foldl_collect (observed costs : List Nat) :
    costs.foldl (fun state cost =>
        (pure (state ++ [cost]) : Logged (List Nat)).value) observed =
      observed ++ costs := by
  induction costs generalizing observed with
  | nil => exact (List.append_nil observed).symm
  | cons cost rest inductionHypothesis =>
      rw [List.foldl_cons, inductionHypothesis, Logged.value_pure,
        List.append_assoc, List.singleton_append]

/-- The costs that an observer is told are those of the steps up to the first
place where the run ends. -/
theorem endsAfter_runCosts (processor : Processor) (budget : Nat) :
    let started := processor.withHit none
    let count := (processor.runCosts budget).length
    processor.runCosts budget = started.stepCosts count ∧
      EndsAfter budget 0 started count ∧
      ∀ fewer, fewer < count → ¬EndsAfter budget 0 started fewer := by
  intro started
  obtain ⟨count, ends, least, value⟩ :=
    runFrom_value (fun cost costs => pure (costs ++ [cost])) budget 0
      started [] #[] rfl
  have costsEq : processor.runCosts budget = started.stepCosts count := by
    refine (congrArg Run.observed value).trans ?_
    rw [foldl_collect, List.nil_append]
  rw [costsEq, length_stepCosts]
  exact ⟨rfl, ends, least⟩

/-- The observer of a run is told the costs of its steps, and the run does not
depend on the observer. -/
theorem value_runWith {σ : Type} (processor : Processor) (budget : Nat)
    (observe : Nat → σ → Logged σ) (observed : σ) :
    (processor.runWith budget observe observed).value =
      ⟨(processor.runCosts budget).sum,
        ((processor.withHit none).afterSteps
          (processor.runCosts budget).length).withHit
            (hitAfter budget 0 (processor.withHit none)
              (processor.runCosts budget).length),
        (processor.runCosts budget).foldl
          (fun state cost => (observe cost state).value) observed⟩ := by
  obtain ⟨costsEq, ends, least⟩ := processor.endsAfter_runCosts budget
  obtain ⟨count, countEnds, countLeast, value⟩ :=
    runFrom_value observe budget 0 (processor.withHit none) observed #[] rfl
  have countEq := eq_of_least_endsAfter countEnds countLeast ends least
  rw [countEq, ← costsEq, Nat.zero_add] at value
  exact value

theorem run_eq_afterSteps_runCosts (processor : Processor) (budget : Nat) :
    ∃ hit, (processor.run budget).value.2 =
      ((processor.withHit none).afterSteps
        (processor.runCosts budget).length).withHit hit :=
  ⟨_, congrArg Run.processor
    (value_runWith processor budget (fun _ _ => pure ()) ())⟩

/-- Whether steps and the ends of runs keep a statement about the steps made so
far and the state that is reached. -/
structure KeptByExecution
    (statement : List Processor → Processor → Prop) : Prop where
  step : ∀ steps processor, statement steps processor →
    statement (steps ++ [processor]) processor.step.value.2
  stop : ∀ steps processor hit, statement steps processor →
    statement steps (processor.withHit hit)

namespace KeptByExecution

variable {statement : List Processor → Processor → Prop}
  {steps : List Processor} {processor : Processor}

theorem afterSteps (kept : KeptByExecution statement)
    (holds : statement steps processor) (count : Nat) :
    statement (steps ++ processor.stepStates count)
      (processor.afterSteps count) := by
  induction count generalizing steps processor with
  | zero =>
      rw [stepStates, List.append_nil]
      exact holds
  | succ count inductionHypothesis =>
      have rest := inductionHypothesis (kept.step steps processor holds)
      rw [List.append_assoc] at rest
      exact rest

theorem executed (kept : KeptByExecution statement)
    (holds : statement steps processor) (execution : Execution) :
    statement (steps ++ processor.stepsFor (.execute execution))
      (processor.executed execution) := by
  cases execution with
  | step => exact kept.step steps processor holds
  | run budget =>
      obtain ⟨hit, ranEq⟩ := run_eq_afterSteps_runCosts processor budget
      have started := kept.stop steps processor none holds
      have stepped :=
        kept.afterSteps started (processor.runCosts budget).length
      rw [Processor.executed, ranEq]
      exact kept.stop _ _ hit stepped

theorem obeyAll (kept : KeptByExecution statement)
    {requests : List Request}
    (keptByAdjustment : ∀ adjustment,
      Request.adjust adjustment ∈ requests → ∀ steps processor,
        statement steps processor →
          statement steps (processor.adjusted adjustment))
    (holds : statement steps processor) :
    statement (steps ++ processor.stepsForAll requests)
      (processor.obeyAll requests) := by
  induction requests generalizing steps processor with
  | nil =>
      rw [stepsForAll, List.append_nil]
      exact holds
  | cons request rest inductionHypothesis =>
      have obeyed : statement (steps ++ processor.stepsFor request)
          (processor.obey request) := by
        cases request with
        | execute execution => exact kept.executed holds execution
        | adjust adjustment =>
            rw [stepsFor, List.append_nil]
            exact keptByAdjustment adjustment List.mem_cons_self steps
              processor holds
      have restKept := inductionHypothesis
        (fun adjustment member =>
          keptByAdjustment adjustment (List.mem_cons_of_mem request member))
        obeyed
      rw [List.append_assoc] at restKept
      exact restKept

end KeptByExecution

end Processor

end RxBoard
