import RxBoard.Processor.Basic

/-!
Execution: one step, and runs of many steps.

A step decodes the bytes at the program counter, carries out the instruction,
moves the program counter past it and charges its cycles.  An unrecognized byte
is recorded as a fault and skipped; execution never stops by itself.

A run makes steps until a budget of cycles is used up or, after the first step,
the program counter is at a breakpoint.

The budget and the cycles consumed are natural numbers for 64-bit words.  A run
consumes at most one cycle more than its budget, so runs are meant with budgets
below 2 ^ 64 - 1.
-/

namespace RxBoard.Processor

def writeResult (processor : Processor) (name : UInt8)
    (result : UInt32) : Processor :=
  (processor.setRegister name result).modifyStatus fun status =>
    status.afterResult result

def execute (processor : Processor) : Instruction → Processor
  | .nop => processor
  | .moveImmediate destination immediate =>
      processor.writeResult destination immediate
  | .moveRegister source destination =>
      processor.writeResult destination (processor.register source)
  | .addImmediate destination immediate =>
      processor.writeResult destination
        (processor.register destination + immediate)
  | .unrecognized _ => processor

def recordFault (processor : Processor) (fault : Fault) : Processor :=
  { processor with
    lastFault := some fault
    faultCount := processor.faultCount + 1 }

def advance (processor : Processor) (decoded : Decoded) : Processor :=
  { processor with
    pc := processor.pc + UInt32.ofNat decoded.size
    cycles := processor.cycles + decoded.cycles
    instructions := processor.instructions + 1 }

/-- Fetches as many bytes as the longest encoding has, and decodes them. -/
def fetch (memory : Memory) (pc : UInt32) : Logged Decoded :=
  decode <$> memory.dump pc longestEncoding

def perform (processor : Processor) (instruction : Instruction) :
    Logged Processor :=
  match instruction with
  | .unrecognized opcode => do
      let fault : Fault := ⟨opcode, processor.pc⟩
      Logged.report (.faulted fault)
      return processor.recordFault fault
  | recognized => do
      Logged.report (.executed processor.pc recognized)
      return processor.execute recognized

def step (processor : Processor) : Logged (Nat × Processor) := do
  let decoded ← fetch processor.memory processor.pc
  let performed ← processor.perform decoded.instruction
  return (decoded.cycles, performed.advance decoded)

theorem step_cost_pos (processor : Processor) :
    0 < processor.step.value.1 :=
  (fetch processor.memory processor.pc).value.cycles_pos

structure Run (σ : Type) where
  consumed : Nat
  processor : Processor
  observed : σ

def runFrom {σ : Type} (observe : Nat → σ → Logged σ) (budget : Nat)
    (consumed : Nat) (processor : Processor) (observed : σ)
    (reported : Array Event) : Logged (Run σ) :=
  if consumed < budget then
    if 0 < consumed &&
        processor.breakpoints.contains processor.pc then
      ⟨⟨consumed,
          { processor with breakpointHit := some processor.pc },
          observed⟩,
        (reported.push (.breakpointReached processor.pc)).toList⟩
    else
      let stepped := processor.step
      let next := observe stepped.value.1 observed
      runFrom observe budget (consumed + stepped.value.1)
        stepped.value.2 next.value
        (reported.appendList stepped.events |>.appendList next.events)
  else
    ⟨⟨consumed, processor, observed⟩, reported.toList⟩
termination_by budget - consumed
decreasing_by
  have costPositive := step_cost_pos processor
  omega

section

variable {σ : Type} (observe : Nat → σ → Logged σ)
  {budget consumed : Nat} (processor : Processor) (observed : σ)
  (reported : Array Event)

theorem runFrom_spent (spent : ¬consumed < budget) :
    runFrom observe budget consumed processor observed reported =
      ⟨⟨consumed, processor, observed⟩, reported.toList⟩ := by
  rw [runFrom, if_neg spent]

/-- A run ends at a breakpoint after the first step. -/
theorem runFrom_breakpoint (unspent : consumed < budget)
    (stops : (0 < consumed &&
      processor.breakpoints.contains processor.pc) = true) :
    runFrom observe budget consumed processor observed reported =
      ⟨⟨consumed,
          { processor with breakpointHit := some processor.pc },
          observed⟩,
        (reported.push (.breakpointReached processor.pc)).toList⟩ := by
  rw [runFrom, if_pos unspent, if_pos stops]

theorem runFrom_step (unspent : consumed < budget)
    (goesOn : ¬(0 < consumed &&
      processor.breakpoints.contains processor.pc) = true) :
    runFrom observe budget consumed processor observed reported =
      runFrom observe budget (consumed + processor.step.value.1)
        processor.step.value.2
        (observe processor.step.value.1 observed).value
        (reported.appendList processor.step.events |>.appendList
          (observe processor.step.value.1 observed).events) := by
  rw [runFrom, if_pos unspent, if_neg goesOn]

/-- Events that were reported before stay in front of those that follow, and
change nothing else. -/
theorem runFrom_reported :
    runFrom observe budget consumed processor observed reported =
      ⟨(runFrom observe budget consumed processor observed #[]).value,
        reported.toList ++
          (runFrom observe budget consumed processor observed
            #[]).events⟩ := by
  induction left : budget - consumed using Nat.strongRecOn
    generalizing consumed processor observed reported with
  | ind unused inductionHypothesis =>
      by_cases unspent : consumed < budget
      · by_cases stops : (0 < consumed &&
            processor.breakpoints.contains processor.pc) = true
        · simp [runFrom_breakpoint, unspent, stops]
        · have costPositive := step_cost_pos processor
          have fewer :
              budget - (consumed + processor.step.value.1) < unused := by
            omega
          rw [runFrom_step observe _ _ _ unspent stops,
            runFrom_step observe _ _ _ unspent stops,
            inductionHypothesis _ fewer _ _ _ rfl,
            inductionHypothesis _ fewer _ _
              (Array.appendList (Array.appendList #[] _) _) rfl]
          simp
      · simp [runFrom_spent, unspent]

end

/-- Makes steps until at least `budget` cycles are consumed or a breakpoint is
reached.  The observer is told the cost of each step as soon as it is made.  A
run that starts at a breakpoint goes past it. -/
def runWith {σ : Type} (processor : Processor) (budget : Nat)
    (observe : Nat → σ → Logged σ) (observed : σ) :
    Logged (Run σ) :=
  runFrom observe budget 0 { processor with breakpointHit := none }
    observed #[]

def run (processor : Processor) (budget : Nat) :
    Logged (Nat × Processor) :=
  (fun result => (result.consumed, result.processor)) <$>
    processor.runWith budget (fun _ _ => pure ()) ()

end RxBoard.Processor
