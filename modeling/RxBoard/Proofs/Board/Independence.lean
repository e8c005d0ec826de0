import RxBoard.Proofs.Board.Commands
import RxBoard.Proofs.Processor.Requests

/-!
The processor does not depend on the peripherals.

The core of a board is what is not its peripherals.  Commands that write to
peripherals leave it alone, and what all others do to it, and answer, depends on
the core only (`outcome_congr`).  In return the peripherals depend on a
processor only through the costs of its steps (`peripherals_callAll`).
-/

namespace RxBoard

structure Core where
  processor : Processor
  programStart : UInt32
  programEnd : UInt32

def Command.isPeripheralWrite : Command → Bool
  | .setPinInput _ _ => true
  | .writePeripheral _ _ _ => true
  | _ => false

namespace Board

def core (board : Board) : Core where
  processor := board.processor
  programStart := board.programStart
  programEnd := board.programEnd

def outcome (board : Board) (command : Command) : Answer × Core :=
  Prod.map id core (board.perform command).value

/-- The answer to each command that does not write to peripherals, with the
core after it. -/
def coreTrace (board : Board) : List Command → List (Answer × Core)
  | [] => []
  | first :: rest =>
      let later := (board.perform first).value.2.coreTrace rest
      if first.isPeripheralWrite then
        later
      else
        board.outcome first :: later

/-- A run of the board is a run of its processor, and its peripherals are told
of the costs of the steps. -/
theorem value_run (board : Board) (budget : Nat) :
    (board.run budget).value =
      ((board.processor.runCosts budget).sum,
        { board with
          processor := (board.processor.run budget).value.2
          peripherals :=
            tickAll board.peripherals
              (board.processor.runCosts budget) }) := by
  have unobserved :=
    Processor.value_runWith board.processor budget (fun _ _ => pure ()) ()
  have observed :=
    Processor.value_runWith board.processor budget
      (fun cycles peripherals => PeripheralBank.tick peripherals cycles)
      board.peripherals
  simp only [run, Processor.run, Logged.value_bind, Logged.value_pure,
    Logged.value_map, unobserved, observed]
  rfl

theorem core_of_isPeripheralWrite (board : Board) {command : Command}
    (writes : command.isPeripheralWrite = true) :
    (board.perform command).value.2.core = board.core := by
  cases command with
  | setPinInput pin level => rfl
  | writePeripheral name offset byte =>
      change (board.writePeripheral name offset byte).value.2.core = _
      unfold writePeripheral
      cases board.peripherals.write? name offset byte <;> rfl
  | _ => cases writes

/-- A program is loaded or refused in the same way whatever the peripherals. -/
theorem assembleAndLoad_congr {board other : Board}
    (same : board.core = other.core) (source : Text) (start : UInt32) :
    Prod.map id core (board.assembleAndLoad source start).value =
      Prod.map id core (other.assembleAndLoad source start).value := by
  by_cases complete : (Assembly.ofText source).errors = []
  · cases leads : Region.ofAddress? start with
    | none =>
        rw [assembleAndLoad_unmapped board complete leads,
          assembleAndLoad_unmapped other complete leads]
        exact congrArg (Prod.mk _) same
    | some region =>
        have mapped := Option.isSome_of_eq_some leads
        rw [assembleAndLoad_loads board complete mapped,
          assembleAndLoad_loads other complete mapped]
        have processorEq := congrArg Core.processor same
        change board.processor = other.processor at processorEq
        rw [processorEq]
        rfl
  · rw [assembleAndLoad_incomplete board start complete,
      assembleAndLoad_incomplete other start complete]
    exact congrArg (Prod.mk _) same

theorem outcome_congr {board other : Board}
    (same : board.core = other.core) {command : Command}
    (keeps : command.isPeripheralWrite = false) :
    board.outcome command = other.outcome command := by
  cases command with
  | assembleAndLoad source start =>
      exact congrArg (Prod.map Answer.report id)
        (assembleAndLoad_congr same source start)
  | setPinInput pin level => cases keeps
  | writePeripheral name offset byte => cases keeps
  | run budget =>
      rcases board with ⟨processor, bank, start, stop⟩
      rcases other with ⟨otherProcessor, otherBank, otherStart, otherStop⟩
      cases same
      simp only [outcome, perform, Logged.value_map, value_run]
      rfl
  | _ =>
      rcases board with ⟨processor, bank, start, stop⟩
      rcases other with ⟨otherProcessor, otherBank, otherStart, otherStop⟩
      cases same
      rfl

/-- Writes to peripherals can be left out, and the peripherals replaced. -/
theorem coreTrace_eq_filter {board other : Board}
    (same : board.core = other.core) (commands : List Command) :
    board.coreTrace commands =
      other.coreTrace
        (commands.filter fun command => !command.isPeripheralWrite) := by
  induction commands generalizing board other with
  | nil => rfl
  | cons first rest inductionHypothesis =>
      cases writes : first.isPeripheralWrite with
      | true =>
          have unchanged := board.core_of_isPeripheralWrite writes
          simp only [coreTrace, writes, List.filter_cons, Bool.not_true,
            Bool.false_eq_true, if_true, if_false]
          exact inductionHypothesis (unchanged.trans same)
      | false =>
          have outcomeEq := outcome_congr same writes
          simp only [coreTrace, writes, List.filter_cons, Bool.not_false,
            Bool.false_eq_true, if_true, if_false]
          rw [outcomeEq, inductionHypothesis (congrArg Prod.snd outcomeEq)]

/-- The costs of the steps that a call makes. -/
def callCosts (board : Board) : ExecutionCall → List Nat
  | .step => [board.step.value.1]
  | .run budget => board.processor.runCosts budget

def executedCosts (board : Board) : List ExecutionCall → List Nat
  | [] => []
  | first :: rest =>
      board.callCosts first ++ (board.call first).2.executedCosts rest

theorem peripherals_call (board : Board) (made : ExecutionCall) :
    (board.call made).2.peripherals =
      tickAll board.peripherals (board.callCosts made) := by
  cases made with
  | step => rfl
  | run budget =>
      change (board.run budget).value.2.peripherals = _
      rw [value_run]
      rfl

theorem peripherals_callAll (board : Board) (calls : List ExecutionCall) :
    (board.callAll calls).2.peripherals =
      tickAll board.peripherals (board.executedCosts calls) := by
  induction calls generalizing board with
  | nil => rfl
  | cons first rest inductionHypothesis =>
      rw [executedCosts, tickAll_append, ← peripherals_call]
      exact inductionHypothesis (board.call first).2

/-- Sessions that differ in writes to peripherals only have the same answers
and cores after all other commands, from any peripherals.  And steps of the same
costs let any processors leave peripherals alike that were alike. -/
theorem core_peripherals_independent (board other : Board) :
    (board.core = other.core →
      ∀ commands others : List Command,
        (commands.filter fun command => !command.isPeripheralWrite) =
          (others.filter fun command => !command.isPeripheralWrite) →
        board.coreTrace commands = other.coreTrace others) ∧
    (board.peripherals = other.peripherals →
      ∀ calls others : List ExecutionCall,
        board.executedCosts calls = other.executedCosts others →
        (board.callAll calls).2.peripherals =
          (other.callAll others).2.peripherals) := by
  constructor
  · intro same commands others remaining
    rw [coreTrace_eq_filter same commands, remaining,
      ← coreTrace_eq_filter rfl others]
  · intro same calls others costsEq
    rw [peripherals_callAll, peripherals_callAll, same, costsEq]

/-- A run for one cycle makes one step. -/
theorem callCosts_run_one (board : Board) :
    board.callCosts (.run 1) = board.callCosts .step := by
  have start := board.processor.value_step_withHit none
  have costPositive := Processor.step_cost_pos board.processor
  have goesOn : ¬(0 < 0 && (board.processor.withHit none).breakpoints.contains
      (board.processor.withHit none).pc) = true := by simp
  change (Processor.runFrom _ 1 0 (board.processor.withHit none) []
    #[]).value.observed = _
  rw [Processor.runFrom_step _ _ _ _ Nat.one_pos goesOn, start,
    Processor.runFrom_spent _ _ _ _ (by simp only; omega)]
  rfl

theorem core_peripherals_independent_powerOn :
    let board := powerOn.value
    let pressed := board.setPinInput 3 true
    let halting := board.addBreakpoint 0x1000
    let commands : List Command :=
      [.step, .setPinInput 0 true, .run 5, .toggleBreakpoint 0x1000]
    let others : List Command :=
      [.writePeripheral "timer" 8 1, .step, .run 5,
        .toggleBreakpoint 0x1000]
    (board.core = pressed.core ∧
      board.coreTrace commands = pressed.coreTrace others) ∧
    board.peripherals = halting.peripherals ∧
      board.executedCosts [.step] = halting.executedCosts [.run 1] ∧
      (board.callAll [.step]).2.peripherals =
        (halting.callAll [.run 1]).2.peripherals := by
  intro board pressed halting commands others
  have sameCore : board.core = pressed.core := rfl
  have sameBank : board.peripherals = halting.peripherals := rfl
  -- For any board, as the cost at power-on need not be known.
  have sameCosts (any : Board) : any.executedCosts [.step] =
      (any.addBreakpoint 0x1000).executedCosts [.run 1] := by
    simp only [executedCosts, List.append_nil, callCosts_run_one]
    rfl
  exact ⟨⟨sameCore,
      (core_peripherals_independent board pressed).1 sameCore commands
        others rfl⟩,
    sameBank, sameCosts board,
    (core_peripherals_independent board halting).2 sameBank _ _
      (sameCosts board)⟩

end Board

end RxBoard
