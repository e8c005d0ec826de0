import Mathlib.Algebra.Order.BigOperators.Group.List
import Mathlib.Algebra.Order.Ring.Nat
import RxBoard.Proofs.Processor.Requests

/-!
What a budget allows a run.

A step takes one or two cycles, and none is made once the budget is used up.  So
a run makes at most one step for each cycle of its budget and goes past the
budget by at most one cycle; it stays below only where a breakpoint stops it
(`runWith_keepsTo_budget`).
-/

namespace RxBoard.Processor

theorem stepCosts_succ (processor : Processor) (count : Nat) :
    processor.stepCosts (count + 1) =
      processor.stepCosts count ++
        [(processor.afterSteps count).step.value.1] := by
  induction count generalizing processor with
  | zero => rfl
  | succ count inductionHypothesis =>
      rw [stepCosts, inductionHypothesis]
      rfl

theorem le_sum_stepCosts (processor : Processor) (count : Nat) :
    count ≤ (processor.stepCosts count).sum := by
  have longEnough := List.length_le_sum_of_one_le
    (processor.stepCosts count)
    (fun cost member => (bounds_stepCosts processor count cost member).1)
  rw [length_stepCosts] at longEnough
  exact longEnough

theorem endsAfter_withHit (budget consumed : Nat) (processor : Processor)
    (hit : Option UInt32) (count : Nat) :
    EndsAfter budget consumed (processor.withHit hit) count ↔
      EndsAfter budget consumed processor count := by
  rw [EndsAfter, stepCosts_withHit, afterSteps_withHit]
  exact Iff.rfl

theorem hitAfter_withHit (budget consumed : Nat) (processor : Processor)
    (hit : Option UInt32) (count : Nat) :
    hitAfter budget consumed (processor.withHit hit) count =
      hitAfter budget consumed processor count := by
  rw [hitAfter, stepCosts_withHit, afterSteps_withHit]
  rfl

section

variable {processor : Processor} {budget count : Nat}
  (least : ∀ fewer, fewer < count →
    ¬EndsAfter budget 0 processor fewer)

include least

theorem sum_stepCosts_lt_of_least {fewer : Nat}
    (fewerLess : fewer < count) :
    (processor.stepCosts fewer).sum < budget := by
  refine Nat.lt_of_not_le fun spent => least fewer fewerLess (Or.inl ?_)
  rw [Nat.zero_add]
  exact spent

theorem le_budget_of_least : count ≤ budget := by
  cases count with
  | zero => exact Nat.zero_le budget
  | succ fewer =>
      have unspent := sum_stepCosts_lt_of_least least fewer.lt_succ_self
      have charged := le_sum_stepCosts processor fewer
      exact Nat.lt_of_le_of_lt charged unspent

theorem sum_stepCosts_le_of_least :
    (processor.stepCosts count).sum ≤ budget + 1 := by
  cases count with
  | zero => exact Nat.zero_le _
  | succ fewer =>
      have unspent := sum_stepCosts_lt_of_least least fewer.lt_succ_self
      have lastCost :
          (processor.afterSteps fewer).step.value.1 ≤ 2 :=
        cycles_decode_le _
      rw [stepCosts_succ, List.sum_append, List.sum_singleton]
      omega

/-- Only the first step is made at a breakpoint. -/
theorem contains_eq_false_of_least {index : Nat} (later : 0 < index)
    (made : index < count) :
    (processor.afterSteps index).breakpoints.contains
      (processor.afterSteps index).pc = false := by
  have consumedSome : 0 < (processor.stepCosts index).sum :=
    (sum_stepCosts_pos processor index).mpr later
  rw [← Bool.not_eq_true]
  intro stops
  refine least index made (Or.inr ⟨?_, stops⟩)
  rw [Nat.zero_add]
  exact consumedSome

end

/-- A run that ends before its budget is used up ends at a breakpoint. -/
theorem EndsAfter.stops {processor : Processor} {budget count : Nat}
    (ends : EndsAfter budget 0 processor count)
    (unspent : (processor.stepCosts count).sum < budget) :
    0 < count ∧
      (processor.afterSteps count).breakpoints.contains
        (processor.afterSteps count).pc = true := by
  rw [EndsAfter, Nat.zero_add, sum_stepCosts_pos] at ends
  exact ends.resolve_left (Nat.not_le.mpr unspent)

/-- Whether a run from a state made steps with the given costs and stopped in
time: when its budget was used up or at a breakpoint, where it looks only from
the second step on. -/
structure Run.KeepsTo {σ : Type} (ran : Run σ) (budget : Nat)
    (start : Processor) (costs : List Nat) : Prop where
  costs_eq : costs = start.stepCosts costs.length
  reached : ran.processor =
    (start.afterSteps costs.length).withHit ran.processor.breakpointHit
  steps_le : costs.length ≤ budget
  consumed_eq : ran.consumed = costs.sum
  consumed_le : ran.consumed ≤ budget + 1
  /-- The sum of the first costs fits in 64 bits, however many they are. -/
  sum_lt : budget < UInt64.size - 1 →
    ∀ count, (costs.take count).sum < UInt64.size
  stopped_iff :
    ran.consumed < budget ↔ ran.processor.breakpointHit.isSome = true
  stopped_at : ∀ address, ran.processor.breakpointHit = some address →
    address = ran.processor.pc ∧
      start.breakpoints.contains address = true ∧ 0 < costs.length
  passed : ∀ index, 0 < index → index < costs.length →
    start.breakpoints.contains (start.afterSteps index).pc = false

theorem keepsTo_of_endsAfter {σ : Type} {start : Processor}
    {budget count : Nat} (ends : EndsAfter budget 0 start count)
    (least : ∀ fewer, fewer < count → ¬EndsAfter budget 0 start fewer)
    (observed : σ) :
    Run.KeepsTo
      ⟨(start.stepCosts count).sum,
        (start.afterSteps count).withHit (hitAfter budget 0 start count),
        observed⟩
      budget start (start.stepCosts count) := by
  have countEq := length_stepCosts start count
  have sumLe := sum_stepCosts_le_of_least least
  have hitEq : hitAfter budget 0 start count =
      if (start.stepCosts count).sum < budget then
        some (start.afterSteps count).pc
      else
        none := by
    rw [hitAfter, Nat.zero_add]
  constructor
  · rw [countEq]
  · rw [countEq]
    rfl
  · rw [countEq]
    exact le_budget_of_least least
  · rfl
  · exact sumLe
  · intro small fewer
    have part := (List.take_sublist fewer (start.stepCosts count)).sum_le_sum
      (fun cost _ => Nat.zero_le cost)
    omega
  · change _ ↔ (hitAfter budget 0 start count).isSome = true
    rw [hitEq]
    exact Option.isSome_ite.symm
  · intro address stopped
    change hitAfter budget 0 start count = some address at stopped
    rw [hitEq] at stopped
    obtain ⟨unspent, pcEq⟩ := Option.ite_none_right_eq_some.mp stopped
    obtain ⟨someSteps, atBreakpoint⟩ := ends.stops unspent
    rw [breakpoints_afterSteps, Option.some.inj pcEq] at atBreakpoint
    rw [countEq]
    exact ⟨(Option.some.inj pcEq).symm, atBreakpoint, someSteps⟩
  · intro index later made
    rw [countEq] at made
    have passed := contains_eq_false_of_least least later made
    rw [breakpoints_afterSteps] at passed
    exact passed

/-- A run tells its observer the cost of each step, makes at most as many steps
as its budget has cycles, and consumes at most one cycle more. -/
theorem runWith_keepsTo_budget {σ : Type} (processor : Processor)
    (budget : Nat) (observe : Nat → σ → Logged σ) (observed : σ) :
    let ran := (processor.runWith budget observe observed).value
    let costs := processor.runCosts budget
    ran.observed =
        costs.foldl (fun state cost => (observe cost state).value)
          observed ∧
      ran.KeepsTo budget processor costs := by
  intro ran costs
  obtain ⟨costsEq, ends, least⟩ := processor.endsAfter_runCosts budget
  have ranEq := value_runWith processor budget observe observed
  rw [stepCosts_withHit] at costsEq
  rw [afterSteps_withHit, hitAfter_withHit] at ranEq
  simp only [endsAfter_withHit] at ends least
  have keeps := keepsTo_of_endsAfter ends least
    (costs.foldl (fun state cost => (observe cost state).value) observed)
  rw [← costsEq] at keeps
  constructor
  · exact congrArg Run.observed ranEq
  · change Run.KeepsTo (processor.runWith budget observe observed).value _ _ _
    rw [ranEq]
    exact keeps

/-- Outside memory every byte is a fault of one cycle.  A run that starts on a
breakpoint stops at the next one, after four steps of a budget of ten. -/
theorem runWith_keepsTo_budget_stopped :
    let breakpoints :=
      (Breakpoints.empty.insert 0x03030303).insert 0x03030307
    let processor : Processor :=
      { pc := 0x03030303, breakpoints, memory := Memory.blank }
    let ran := (processor.runWith 10 (fun _ _ => pure ()) ()).value
    let costs := processor.runCosts 10
    costs = [1, 1, 1, 1] ∧ 10 < UInt64.size - 1 ∧
      (costs.take 3).sum < UInt64.size ∧
      ran.processor.breakpointHit = some 0x03030307 ∧
      ran.processor.pc = 0x03030307 ∧
      ran.consumed < 10 ∧
      breakpoints.contains (processor.afterSteps 3).pc = false := by
  intro breakpoints processor ran costs
  have costsEq : costs = [1, 1, 1, 1] := by decide +kernel
  have stopped : ran.processor.breakpointHit = some 0x03030307 := by
    decide +kernel
  have small : 10 < UInt64.size - 1 := by decide
  obtain ⟨_, keeps⟩ :=
    runWith_keepsTo_budget processor 10 (fun _ _ => pure ()) ()
  obtain ⟨pcEq, _, _⟩ := keeps.stopped_at _ stopped
  have unspent : ran.consumed < 10 :=
    keeps.stopped_iff.mpr (stopped ▸ rfl)
  have fits := keeps.sum_lt small 3
  have passed := keeps.passed 3 (by decide) (by
    change 3 < costs.length
    rw [costsEq]
    decide)
  exact ⟨costsEq, small, fits, stopped, pcEq.symm, unspent, passed⟩

end RxBoard.Processor
