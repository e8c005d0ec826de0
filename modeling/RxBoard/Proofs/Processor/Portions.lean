import RxBoard.Proofs.Processor.Stepping

/-!
Runs in portions.

A budget may be given at once or in two portions.  The second portion is a run
of its own, so it goes past a breakpoint at which it starts; a single run looks
for a breakpoint there.  This is the only difference (`run_in_portions`).
-/

namespace RxBoard.Processor

section

variable {σ : Type} (observe : Nat → σ → Logged σ)

theorem value_runFrom_reported (budget consumed : Nat)
    (processor : Processor) (observed : σ) (reported : Array Event) :
    (runFrom observe budget consumed processor observed reported).value =
      (runFrom observe budget consumed processor observed #[]).value := by
  rw [runFrom_reported]

theorem value_runFrom_step {budget consumed : Nat} (processor : Processor)
    (observed : σ) (unspent : consumed < budget)
    (goesOn : ¬(0 < consumed &&
      processor.breakpoints.contains processor.pc) = true) :
    (runFrom observe budget consumed processor observed #[]).value =
      (runFrom observe budget (consumed + processor.step.value.1)
        processor.step.value.2
        (observe processor.step.value.1 observed).value #[]).value := by
  rw [runFrom_step observe processor observed _ unspent goesOn]
  exact value_runFrom_reported ..

/-- What holds where a run ends, and before each step after which it holds,
holds of the whole run. -/
theorem runFrom_induction (budget : Nat)
    {motive : Nat → Processor → σ → Prop}
    (breakpoint : ∀ consumed processor observed, consumed < budget →
      (0 < consumed &&
        processor.breakpoints.contains processor.pc) = true →
      motive consumed processor observed)
    (step : ∀ consumed processor observed, consumed < budget →
      ¬(0 < consumed &&
        processor.breakpoints.contains processor.pc) = true →
      motive (consumed + processor.step.value.1) processor.step.value.2
        (observe processor.step.value.1 observed).value →
      motive consumed processor observed)
    (spent : ∀ consumed processor observed, ¬consumed < budget →
      motive consumed processor observed)
    (consumed : Nat) (processor : Processor) (observed : σ) :
    motive consumed processor observed :=
  runFrom.induct observe budget
    (fun consumed processor observed _ =>
      motive consumed processor observed)
    (fun consumed processor observed _ =>
      breakpoint consumed processor observed)
    (fun consumed processor observed _ =>
      step consumed processor observed)
    (fun consumed processor observed _ =>
      spent consumed processor observed)
    consumed processor observed #[]

theorem consumed_le_runFrom (budget consumed : Nat) (processor : Processor)
    (observed : σ) :
    consumed ≤ (runFrom observe budget consumed processor observed
      #[]).value.consumed := by
  induction consumed, processor, observed using
      runFrom_induction observe budget with
  | breakpoint consumed processor observed unspent stops =>
      rw [runFrom_breakpoint observe processor observed _ unspent stops]
  | step consumed processor observed unspent goesOn inductionHypothesis =>
      rw [value_runFrom_step observe processor observed unspent goesOn]
      exact Nat.le_trans (Nat.le_add_right _ _) inductionHypothesis
  | spent consumed processor observed spent =>
      rw [runFrom_spent observe processor observed _ spent]

/-- A run that no breakpoint ended is the beginning of every run with a larger
budget. -/
theorem value_runFrom_extend {first whole : Nat} (ordered : first ≤ whole)
    (consumed : Nat) (processor : Processor) (observed : σ)
    (noHit : (runFrom observe first consumed processor observed
      #[]).value.processor.breakpointHit = none) :
    let paused :=
      (runFrom observe first consumed processor observed #[]).value
    (runFrom observe whole consumed processor observed #[]).value =
      (runFrom observe whole paused.consumed paused.processor
        paused.observed #[]).value := by
  induction consumed, processor, observed using
      runFrom_induction observe first with
  | breakpoint consumed processor observed unspent stops =>
      rw [runFrom_breakpoint observe processor observed _ unspent stops]
        at noHit
      cases noHit
  | step consumed processor observed unspent goesOn inductionHypothesis =>
      rw [value_runFrom_step observe processor observed unspent goesOn]
        at noHit ⊢
      rw [value_runFrom_step observe processor observed
        (Nat.lt_of_lt_of_le unspent ordered) goesOn]
      exact inductionHypothesis noHit
  | spent consumed processor observed spent =>
      rw [runFrom_spent observe processor observed _ spent]

def Run.shift (run : Run σ) (before : Nat) : Run σ :=
  { run with consumed := before + run.consumed }

/-- Cycles consumed before a run show in its sum only, unless they make it
look for a breakpoint at its start. -/
theorem value_runFrom_shift (budget before consumed : Nat)
    (processor : Processor) (observed : σ)
    (sameTest : 0 < before + consumed → 0 < consumed ∨
      processor.breakpoints.contains processor.pc = false) :
    (runFrom observe (before + budget) (before + consumed) processor
        observed #[]).value =
      (runFrom observe budget consumed processor observed
        #[]).value.shift before := by
  induction consumed, processor, observed using
      runFrom_induction observe budget with
  | breakpoint consumed processor observed unspent stops =>
      have stopsLater : (0 < before + consumed &&
          processor.breakpoints.contains processor.pc) = true := by
        simp only [Bool.and_eq_true, decide_eq_true_eq] at stops ⊢
        exact ⟨Nat.add_pos_right _ stops.1, stops.2⟩
      rw [runFrom_breakpoint observe processor observed _ unspent stops,
        runFrom_breakpoint observe processor observed _
          (Nat.add_lt_add_left unspent before) stopsLater]
      rfl
  | step consumed processor observed unspent goesOn inductionHypothesis =>
      have goesOnLater : ¬(0 < before + consumed &&
          processor.breakpoints.contains processor.pc) = true := by
        simp only [Bool.and_eq_true, decide_eq_true_eq, not_and,
          Bool.not_eq_true] at goesOn ⊢
        intro someConsumed
        exact (sameTest someConsumed).elim goesOn id
      -- From the first step on both runs look for breakpoints.
      have costPositive := step_cost_pos processor
      rw [value_runFrom_step observe processor observed unspent goesOn,
        value_runFrom_step observe processor observed
          (Nat.add_lt_add_left unspent before) goesOnLater, Nat.add_assoc]
      exact inductionHypothesis
        (fun _ => Or.inl (Nat.add_pos_right _ costPositive))
  | spent consumed processor observed spent =>
      have spentLater : ¬before + consumed < before + budget := by omega
      rw [runFrom_spent observe processor observed _ spent,
        runFrom_spent observe processor observed _ spentLater]
      rfl

/-! ### Two portions and one run -/

variable (processor : Processor) {first whole : Nat} (observed : σ)

theorem value_runWith_extend (ordered : first ≤ whole)
    (noHit : (processor.runWith first observe
      observed).value.processor.breakpointHit = none) :
    let paused := (processor.runWith first observe observed).value
    (processor.runWith whole observe observed).value =
      (runFrom observe whole paused.consumed paused.processor
        paused.observed #[]).value :=
  value_runFrom_extend observe ordered 0 (processor.withHit none) observed
    noHit

/-- Where no breakpoint is looked for, the second portion is the rest of the
single run. -/
theorem value_runWith_resumed (ordered : first ≤ whole)
    (noHit : (processor.runWith first observe
      observed).value.processor.breakpointHit = none)
    (unspent :
      (processor.runWith first observe observed).value.consumed < whole)
    (free :
      let paused := (processor.runWith first observe observed).value
      0 < paused.consumed →
        paused.processor.breakpoints.contains paused.processor.pc = false) :
    let paused := (processor.runWith first observe observed).value
    (processor.runWith whole observe observed).value =
      (paused.processor.runWith (whole - paused.consumed) observe
        paused.observed).value.shift paused.consumed := by
  intro paused
  have extended :=
    value_runWith_extend observe processor observed ordered noHit
  have shifted := value_runFrom_shift observe (whole - paused.consumed)
    paused.consumed 0 paused.processor paused.observed
    (fun consumedSome => Or.inr (free consumedSome))
  rw [Nat.add_sub_cancel' (Nat.le_of_lt unspent)] at shifted
  have sameProcessor :
      paused.processor.withHit none = paused.processor := by
    rw [← noHit]
    rfl
  have restarted :
      (paused.processor.runWith (whole - paused.consumed) observe
        paused.observed).value =
        (runFrom observe (whole - paused.consumed) 0
          (paused.processor.withHit none) paused.observed #[]).value := rfl
  rw [restarted, sameProcessor, ← shifted]
  exact extended

/-- A single run stops at a breakpoint at which the first portion ends. -/
theorem value_runWith_stopped (ordered : first ≤ whole)
    (noHit : (processor.runWith first observe
      observed).value.processor.breakpointHit = none)
    (unspent :
      (processor.runWith first observe observed).value.consumed < whole)
    (stops :
      let paused := (processor.runWith first observe observed).value
      0 < paused.consumed ∧
        paused.processor.breakpoints.contains paused.processor.pc = true) :
    let paused := (processor.runWith first observe observed).value
    (processor.runWith whole observe observed).value =
      { paused with
        processor :=
          paused.processor.withHit (some paused.processor.pc) } := by
  intro paused
  have stopsNow : (0 < paused.consumed &&
      paused.processor.breakpoints.contains paused.processor.pc) = true := by
    simp only [Bool.and_eq_true, decide_eq_true_eq]
    exact stops
  have ended := runFrom_breakpoint observe paused.processor paused.observed
    #[] unspent stopsNow
  refine (value_runWith_extend observe processor observed ordered
    noHit).trans ?_
  exact congrArg Logged.value ended

theorem consumed_runWith_pos (someBudget : 0 < whole) :
    0 < (processor.runWith whole observe observed).value.consumed := by
  have costPositive := step_cost_pos (processor.withHit none)
  have stepped := value_runFrom_step observe (processor.withHit none)
    observed someBudget (by simp)
  have ran :
      (processor.runWith whole observe observed).value =
        (runFrom observe whole 0 (processor.withHit none) observed
          #[]).value := rfl
  rw [ran, stepped]
  refine Nat.lt_of_lt_of_le ?_ (consumed_le_runFrom ..)
  exact Nat.add_pos_right 0 costPositive

end

/-- A run whose first portion no breakpoint ended gives the same state and the
same cycles in two portions as at once, unless it was interrupted just before
a breakpoint: there the single run stops, and the second portion goes on. -/
theorem run_in_portions (processor : Processor) {first whole : Nat}
    (ordered : first ≤ whole)
    (noHit : (processor.run first).value.2.breakpointHit = none)
    (unspent : (processor.run first).value.1 < whole) :
    let spent := (processor.run first).value.1
    let paused := (processor.run first).value.2
    let rest := (paused.run (whole - spent)).value
    let atBreakpoint :=
      0 < spent ∧ paused.breakpoints.contains paused.pc = true
    ((processor.run whole).value = (spent + rest.1, rest.2) ↔
        ¬atBreakpoint) ∧
      (atBreakpoint → (processor.run whole).value =
        (spent, paused.withHit (some paused.pc))) := by
  intro spent paused rest atBreakpoint
  by_cases stops : atBreakpoint
  · have stopped := value_runWith_stopped (fun _ _ => pure ()) processor ()
      ordered noHit unspent stops
    have ended : (processor.run whole).value =
        (spent, paused.withHit (some paused.pc)) :=
      congrArg (fun result => (result.consumed, result.processor)) stopped
    have restPositive : 0 < rest.1 :=
      consumed_runWith_pos (fun _ _ => pure ()) paused ()
        (Nat.sub_pos_of_lt unspent)
    have apart : (processor.run whole).value ≠ (spent + rest.1, rest.2) := by
      intro same
      rw [ended] at same
      have sameSum : spent = spent + rest.1 := congrArg Prod.fst same
      omega
    constructor
    · exact iff_of_false apart (not_not_intro stops)
    · intro _
      exact ended
  · have free : 0 < spent →
        paused.breakpoints.contains paused.pc = false := by
      intro someSpent
      rw [← Bool.not_eq_true]
      intro contained
      exact stops ⟨someSpent, contained⟩
    have resumed := value_runWith_resumed (fun _ _ => pure ()) processor ()
      ordered noHit unspent free
    have joined :
        (processor.run whole).value = (spent + rest.1, rest.2) :=
      congrArg (fun result => (result.consumed, result.processor)) resumed
    constructor
    · exact iff_of_true joined stops
    · intro contrary
      exact absurd contrary stops

/-- Outside memory every byte is a fault of one cycle.  A run of three cycles
that starts on a breakpoint ends between two of them. -/
theorem run_in_portions_between :
    let breakpoints :=
      (Breakpoints.empty.insert 0x03030303).insert 0x03030308
    let processor : Processor :=
      { pc := 0x03030303, breakpoints, memory := Memory.blank }
    let paused := (processor.run 3).value.2
    3 ≤ 100 ∧ paused.breakpointHit = none ∧
      (processor.run 3).value.1 < 100 ∧ paused.pc = 0x03030306 ∧
      (processor.run 100).value.1 = 3 + (paused.run 97).value.1 ∧
      (processor.run 100).value.2 = (paused.run 97).value.2 ∧
      (paused.run 97).value.2.breakpointHit = some 0x03030308 := by
  intro breakpoints processor paused
  have ordered : 3 ≤ 100 := by decide
  have noHit : paused.breakpointHit = none := by decide +kernel
  have spentEq : (processor.run 3).value.1 = 3 := by decide +kernel
  have unspent : (processor.run 3).value.1 < 100 := by
    rw [spentEq]
    decide
  have free : paused.breakpoints.contains paused.pc = false := by
    decide +kernel
  have joined := (run_in_portions processor ordered noHit unspent).1.mpr
    (fun stops => Bool.false_ne_true (free.symm.trans stops.2))
  rw [spentEq] at joined
  rcases Prod.ext_iff.mp joined with ⟨sameSum, sameState⟩
  exact ⟨ordered, noHit, unspent, by decide +kernel, sameSum, sameState,
    by decide +kernel⟩

/-- Two portions of one cycle go past a breakpoint at which a run of two cycles
stops. -/
theorem not_run_in_portions :
    ¬∀ (processor : Processor) (first whole : Nat), first ≤ whole →
      (processor.run first).value.2.breakpointHit = none →
      (processor.run first).value.1 < whole →
      let spent := (processor.run first).value.1
      let rest := ((processor.run first).value.2.run (whole - spent)).value
      (processor.run whole).value = (spent + rest.1, rest.2) := by
  intro resumes
  have joined := resumes
    { pc := 0x03030303
      breakpoints := Breakpoints.empty.insert 0x03030304
      memory := Memory.blank }
    1 2 (by decide) (by decide +kernel) (by decide +kernel)
  have sameSum := congrArg Prod.fst joined
  revert sameSum
  decide +kernel

end RxBoard.Processor
