import RxBoard.Proofs.Board.Stepping
import RxBoard.Proofs.Peripheral.Drift

/-!
The timer of a board that executes.

However execution is cut into calls, the timer is told of one instruction at a
time, and no instruction takes more than two cycles.  So a match loses at most
one cycle.
-/

namespace RxBoard.Board

/-- An armed timer raises one interrupt for each match, and its counter falls
behind the cycles by at most one for each. -/
theorem exists_matches_callAll (board : Board)
    (enabled : board.peripherals.timer.isEnabled = true)
    (raises : board.peripherals.timer.isInterruptEnabled = true)
    (below : board.peripherals.timer.counter <
      board.peripherals.timer.compare)
    (calls : List ExecutionCall) :
    let timer := board.peripherals.timer
    let consumed := (board.callAll calls).1
    let after := (board.callAll calls).2.peripherals
    ∃ matched : Nat,
      after.interrupts.pending.Perm
          (List.replicate matched ⟨28, 3, "CMT0"⟩ ++
            board.peripherals.interrupts.pending) ∧
        after.timer.counter < timer.compare ∧
        matched * timer.compare.toNat + after.timer.counter.toNat ≤
          consumed + timer.counter.toNat ∧
        consumed + timer.counter.toNat ≤
          matched * (timer.compare.toNat + 1) +
            after.timer.counter.toNat := by
  intro timer consumed after
  obtain ⟨costs, bounds, sumEq, bankEq⟩ := board.exists_costs_callAll calls
  obtain ⟨matched, drifts⟩ :=
    PeripheralBank.exists_drifts_ticks ⟨enabled, raises, below⟩
      (fun cost member => (bounds cost member).2)
  rw [← sumEq] at drifts
  have afterEq : after = tickAll board.peripherals costs := bankEq
  rw [afterEq]
  exact ⟨matched, drifts.requests, drifts.below, drifts.least, drifts.most⟩

/-- Faults outside memory take one cycle each: six of them reach the compare
value twice, and one cycle is left over. -/
theorem exists_matches_faults :
    let board : Board := {
      processor := {
        pc := 0x03030303
        breakpoints := Breakpoints.empty
        memory := Memory.blank }
      peripherals := {
        timer := {
          counter := 2, compare := 3, enable := 1, interruptEnable := 1 } }
      programStart := 0
      programEnd := 0 }
    let timer := board.peripherals.timer
    let outcome := board.callAll [.step, .run 5]
    timer.isEnabled = true ∧ timer.isInterruptEnabled = true ∧
      timer.counter < timer.compare ∧
      outcome.1 = 6 ∧
      outcome.2.peripherals.timer.counter = 2 ∧
      outcome.2.peripherals.interrupts.pending.length = 2 := by
  intro board timer outcome
  have enabled : timer.isEnabled = true := by decide
  have raises : timer.isInterruptEnabled = true := by decide
  have below : timer.counter < timer.compare := by decide
  have consumed : outcome.1 = 6 := by decide +kernel
  have counted : outcome.2.peripherals.timer.counter = 2 := by
    decide +kernel
  obtain ⟨matched, requests, _, least, most⟩ :=
    exists_matches_callAll board enabled raises below [.step, .run 5]
  have lengthEq := requests.length_eq
  rw [List.length_append, List.length_replicate] at lengthEq
  change matched * 3 + outcome.2.peripherals.timer.counter.toNat ≤
    outcome.1 + 2 at least
  change outcome.1 + 2 ≤ matched * (3 + 1) +
    outcome.2.peripherals.timer.counter.toNat at most
  rw [consumed, counted] at least most
  change matched * 3 + 2 ≤ 6 + 2 at least
  change 6 + 2 ≤ matched * 4 + 2 at most
  have matchedEq : matched = 2 := by omega
  exact ⟨enabled, raises, below, consumed, counted,
    lengthEq.trans matchedEq⟩

end RxBoard.Board
