import Mathlib.Algebra.Order.Ring.Int
import RxBoard.Peripheral.Bank
import RxBoard.Proofs.Peripheral.Advance

/-!
How far the timer falls behind.

A match clears the counter whatever the excess, so cycles are lost where an
advance goes past the compare value.  An advance by at most `slack + 1` cycles
loses at most `slack` of them, and a sequence of advances at most that for each
match (`exists_drifts_ticks`).
-/

namespace RxBoard

namespace Timer

structure IsArmed (timer : Timer) : Prop where
  enabled : timer.isEnabled = true
  raises : timer.isInterruptEnabled = true
  below : timer.counter < timer.compare

end Timer

namespace PeripheralBank

/-- Whether cycles have passed with a number of matches: nothing of the timer
but its counter has changed, each match has added one request, and has lost at
most `slack` cycles. -/
structure Drifts (before after : PeripheralBank)
    (slack cycles matched : Nat) : Prop where
  timer : after.timer =
    { before.timer with counter := after.timer.counter }
  below : after.timer.counter < before.timer.compare
  requests : after.interrupts.pending.Perm
    (List.replicate matched Timer.matchRequest ++
      before.interrupts.pending)
  least : matched * before.timer.compare.toNat +
      after.timer.counter.toNat ≤
    cycles + before.timer.counter.toNat
  most : cycles + before.timer.counter.toNat ≤
    matched * (before.timer.compare.toNat + slack) +
      after.timer.counter.toNat

namespace Drifts

variable {first second third : PeripheralBank}
  {slack cycles further matched others : Nat}

theorem refl (armed : first.timer.IsArmed) :
    first.Drifts first slack 0 0 where
  timer := rfl
  below := armed.below
  requests := List.Perm.refl _
  least := by omega
  most := by omega

theorem armed (drifts : first.Drifts second slack cycles matched)
    (armed : first.timer.IsArmed) : second.timer.IsArmed := by
  rw [drifts.timer]
  exact ⟨armed.enabled, armed.raises, drifts.below⟩

theorem trans (drifts : first.Drifts second slack cycles matched)
    (drifted : second.Drifts third slack further others) :
    first.Drifts third slack (cycles + further) (matched + others) := by
  have compareEq : second.timer.compare = first.timer.compare := by
    rw [drifts.timer]
  have least := drifted.least
  have most := drifted.most
  rw [compareEq] at least most
  constructor
  · rw [drifted.timer, drifts.timer]
  · rw [← compareEq]
    exact drifted.below
  · refine drifted.requests.trans ?_
    rw [Nat.add_comm, ← List.replicate_append_replicate,
      List.append_assoc]
    exact drifts.requests.append_left _
  · have earlier := drifts.least
    rw [Nat.add_mul]
    omega
  · have earlier := drifts.most
    rw [Nat.add_mul]
    omega

end Drifts

theorem value_tick (bank : PeripheralBank) (cycles : Nat) :
    (bank.tick cycles).value =
      { bank with
        timer := (bank.timer.advance cycles bank.interrupts).value.timer
        interrupts :=
          (bank.timer.advance cycles bank.interrupts).value.queue } := rfl

theorem exists_drifts_tick {bank : PeripheralBank}
    (armed : bank.timer.IsArmed) {slack cycles : Nat}
    (small : cycles ≤ slack + 1) :
    ∃ matched : Nat,
      bank.Drifts (bank.tick cycles).value slack cycles matched := by
  have below := UInt32.lt_iff_toNat_lt.mp armed.below
  rw [value_tick,
    Timer.value_advance_enabled bank.interrupts armed.enabled]
  by_cases early :
      bank.timer.counter.toNat + cycles < bank.timer.compare.toNat
  · have counterEq := Timer.toNat_counter_early early
    rw [if_pos early]
    refine ⟨0, rfl, ?_, List.Perm.refl _, ?_, ?_⟩
    · rw [UInt32.lt_iff_toNat_lt, counterEq]
      exact early
    · rw [counterEq]
      omega
    · rw [counterEq]
      omega
  · rw [if_neg early, if_pos armed.raises]
    refine ⟨1, rfl, ?_, ?_, ?_, ?_⟩
    · exact UInt32.lt_iff_toNat_lt.mpr (Nat.zero_lt_of_lt below)
    · exact InterruptQueue.insertByPriority_perm ..
    · change 1 * _ + 0 ≤ _
      omega
    · change _ ≤ 1 * _ + 0
      omega

/-- Advances by at most `slack + 1` cycles lose at most `slack` cycles for each
match. -/
theorem exists_drifts_ticks {bank : PeripheralBank}
    (armed : bank.timer.IsArmed) {slack : Nat} {costs : List Nat}
    (small : ∀ cost ∈ costs, cost ≤ slack + 1) :
    ∃ matched : Nat,
      bank.Drifts
        (costs.foldl (fun bank cost => (bank.tick cost).value) bank)
        slack costs.sum matched := by
  induction costs generalizing bank with
  | nil => exact ⟨0, .refl armed⟩
  | cons cost rest inductionHypothesis =>
      rcases List.forall_mem_cons.mp small with ⟨costSmall, restSmall⟩
      obtain ⟨matched, drifts⟩ := exists_drifts_tick armed costSmall
      obtain ⟨others, drifted⟩ :=
        inductionHypothesis (drifts.armed armed) restSmall
      refine ⟨matched + others, ?_⟩
      rw [List.foldl_cons, List.sum_cons]
      exact drifts.trans drifted

end PeripheralBank

end RxBoard
