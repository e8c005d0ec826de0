import Mathlib.Algebra.Order.BigOperators.Group.List
import Mathlib.Algebra.Order.Ring.Nat
import RxBoard.Peripheral.Timer

/-!
Advances of the timer, one after the other.

An advance without a match keeps all cycles it was given, so the next one goes
on as if both had been made at once (`value_advance_add`).  A match discards the
excess; so amounts may be put together up to the first match, and not past it
(`advance_in_batch`).
-/

namespace RxBoard.Timer

def matchRequest : InterruptRequest := ⟨28, 3, "CMT0"⟩

section

variable {timer : Timer} {cycles : Nat} (queue : InterruptQueue)

theorem value_advance_disabled (disabled : timer.isEnabled = false) :
    (timer.advance cycles queue).value = ⟨false, timer, queue⟩ := by
  rw [advance, if_neg (Bool.not_eq_true _ ▸ disabled)]
  rfl

theorem value_advance_enabled (enabled : timer.isEnabled = true) :
    (timer.advance cycles queue).value =
      if timer.counter.toNat + cycles < timer.compare.toNat then
        ⟨false,
          { timer with
            counter := UInt32.ofNat (timer.counter.toNat + cycles) },
          queue⟩
      else
        ⟨true, { timer with counter := 0 },
          if timer.isInterruptEnabled then
            (queue.request interruptVector interruptPriority
              interruptSource).value
          else
            queue⟩ := by
  rw [advance, if_pos enabled]
  by_cases early : timer.counter.toNat + cycles < timer.compare.toNat
  · simp only [if_pos early]
    rfl
  · simp only [if_neg early]
    cases timer.isInterruptEnabled <;> rfl

/-- Below the compare value no cycle is lost to the width of the counter. -/
theorem toNat_counter_early
    (early : timer.counter.toNat + cycles < timer.compare.toNat) :
    (UInt32.ofNat (timer.counter.toNat + cycles)).toNat =
      timer.counter.toNat + cycles :=
  UInt32.toNat_ofNat_of_lt'
    (Nat.lt_trans early timer.compare.toNat_lt_size)

end

def Advance.next (before : Advance) (cycles : Nat) : Advance :=
  (before.timer.advance cycles before.queue).value

def Advance.nextAll (before : Advance) (amounts : List Nat) : Advance :=
  amounts.foldl Advance.next before

namespace Advance

variable {before : Advance}

/-- Without a match no cycle is lost. -/
theorem next_next {first : Nat}
    (quiet : (before.next first).isMatch = false) (second : Nat) :
    (before.next first).next second = before.next (first + second) := by
  unfold next at quiet ⊢
  cases enabled : before.timer.isEnabled with
  | false =>
      rw [value_advance_disabled before.queue enabled,
        value_advance_disabled before.queue enabled,
        value_advance_disabled before.queue enabled]
  | true =>
      rw [value_advance_enabled before.queue enabled] at quiet ⊢
      by_cases early : before.timer.counter.toNat + first <
          before.timer.compare.toNat
      · have stillEnabled : isEnabled { before.timer with
            counter := UInt32.ofNat (before.timer.counter.toNat + first) } =
            true := enabled
        rw [if_pos early, value_advance_enabled before.queue enabled]
        refine (value_advance_enabled before.queue stillEnabled).trans ?_
        simp only [toNat_counter_early early, Nat.add_assoc]
        rfl
      · rw [if_neg early] at quiet
        cases quiet

theorem nextAll_eq_next_sum {amounts : List Nat} (nonempty : amounts ≠ [])
    (quiet : ∀ count, count < amounts.length → 0 < count →
      (before.nextAll (amounts.take count)).isMatch = false) :
    before.nextAll amounts = before.next amounts.sum := by
  induction amounts generalizing before with
  | nil => contradiction
  | cons first rest inductionHypothesis =>
      cases rest with
      | nil => rfl
      | cons second others =>
          have firstQuiet : (before.next first).isMatch = false :=
            quiet 1 (by simp) Nat.one_pos
          have restQuiet (count : Nat)
              (fewer : count < (second :: others).length)
              (_some : 0 < count) :
              ((before.next first).nextAll
                ((second :: others).take count)).isMatch = false :=
            quiet (count + 1) (Nat.succ_lt_succ fewer) count.succ_pos
          rw [List.sum_cons, ← next_next firstQuiet]
          exact inductionHypothesis (List.cons_ne_nil _ _) restQuiet

/-- Whether an outcome is one that an advance may have: nothing of the timer but
its counter has changed, and a request is posted only for a match. -/
structure Follows (before : Advance) (cycles : Nat) (after : Advance) :
    Prop where
  settings : after.timer =
    { before.timer with counter := after.timer.counter }
  counter : before.timer.isEnabled = true →
    after.timer.counter = 0 ∨
      after.timer.counter < after.timer.compare
  match_iff : after.isMatch = true ↔
    before.timer.isEnabled = true ∧
      before.timer.compare.toNat ≤ before.timer.counter.toNat + cycles
  queue : after.queue =
    if after.isMatch && before.timer.isInterruptEnabled then
      (before.queue.request interruptVector interruptPriority
        interruptSource).value
    else
      before.queue
  requests : after.queue.pending.Perm
    ((if after.isMatch && before.timer.isInterruptEnabled then
        [matchRequest]
      else
        []) ++ before.queue.pending)
  standing : before.timer.isEnabled = false →
    after = ⟨false, before.timer, before.queue⟩

theorem follows_next (before : Advance) (cycles : Nat) :
    before.Follows cycles (before.next cycles) := by
  unfold next
  cases enabled : before.timer.isEnabled with
  | false =>
      rw [value_advance_disabled before.queue enabled]
      exact {
        settings := rfl
        counter := fun running => nomatch enabled.symm.trans running
        match_iff := by simp [enabled]
        queue := rfl
        requests := List.Perm.refl _
        standing := fun _ => rfl }
  | true =>
      rw [value_advance_enabled before.queue enabled]
      by_cases early : before.timer.counter.toNat + cycles <
          before.timer.compare.toNat
      · rw [if_pos early]
        exact {
          settings := rfl
          counter := fun _ => Or.inr (by
            rw [UInt32.lt_iff_toNat_lt]
            exact (toNat_counter_early early).symm ▸ early)
          match_iff := by simp [enabled, early]
          queue := rfl
          requests := List.Perm.refl _
          standing := fun stands => nomatch enabled.symm.trans stands }
      · rw [if_neg early]
        exact {
          settings := rfl
          counter := fun _ => Or.inl rfl
          match_iff := by simp [enabled, Nat.not_lt.mp early]
          queue := by rw [Bool.true_and]
          requests := by
            cases before.timer.isInterruptEnabled with
            | false => exact List.Perm.refl _
            | true => exact InterruptQueue.insertByPriority_perm ..
          standing := fun stands => nomatch enabled.symm.trans stands }

theorem counter_next_le (before : Advance) (cycles : Nat) :
    (before.next cycles).timer.counter.toNat ≤
      before.timer.counter.toNat + cycles := by
  unfold next
  cases enabled : before.timer.isEnabled with
  | false =>
      rw [value_advance_disabled before.queue enabled]
      exact Nat.le_add_right _ _
  | true =>
      rw [value_advance_enabled before.queue enabled]
      split
      · rename_i early
        exact Nat.le_of_eq (toNat_counter_early early)
      · exact Nat.zero_le _

theorem counter_nextAll_le (before : Advance) (amounts : List Nat) :
    (before.nextAll amounts).timer.counter.toNat ≤
      before.timer.counter.toNat + amounts.sum := by
  induction amounts generalizing before with
  | nil => exact Nat.le_refl _
  | cons cycles rest inductionHypothesis =>
      have first := counter_next_le before cycles
      have others := inductionHypothesis (before.next cycles)
      rw [List.sum_cons]
      change ((before.next cycles).nextAll rest).timer.counter.toNat ≤ _
      omega

end Advance

/-- Advances of which none but the last has a match come to the same as a single
advance by all cycles.  Each advance counts within 64 bits if the single one
does, and changes nothing but the counter and, for a match, the queue. -/
theorem advance_in_batch (timer : Timer) (queue : InterruptQueue)
    {amounts : List Nat} (nonempty : amounts ≠ [])
    (fits : timer.counter.toNat + amounts.sum < UInt64.size) :
    let reached (count : Nat) : Advance :=
      Advance.nextAll ⟨false, timer, queue⟩ (amounts.take count)
    ((∀ count, count < amounts.length → 0 < count →
        (reached count).isMatch = false) →
      reached amounts.length = (timer.advance amounts.sum queue).value) ∧
      ∀ (count cycles : Nat), amounts[count]? = some cycles →
        (reached count).timer.counter.toNat + cycles < UInt64.size ∧
          (reached count).Follows cycles (reached (count + 1)) := by
  intro reached
  constructor
  · intro quiet
    change Advance.nextAll _ (amounts.take amounts.length) = _
    rw [List.take_length]
    exact Advance.nextAll_eq_next_sum nonempty quiet
  · intro count cycles found
    have takenEq : amounts.take (count + 1) =
        amounts.take count ++ [cycles] := by
      rw [List.take_add_one, found, Option.toList_some]
    have reachedEq :
        reached (count + 1) = (reached count).next cycles := by
      change List.foldl _ _ (amounts.take (count + 1)) = _
      rw [takenEq, List.foldl_append]
      rfl
    have counted := Advance.counter_nextAll_le ⟨false, timer, queue⟩
      (amounts.take count)
    have part := (List.take_sublist (count + 1) amounts).sum_le_sum
      (fun amount _ => Nat.zero_le amount)
    rw [takenEq, List.sum_append, List.sum_singleton] at part
    constructor
    · refine Nat.lt_of_le_of_lt ?_ fits
      refine Nat.le_trans (Nat.add_le_add_right counted cycles) ?_
      rw [Nat.add_assoc]
      exact Nat.add_le_add_left part _
    · rw [reachedEq]
      exact (reached count).follows_next cycles

/-- Three advances come to a match at the last, with an excess that is lost; its
request waits behind an earlier one of the same priority. -/
theorem advance_in_batch_excess :
    let timer : Timer :=
      { counter := 7, compare := 10, enable := 0x80, interruptEnable := 2 }
    let queue :=
      (InterruptQueue.empty.request 5 Timer.interruptPriority "host").value
    let amounts := [1, 1, 5]
    let outcome := Advance.nextAll ⟨false, timer, queue⟩ amounts
    amounts ≠ [] ∧ timer.counter.toNat + amounts.sum < UInt64.size ∧
      outcome = (timer.advance 7 queue).value ∧
      outcome.isMatch = true ∧ outcome.timer.counter = 0 ∧
      outcome.queue.pending = [⟨5, 3, "host"⟩, matchRequest] := by
  intro timer queue amounts outcome
  have nonempty : amounts ≠ [] := List.cons_ne_nil _ _
  have fits : timer.counter.toNat + amounts.sum < UInt64.size := by decide
  obtain ⟨batched, _⟩ := advance_in_batch timer queue nonempty fits
  have quiet : ∀ count, count < amounts.length → 0 < count →
      (Advance.nextAll ⟨false, timer, queue⟩
        (amounts.take count)).isMatch = false := by
    decide
  exact ⟨nonempty, fits, batched quiet, rfl, rfl, rfl⟩

end RxBoard.Timer
