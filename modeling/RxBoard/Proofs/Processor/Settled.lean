import RxBoard.Proofs.Memory.Contents
import RxBoard.Proofs.Processor.Frame

/-!
The bytes of memory that settle what a step does.

Of the bytes that are fetched, the first ones settle the instruction: those of
its encoding if it is recognized.  Steps that are settled by bytes outside some
set of addresses go the same way whatever stands at these addresses.
-/

namespace RxBoard

/-- Whether the first bytes of a string settle what it is decoded to. -/
def Settles (bytes : List UInt8) (count : Nat) : Prop :=
  ∀ other : List UInt8, other.take count = bytes.take count →
    decode other = decode bytes

theorem settles_longestEncoding (bytes : List UInt8) :
    Settles bytes longestEncoding := by
  intro other same
  rw [← decode_take other, same, decode_take]

theorem settles_size {bytes : List UInt8}
    (recognized : (decode bytes).instruction.isRecognized = true) :
    Settles bytes (decode bytes).size := by
  have nonempty : bytes ≠ [] := by
    rintro rfl
    exact absurd recognized (by decide)
  have encoded := encode_decode bytes nonempty
  intro other same
  rw [← encoded] at same
  have congruent := decode_encode_congr recognized
    (other.drop (decode bytes).size) (bytes.drop (decode bytes).size)
  conv at congruent => lhs; rw [← same, List.take_append_drop]
  rw [encoded, List.take_append_drop] at congruent
  exact congruent

namespace Processor

/-- Whether bytes at other addresses than those to avoid settle what the next
step does. -/
def StepsClearOf (processor : Processor) (avoided : UInt32 → Prop) :
    Prop :=
  ∃ count,
    Settles
        (processor.memory.dump processor.pc longestEncoding).value count ∧
      ∀ distance < count, ∀ address,
        advance? processor.pc distance = some address → ¬avoided address

variable {processor : Processor} {avoided : UInt32 → Prop}
  {memory : Memory}

theorem StepsClearOf.fetch_eq (clear : processor.StepsClearOf avoided)
    (agree : ∀ address, ¬avoided address →
      memory.byteAt address = processor.memory.byteAt address) :
    (fetch memory processor.pc).value =
      (fetch processor.memory processor.pc).value := by
  rcases clear with ⟨count, settles, apart⟩
  apply settles
  rw [Memory.take_value_dump, Memory.take_value_dump]
  apply Memory.value_dump_congr
  intro distance inside address reached
  exact agree address
    (apart distance (lt_of_lt_of_le inside (Nat.min_le_left ..)) address
      reached)

/-- A recognized instruction is settled by the bytes that it takes up. -/
theorem stepsClearOf_of_recognized
    (recognized : (fetch processor.memory
      processor.pc).value.instruction.isRecognized = true)
    (apart : ∀ distance <
      (fetch processor.memory processor.pc).value.size, ∀ address,
        advance? processor.pc distance = some address →
          ¬avoided address) :
    processor.StepsClearOf avoided :=
  ⟨_, settles_size recognized, apart⟩

theorem stepsClearOf_of_forall_not (none : ∀ address, ¬avoided address)
    (processor : Processor) : processor.StepsClearOf avoided :=
  ⟨longestEncoding, settles_longestEncoding _,
    fun _ _ address _ => none address⟩

/-- Steps that are settled by bytes on which two memories agree are the same
with either. -/
theorem steps_withStore
    (agree : ∀ address, ¬avoided address →
      memory.byteAt address = processor.memory.byteAt address)
    {count : Nat}
    (clear : ∀ earlier < count,
      (processor.afterSteps earlier).StepsClearOf avoided) :
    (processor.withStore memory).stepCosts count =
        processor.stepCosts count ∧
      (processor.withStore memory).afterSteps count =
        (processor.afterSteps count).withStore memory := by
  induction count generalizing processor with
  | zero => exact ⟨rfl, rfl⟩
  | succ count inductionHypothesis =>
      have first := value_step_withStore processor
        ((clear 0 (Nat.succ_pos count)).fetch_eq agree)
      -- No step writes memory, so the memories still agree after this one.
      have agreeAfter : ∀ address, ¬avoided address →
          memory.byteAt address =
            processor.step.value.2.memory.byteAt address := by
        rw [memory_step]
        exact agree
      obtain ⟨costs, boards⟩ := inductionHypothesis agreeAfter
        fun earlier before => clear (earlier + 1) (Nat.succ_lt_succ before)
      simp only [stepCosts, afterSteps, first, costs, boards, and_self]

end Processor

end RxBoard
