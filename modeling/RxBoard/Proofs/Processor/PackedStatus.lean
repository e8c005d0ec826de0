import Mathlib.Data.Nat.Bitwise
import RxBoard.Proofs.Processor.Effects

/-!
The status word as a packed word.

`StatusWord.bit` gives each flag, and each bit of the priority level, its place
in the word.  Packing sets these bits and no others (`testBit_pack`), so packing
what was unpacked clears the reserved bits (`pack_unpack`), and unpacking what
was packed cuts the priority level to its low four bits (`unpack_pack`).

A processor never gets to a status word that this cut changes: from power-on on,
its priority level is at most 15, and it neither activates the user stack nor
enters user mode (`StatusWord.Supervised`).
-/

namespace RxBoard

namespace StatusWord

def bit (status : StatusWord) : Nat → Bool
  | 0 => status.carry
  | 1 => status.zero
  | 2 => status.sign
  | 3 => status.overflow
  | 16 => status.interruptsEnabled
  | 17 => status.userStack
  | 20 => status.userMode
  | 24 => status.priorityLevel.toNat.testBit 0
  | 25 => status.priorityLevel.toNat.testBit 1
  | 26 => status.priorityLevel.toNat.testBit 2
  | 27 => status.priorityLevel.toNat.testBit 3
  | _ => false

theorem testBit_flagBit {mask : UInt32} (place : Nat)
    (isBit : mask.toNat = 2 ^ place) (flag : Bool) (index : Nat) :
    (flagBit flag mask).toNat.testBit index =
      (flag && decide (place = index)) := by
  cases flag with
  | false => exact Nat.zero_testBit index
  | true => rw [flagBit, if_pos rfl, isBit, Nat.testBit_two_pow,
      Bool.true_and]

theorem toNat_low (level : UInt8) :
    (level &&& 0x0F).toNat = level.toNat % 2 ^ 4 := by
  rw [UInt8.toNat_and]
  exact Nat.and_two_pow_sub_one_eq_mod level.toNat 4

theorem low_le (level : UInt8) : level &&& 0x0F ≤ 15 := by
  rw [UInt8.le_iff_toNat_le, toNat_low]
  exact Nat.le_of_lt_succ (Nat.mod_lt level.toNat (Nat.two_pow_pos 4))

theorem low_eq_self {level : UInt8} (inRange : level ≤ 15) :
    level &&& 0x0F = level := by
  apply UInt8.toNat_inj.mp
  rw [toNat_low]
  exact Nat.mod_eq_of_lt
    (Nat.lt_succ_of_le (UInt8.le_iff_toNat_le.mp inRange))

theorem testBit_low (level : UInt8) (index : Nat) :
    (level &&& 0x0F).toNat.testBit index =
      (decide (index < 4) && level.toNat.testBit index) := by
  rw [toNat_low, Nat.testBit_mod_two_pow]

theorem testBit_level (level : UInt8) (index : Nat) :
    ((level &&& 0x0F).toUInt32 <<< 24).toNat.testBit index =
      (decide (24 ≤ index ∧ index < 28) &&
        level.toNat.testBit (index - 24)) := by
  have inLevel : decide (index < 32 ∧ index ≥ 24 ∧ index - 24 < 4) =
      decide (24 ≤ index ∧ index < 28) :=
    decide_eq_decide.mpr (by omega)
  rw [UInt32.toNat_shiftLeft, UInt8.toNat_toUInt32]
  change ((level &&& 0x0F).toNat <<< 24 % 2 ^ 32).testBit index = _
  rw [Nat.testBit_mod_two_pow, Nat.testBit_shiftLeft, testBit_low,
    ← inLevel, Bool.decide_and, Bool.decide_and, Bool.and_assoc,
    Bool.and_assoc]

theorem testBit_pack (status : StatusWord) (index : Nat) :
    status.pack.toNat.testBit index = status.bit index := by
  simp only [pack, UInt32.toNat_or, Nat.testBit_or, testBit_level]
  rw [testBit_flagBit 0 rfl status.carry, testBit_flagBit 1 rfl status.zero,
    testBit_flagBit 2 rfl status.sign, testBit_flagBit 3 rfl status.overflow,
    testBit_flagBit 16 rfl status.interruptsEnabled,
    testBit_flagBit 17 rfl status.userStack,
    testBit_flagBit 20 rfl status.userMode]
  unfold bit
  split
  case h_12 =>
    -- A place of no flag and of no bit of the level.
    grind
  all_goals simp

/-- The zero flag, enabled interrupts and priority level 3. -/
example :
    pack { interruptsEnabled := true, zero := true, priorityLevel := 3 } =
      0x03010002 := rfl

theorem bit_level (status : StatusWord) {index : Nat} (inside : index < 4) :
    status.bit (24 + index) = status.priorityLevel.toNat.testBit index := by
  match index, inside with
  | 0, _ => rfl
  | 1, _ => rfl
  | 2, _ => rfl
  | 3, _ => rfl

theorem testBit_unpackedLevel (word : UInt32) (index : Nat) :
    (unpack word).priorityLevel.toNat.testBit index =
      (decide (index < 4) && word.toNat.testBit (24 + index)) := by
  have shiftEq : (word >>> 24).toNat = word.toNat >>> 24 :=
    UInt32.toNat_shiftRight word 24
  have lowEq : ((word >>> 24) &&& 0x0F).toNat =
      (word.toNat >>> 24) % 2 ^ 4 := by
    rw [UInt32.toNat_and, shiftEq]
    exact Nat.and_two_pow_sub_one_eq_mod (word.toNat >>> 24) 4
  have levelEq : (unpack word).priorityLevel.toNat =
      (word.toNat >>> 24) % 2 ^ 4 := by
    rw [← lowEq]
    refine (UInt32.toNat_toUInt8 _).trans (Nat.mod_eq_of_lt ?_)
    rw [lowEq]
    omega
  rw [levelEq, Nat.testBit_mod_two_pow, Nat.testBit_shiftRight]

theorem unpack_pack (status : StatusWord) :
    unpack status.pack =
      { status with priorityLevel := status.priorityLevel &&& 0x0F } := by
  have levelEq : (unpack status.pack).priorityLevel =
      status.priorityLevel &&& 0x0F := by
    apply UInt8.toNat_inj.mp
    apply Nat.eq_of_testBit_eq
    intro index
    rw [testBit_low, testBit_unpackedLevel]
    by_cases inside : index < 4
    · rw [testBit_pack, bit_level status inside]
    · simp only [inside, decide_false, Bool.false_and]
  rw [unpack, StatusWord.mk.injEq]
  exact ⟨testBit_pack status 16, testBit_pack status 17,
    testBit_pack status 20, levelEq, testBit_pack status 3,
    testBit_pack status 2, testBit_pack status 1, testBit_pack status 0⟩

def full : StatusWord where
  interruptsEnabled := true
  userStack := true
  userMode := true
  priorityLevel := 0x0F
  overflow := true
  sign := true
  zero := true
  carry := true

theorem pack_full : full.pack = 0x0F13000F := rfl

theorem bit_unpack (word : UInt32) (index : Nat) :
    (unpack word).bit index = (word.toNat.testBit index && full.bit index) := by
  unfold bit
  split
  case h_12 => exact (Bool.and_false _).symm
  case h_8 | h_9 | h_10 | h_11 =>
    rw [testBit_unpackedLevel]
    exact (Bool.and_true _).symm
  all_goals exact (Bool.and_true _).symm

theorem pack_unpack (word : UInt32) :
    (unpack word).pack = word &&& 0x0F13000F := by
  apply UInt32.toNat_inj.mp
  apply Nat.eq_of_testBit_eq
  intro index
  rw [testBit_pack, bit_unpack, ← pack_full, UInt32.toNat_and,
    Nat.testBit_and, testBit_pack]

theorem unpack_pack_of_le {status : StatusWord}
    (inRange : status.priorityLevel ≤ 15) : unpack status.pack = status := by
  rw [unpack_pack, low_eq_self inRange]

structure Supervised (status : StatusWord) : Prop where
  priorityLevel : status.priorityLevel ≤ 15
  userStack : status.userStack = false
  userMode : status.userMode = false

theorem Supervised.flagsAfter {status : StatusWord}
    (supervised : status.Supervised) (writes : List (Fin 16 × UInt32)) :
    (Processor.flagsAfter writes status).Supervised := by
  unfold Processor.flagsAfter
  cases writes.getLast? with
  | none => exact supervised
  | some last => exact { supervised with }

end StatusWord

namespace Processor

inductive Call where
  | reset
  | setPc (address : UInt32)
  | obey (request : Request)

def called (processor : Processor) : Call → Processor
  | .reset => processor.reset.value
  | .setPc address => processor.setPc address
  | .obey request => processor.obey request

def calledAll (processor : Processor) (calls : List Call) : Processor :=
  calls.foldl called processor

theorem supervised_kept :
    KeptByExecution fun _ processor => processor.status.Supervised where
  step _ processor supervised := by
    rw [(ChangedBy.step processor).status]
    exact supervised.flagsAfter processor.written?.toList
  stop _ _ _ supervised := supervised

theorem supervised_adjusted {processor : Processor}
    (supervised : processor.status.Supervised) (adjustment : Adjustment) :
    (processor.adjusted adjustment).status.Supervised := by
  cases adjustment with
  | setFlag flag value => cases flag <;> exact { supervised with }
  | setPriorityLevel level =>
      exact { supervised with priorityLevel := StatusWord.low_le level }
  | _ => exact supervised

theorem supervised_called {processor : Processor}
    (supervised : processor.status.Supervised) (call : Call) :
    (processor.called call).status.Supervised := by
  cases call with
  | reset => exact ⟨UInt8.zero_le, rfl, rfl⟩
  | setPc address => exact supervised
  | obey request =>
      cases request with
      | execute execution =>
          exact @KeptByExecution.executed _ [] processor supervised_kept
            supervised execution
      | adjust adjustment => exact supervised_adjusted supervised adjustment

theorem supervised_calledAll {processor : Processor}
    (supervised : processor.status.Supervised) (calls : List Call) :
    (processor.calledAll calls).status.Supervised := by
  induction calls generalizing processor with
  | nil => exact supervised
  | cons call rest inductionHypothesis =>
      exact inductionHypothesis (supervised_called supervised call)

/-- Packing what was unpacked clears the reserved bits only.  Unpacking what was
packed loses nothing where the priority level is at most 15, and a processor
that was powered on has no other status word, whatever it is called to do. -/
theorem status_packed_lossless :
    (∀ word, (StatusWord.unpack word).pack = word &&& 0x0F13000F) ∧
      (∀ status : StatusWord, status.priorityLevel ≤ 15 →
        StatusWord.unpack status.pack = status) ∧
      ∀ (memory : Memory) (calls : List Call),
        let status := ((powerOn memory).value.calledAll calls).status
        status.Supervised ∧ StatusWord.unpack status.pack = status := by
  refine ⟨StatusWord.pack_unpack,
    fun _ inRange => StatusWord.unpack_pack_of_le inRange, ?_⟩
  intro memory calls status
  have poweredOn : (powerOn memory).value.status.Supervised :=
    ⟨UInt8.zero_le, rfl, rfl⟩
  have supervised : status.Supervised :=
    supervised_calledAll poweredOn calls
  exact ⟨supervised, StatusWord.unpack_pack_of_le supervised.priorityLevel⟩

end Processor

end RxBoard
