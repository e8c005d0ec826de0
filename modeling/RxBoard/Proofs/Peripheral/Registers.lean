import Mathlib.Data.Nat.Bitwise
import RxBoard.Peripheral.Pins
import RxBoard.Peripheral.Timer
import RxBoard.Proofs.Peripheral.RegisterFile

/-!
The timer and the pins as register files.

Every register holds the last byte written to its offset since the last reset,
however the writes overlap; the input register of the pins takes no writes, and
holds the levels last driven from outside (`registers_hold_last_written`).
-/

namespace RxBoard

open RegisterBlock

/-! ### The timer -/

namespace Timer

theorem image_ofImage {bytes : List UInt8} (ten : bytes.length = 10) :
    (ofImage bytes).image = bytes := by
  have counterEq : LittleEndian.wordBytes (ofImage bytes).counter =
      bytes.take 4 :=
    LittleEndian.wordBytes_word (by rw [List.length_take, ten]; rfl)
  have compareEq : LittleEndian.wordBytes (ofImage bytes).compare =
      (bytes.drop 4).take 4 :=
    LittleEndian.wordBytes_word
      (by rw [List.length_take, List.length_drop, ten]; rfl)
  have controlEq : [(ofImage bytes).enable,
      (ofImage bytes).interruptEnable] = (bytes.drop 4).drop 4 := by
    rw [List.drop_drop, List.drop_eq_getElem_cons (by omega),
      List.drop_eq_getElem_cons (by omega),
      List.drop_eq_nil_of_le (by omega)]
    simp [ofImage, ten]
  rw [image, counterEq, compareEq, controlEq, List.append_assoc,
    List.take_append_drop, List.take_append_drop]

theorem read8_eq (timer : Timer) (offset : UInt32) :
    read8 timer offset = timer.image.getD offset.toNat 0 := rfl

theorem read8_undefined (timer : Timer) {offset : UInt32}
    (outside : 10 ≤ offset) : read8 timer offset = 0 := by
  have past : timer.image.length ≤ offset.toNat := by
    rw [length_image]
    exact UInt32.le_iff_toNat_le.mp outside
  rw [read8_eq, List.getD_eq_getElem?_getD,
    List.getElem?_eq_none past]
  rfl

theorem storesBytes : StoresBytes Timer (· < 10) := by
  intro timer target offset byte inside
  have imageEq : (write8 timer target byte).value.image =
      timer.image.set target.toNat byte :=
    image_ofImage (by rw [List.length_set, length_image])
  have within : offset.toNat < timer.image.length := by
    rw [length_image]
    exact UInt32.lt_iff_toNat_lt.mp inside
  rw [read8_eq, read8_eq, imageEq, List.getD_eq_getElem?_getD,
    List.getD_eq_getElem?_getD, List.getElem?_set]
  by_cases same : offset = target
  · subst same
    rw [if_pos rfl, if_pos rfl, if_pos within]
    rfl
  · have apart : target.toNat ≠ offset.toNat :=
      fun equal => same (UInt32.toNat_inj.mp equal).symm
    rw [if_neg same, if_neg apart]

theorem setEnabled_eq (timer : Timer) (enabled : Bool) :
    timer.setEnabled enabled =
      (write8 timer 8 (if enabled then 1 else 0)).value := by
  -- In its image the control bytes of the timer are items of a list.
  rw [← ofImage_image (timer.setEnabled enabled)]
  rfl

theorem setInterruptEnabled_eq (timer : Timer) (enabled : Bool) :
    timer.setInterruptEnabled enabled =
      (write8 timer 9 (if enabled then 1 else 0)).value := by
  rw [← ofImage_image (timer.setInterruptEnabled enabled)]
  rfl

theorem read32_counter (timer : Timer) :
    read32 timer 0 = timer.counter := by
  have bytesEq : readBytes timer 0 4 =
      LittleEndian.wordBytes timer.counter := by
    simp only [readBytes, read8_eq]
    rw [image, LittleEndian.wordBytes_eq timer.counter]
    rfl
  rw [read32, bytesEq, LittleEndian.word_wordBytes]

theorem read32_compare (timer : Timer) :
    read32 timer 4 = timer.compare := by
  have bytesEq : readBytes timer 4 4 =
      LittleEndian.wordBytes timer.compare := by
    simp only [readBytes, read8_eq]
    rw [image, LittleEndian.wordBytes_eq timer.counter,
      LittleEndian.wordBytes_eq timer.compare]
    rfl
  rw [read32, bytesEq, LittleEndian.word_wordBytes]

inductive HostCall where
  | setEnabled (enabled : Bool)
  | setInterruptEnabled (enabled : Bool)

def call (timer : Timer) : HostCall → Timer
  | .setEnabled enabled => timer.setEnabled enabled
  | .setInterruptEnabled enabled => timer.setInterruptEnabled enabled

/-- The byte that a call sets, with the offset of its register. -/
def HostCall.bytes : HostCall → List (UInt32 × UInt8)
  | .setEnabled enabled => [(8, if enabled then 1 else 0)]
  | .setInterruptEnabled enabled => [(9, if enabled then 1 else 0)]

def powerOn (offset : UInt32) : UInt8 :=
  [0, 0, 0, 0, 0xE8, 0x03, 0, 0, 0, 0].getD offset.toNat 0

structure Shows (timer : Timer) (written : List (UInt32 × UInt8)) :
    Prop where
  registers : HoldsLast (· < 10) powerOn timer written
  undefined (offset : UInt32) : 10 ≤ offset → read8 timer offset = 0
  wide : ReadsBytewise timer
  counter : timer.counter = read32 timer 0
  compare : timer.compare = read32 timer 4

theorem holdsLast_performAll
    (operations : List (RegisterOperation HostCall)) :
    HoldsLast (· < 10) powerOn (performAll call ({} : Timer) operations)
      (RegisterOperation.history BusWrite.bytes HostCall.bytes
        operations) := by
  have start : HoldsLast (· < 10) powerOn ({} : Timer) [] :=
    fun _offset _inside => rfl
  apply holds_performAll
  · exact fun _timer => start
  · exact fun holds access => holds.write storesBytes access
  · intro timer history holds request
    cases request with
    | setEnabled enabled =>
        rw [call, setEnabled_eq]
        exact holds.write8 storesBytes 8 _
    | setInterruptEnabled enabled =>
        rw [call, setInterruptEnabled_eq]
        exact holds.write8 storesBytes 9 _
  · exact start

end Timer

/-! ### The pins -/

namespace Pins

theorem toNat_bitOf (pin : UInt8) :
    (bitOf pin).toNat = 2 ^ (pin.toNat % 8) := by
  have maskEq : (pin &&& 0x07).toNat = pin.toNat % 8 := by
    rw [UInt8.toNat_and]
    exact Nat.and_two_pow_sub_one_eq_mod pin.toNat 3
  have small : 2 ^ (pin.toNat % 8) < 2 ^ 8 :=
    Nat.pow_lt_pow_right (Nat.lt_succ_self 1)
      (Nat.mod_lt _ (Nat.zero_lt_succ 7))
  rw [bitOf, UInt8.toNat_shiftLeft, maskEq, Nat.mod_mod,
    Nat.shiftLeft_eq, UInt8.toNat_one, Nat.one_mul,
    Nat.mod_eq_of_lt small]

theorem isSet_eq_testBit (register pin : UInt8) :
    isSet register pin = register.toNat.testBit (pin.toNat % 8) := by
  have masked : (register &&& bitOf pin).toNat =
      (register.toNat.testBit (pin.toNat % 8)).toNat *
        2 ^ (pin.toNat % 8) := by
    rw [UInt8.toNat_and, toNat_bitOf, Nat.and_two_pow]
  have positive : 0 < 2 ^ (pin.toNat % 8) := Nat.two_pow_pos _
  rw [isSet, Bool.eq_iff_iff, bne_iff_ne, ne_eq, ← UInt8.toNat_inj,
    masked]
  cases register.toNat.testBit (pin.toNat % 8) with
  | false => simp
  | true => simp

theorem testBit_input_setInput (pins : Pins) (pin : UInt8)
    (level : Bool) {index : Nat} (inside : index < 8) :
    (pins.setInput pin level).input.toNat.testBit index =
      if index = pin.toNat % 8 then level
      else pins.input.toNat.testBit index := by
  have small := (bitOf pin).toNat_lt
  cases level with
  | true =>
      have inputEq : (pins.setInput pin true).input.toNat =
          pins.input.toNat ||| 2 ^ (pin.toNat % 8) := by
        rw [← toNat_bitOf]
        exact UInt8.toNat_or ..
      rw [inputEq, Nat.testBit_or, Nat.testBit_two_pow]
      by_cases same : index = pin.toNat % 8
      · simp [same]
      · simp [same, Ne.symm same]
  | false =>
      have inputEq : (pins.setInput pin false).input.toNat =
          pins.input.toNat &&&
            (2 ^ 8 - ((bitOf pin).toNat + 1)) := by
        rw [Nat.add_comm, ← Nat.sub_sub]
        change (pins.input &&& ~~~ bitOf pin).toNat = _
        rw [UInt8.toNat_and, UInt8.toNat_not]
        rfl
      rw [inputEq, Nat.testBit_and,
        Nat.testBit_two_pow_sub_succ small, toNat_bitOf,
        Nat.testBit_two_pow]
      by_cases same : index = pin.toNat % 8
      · simp [same]
      · simp [same, Ne.symm same, inside]

theorem level_eq_testBit (pins : Pins) (pin : UInt8) :
    pins.level pin =
      if pins.direction.toNat.testBit (pin.toNat % 8) then
        pins.output.toNat.testBit (pin.toNat % 8)
      else
        pins.input.toNat.testBit (pin.toNat % 8) := by
  rw [level, isSet_eq_testBit, isSet_eq_testBit, isSet_eq_testBit]

def IsWritable (offset : UInt32) : Prop :=
  offset = 0 ∨ offset = 1

theorem storesBytes : StoresBytes Pins IsWritable := by
  intro pins target offset byte writable
  by_cases atDirection : target = 0
  · subst atDirection
    rcases writable with rfl | rfl <;> rfl
  · by_cases atOutput : target = 1
    · subst atOutput
      rcases writable with rfl | rfl <;> rfl
    · have unchanged : (write8 pins target byte).value = pins := by
        simp [write8, atDirection, atOutput]
      have apart : offset ≠ target := by
        rintro rfl
        exact writable.elim atDirection atOutput
      rw [unchanged, if_neg apart]

theorem read8_undefined (pins : Pins) {offset : UInt32}
    (outside : 3 ≤ offset) : read8 pins offset = 0 := by
  have past := UInt32.le_iff_toNat_le.mp outside
  have apart {register : UInt32} (inside : register.toNat < 3) :
      offset ≠ register := by
    rintro rfl
    exact Nat.not_lt.mpr past inside
  have notDirection : offset ≠ 0 := apart (Nat.zero_lt_succ 2)
  have notOutput : offset ≠ 1 := apart (Nat.one_lt_succ_succ 1)
  have notInput : offset ≠ 2 := apart (Nat.lt_succ_self 2)
  simp [read8, notDirection, notOutput, notInput]

theorem input_write8 (pins : Pins) (offset : UInt32) (byte : UInt8) :
    (write8 pins offset byte).value.input = pins.input := by
  change Pins.input (Logged.value (if offset = 0 then _ else _)) = _
  split
  · rfl
  · split
    · rfl
    · rfl

theorem input_write (pins : Pins) (access : BusWrite) :
    (write pins access).value.input = pins.input := by
  rw [value_write]
  induction access.bytes generalizing pins with
  | nil => rfl
  | cons byte rest inductionHypothesis =>
      rw [List.foldl_cons, inductionHypothesis, input_write8]

inductive HostCall where
  | setInput (pin : UInt8) (level : Bool)

def call (pins : Pins) : HostCall → Pins
  | .setInput pin level => pins.setInput pin level

def HostCall.levels : HostCall → List (Nat × Bool)
  | .setInput pin level => [(pin.toNat % 8, level)]

def HoldsLevels (pins : Pins) (driven : List (Nat × Bool)) : Prop :=
  ∀ index, index < 8 →
    (read8 pins 2).toNat.testBit index =
      (lastFor? driven index).getD false

structure Shows (pins : Pins) (written : List (UInt32 × UInt8))
    (driven : List (Nat × Bool)) : Prop where
  registers : HoldsLast IsWritable (fun _ => 0) pins written
  inputs : HoldsLevels pins driven
  undefined (offset : UInt32) : 3 ≤ offset → read8 pins offset = 0
  wide : ReadsBytewise pins
  outputByte : pins.outputByte = read8 pins 1 &&& read8 pins 0
  level (pin : UInt8) :
    pins.level pin =
      if (read8 pins 0).toNat.testBit (pin.toNat % 8) then
        (read8 pins 1).toNat.testBit (pin.toNat % 8)
      else
        (read8 pins 2).toNat.testBit (pin.toNat % 8)

theorem holdsLast_performAll
    (operations : List (RegisterOperation HostCall)) :
    HoldsLast IsWritable (fun _ => 0)
      (performAll call ({} : Pins) operations)
      (RegisterOperation.history BusWrite.bytes (fun _ => [])
        operations) := by
  have start : HoldsLast IsWritable (fun _ => 0) ({} : Pins) [] := by
    rintro offset (rfl | rfl) <;> rfl
  apply holds_performAll
  · exact fun _pins => start
  · exact fun holds access => holds.write storesBytes access
  · intro pins history holds request
    cases request with
    | setInput pin level =>
        rw [List.append_nil]
        rintro offset (rfl | rfl)
        · exact holds 0 (Or.inl rfl)
        · exact holds 1 (Or.inr rfl)
  · exact start

theorem holdsLevels_performAll
    (operations : List (RegisterOperation HostCall)) :
    HoldsLevels (performAll call ({} : Pins) operations)
      (RegisterOperation.history (fun _ => []) HostCall.levels
        operations) := by
  have start : HoldsLevels ({} : Pins) [] :=
    fun index _inside => Nat.zero_testBit index
  apply holds_performAll
  · exact fun _pins => start
  · intro pins history holds access index inside
    -- A write enters no level, and leaves the input register as it was.
    rw [List.append_nil, ← holds index inside]
    exact congrArg (fun input : UInt8 => input.toNat.testBit index)
      (input_write pins access)
  · intro pins history holds request index inside
    cases request with
    | setInput pin level =>
        refine (testBit_input_setInput pins pin level inside).trans ?_
        rw [HostCall.levels, lastFor?_append_singleton]
        split
        · rfl
        · exact holds index inside
  · exact start

end Pins

/-- After any sequence of writes, resets and calls from the host, the timer and
the pins show what was last written to each of their registers since the last
reset. -/
theorem registers_hold_last_written :
    (∀ operations : List (RegisterOperation Timer.HostCall),
      (performAll Timer.call ({} : Timer) operations).Shows
        (RegisterOperation.history BusWrite.bytes Timer.HostCall.bytes
          operations)) ∧
      ∀ operations : List (RegisterOperation Pins.HostCall),
        (performAll Pins.call ({} : Pins) operations).Shows
          (RegisterOperation.history BusWrite.bytes (fun _ => [])
            operations)
          (RegisterOperation.history (fun _ => []) Pins.HostCall.levels
            operations) := by
  constructor
  · intro operations
    exact {
      registers := Timer.holdsLast_performAll operations
      undefined := fun _offset outside =>
        Timer.read8_undefined _ outside
      wide := readsBytewise _
      counter := (Timer.read32_counter _).symm
      compare := (Timer.read32_compare _).symm }
  · intro operations
    exact {
      registers := Pins.holdsLast_performAll operations
      inputs := Pins.holdsLevels_performAll operations
      undefined := fun _offset outside => Pins.read8_undefined _ outside
      wide := readsBytewise _
      outputByte := rfl
      level := Pins.level_eq_testBit _ }

/-- A word that starts at the last offset wraps around to the first three bytes
of the counter; the halfword behind it crosses into the compare value. -/
theorem registers_hold_last_written_wrapped :
    let operations : List (RegisterOperation Timer.HostCall) :=
      [.write (.word 0 0xFFFFFFFF), .reset, .call (.setEnabled true),
        .write (.word 0xFFFFFFFF 0x44332211),
        .write (.halfword 3 0x6655)]
    let timer := performAll Timer.call ({} : Timer) operations
    timer.Shows
        (RegisterOperation.history BusWrite.bytes Timer.HostCall.bytes
          operations) ∧
      timer.counter = 0x55443322 ∧ timer.compare = 0x00000366 ∧
      timer.enable = 1 := by
  intro operations timer
  obtain ⟨timerShows, _⟩ := registers_hold_last_written
  exact ⟨timerShows operations, rfl, rfl, rfl⟩

end RxBoard
