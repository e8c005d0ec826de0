import RxBoard.AddressMap
import RxBoard.Peripheral.RegisterBlock

/-!
The compare match timer: a counter that starts again from zero when it reaches
the compare value.

| Offset | Register |
|---|---|
| 0 to 3 | counter |
| 4 to 7 | compare value |
| 8 | not zero: the counter runs |
| 9 | not zero: a match raises an interrupt |

A match clears the counter whatever the excess, so one advance has at most one
match.

The counter and the cycles given to an advance are added up as a 64-bit word,
here as a natural number: the sum is meant below 2 ^ 64.
-/

namespace RxBoard

structure Timer where
  counter : UInt32 := 0
  compare : UInt32 := 1000
  enable : UInt8 := 0
  interruptEnable : UInt8 := 0
  deriving DecidableEq

namespace Timer

def interruptVector : UInt32 := 28

def interruptPriority : UInt8 := 3

def interruptSource : String := "CMT0"

def isEnabled (timer : Timer) : Bool :=
  timer.enable != 0

def isInterruptEnabled (timer : Timer) : Bool :=
  timer.interruptEnable != 0

def setEnabled (timer : Timer) (enabled : Bool) : Timer :=
  { timer with enable := if enabled then 1 else 0 }

def setInterruptEnabled (timer : Timer) (enabled : Bool) : Timer :=
  { timer with interruptEnable := if enabled then 1 else 0 }

structure Advance where
  isMatch : Bool
  timer : Timer
  queue : InterruptQueue

/-- Counts cycles if the counter runs. -/
def advance (timer : Timer) (cycles : Nat) (queue : InterruptQueue) :
    Logged Advance :=
  if timer.isEnabled then
    let count := timer.counter.toNat + cycles
    if count < timer.compare.toNat then
      pure ⟨false, { timer with counter := UInt32.ofNat count }, queue⟩
    else do
      Logged.report (.compareMatch timer.compare)
      let raised ←
        if timer.isInterruptEnabled then
          queue.request interruptVector interruptPriority interruptSource
        else
          pure queue
      return ⟨true, { timer with counter := 0 }, raised⟩
  else
    pure ⟨false, timer, queue⟩

def image (timer : Timer) : List UInt8 :=
  LittleEndian.wordBytes timer.counter ++
    LittleEndian.wordBytes timer.compare ++
    [timer.enable, timer.interruptEnable]

def ofImage (bytes : List UInt8) : Timer where
  counter := LittleEndian.word (bytes.take 4)
  compare := LittleEndian.word ((bytes.drop 4).take 4)
  enable := bytes.getD 8 0
  interruptEnable := bytes.getD 9 0

@[simp] theorem length_image (timer : Timer) :
    timer.image.length = 10 := by
  simp [image]

@[simp] theorem ofImage_image (timer : Timer) :
    ofImage timer.image = timer := by
  have counterLength :
      (LittleEndian.wordBytes timer.counter).length = 4 := by simp
  have compareLength :
      (LittleEndian.wordBytes timer.compare).length = 4 := by simp
  simp [ofImage, image, counterLength, compareLength]

instance : RegisterBlock Timer where
  baseAddress := AddressMap.timerBase
  size := 10
  reset _ := {}
  read8 timer offset := timer.image.getD offset.toNat 0
  write8 timer offset byte :=
    pure (ofImage (timer.image.set offset.toNat byte))
  tick timer cycles queue :=
    (fun advanced => (advanced.timer, advanced.queue)) <$>
      timer.advance cycles queue

end Timer

end RxBoard
