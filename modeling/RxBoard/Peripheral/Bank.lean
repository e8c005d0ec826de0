import RxBoard.Peripheral.Pins
import RxBoard.Peripheral.SerialChannel
import RxBoard.Peripheral.Timer

/-!
The peripherals of the board together, with the queue of the interrupts they
raise.
-/

namespace RxBoard

structure PeripheralBank where
  interrupts : InterruptQueue := InterruptQueue.empty
  pins : Pins := {}
  timer : Timer := {}
  serial : SerialChannel := {}
  deriving DecidableEq

namespace PeripheralBank

def tick (bank : PeripheralBank) (cycles : Nat) :
    Logged PeripheralBank := do
  let (pins, afterPins) ←
    RegisterBlock.tick bank.pins cycles bank.interrupts
  let (timer, afterTimer) ←
    RegisterBlock.tick bank.timer cycles afterPins
  let (serial, afterSerial) ←
    RegisterBlock.tick bank.serial cycles afterTimer
  return { interrupts := afterSerial, pins, timer, serial }

def reset (bank : PeripheralBank) : PeripheralBank where
  interrupts := InterruptQueue.empty
  pins := RegisterBlock.reset bank.pins
  timer := RegisterBlock.reset bank.timer
  serial := RegisterBlock.reset bank.serial

def write? (bank : PeripheralBank) (name : String) (offset : UInt32)
    (byte : UInt8) : Option (Logged PeripheralBank) :=
  match name with
  | "gpio" =>
      some ((fun pins => { bank with pins }) <$>
        RegisterBlock.write8 bank.pins offset byte)
  | "timer" =>
      some ((fun timer => { bank with timer }) <$>
        RegisterBlock.write8 bank.timer offset byte)
  | "serial" =>
      some ((fun serial => { bank with serial }) <$>
        RegisterBlock.write8 bank.serial offset byte)
  | _ => none

end PeripheralBank

end RxBoard
