import RxBoard.AddressMap
import RxBoard.Peripheral.RegisterBlock

/-!
The eight digital pins of the board.

| Offset | Register | Access |
|---|---|---|
| 0 | direction, one bit for each output pin | read and write |
| 1 | output levels | read and write |
| 2 | input levels, driven from outside | read |

Pins are numbered by the low three bits of a byte.
-/

namespace RxBoard

structure Pins where
  direction : UInt8 := 0
  output : UInt8 := 0
  input : UInt8 := 0
  deriving DecidableEq

namespace Pins

def bitOf (pin : UInt8) : UInt8 :=
  1 <<< (pin &&& 0x07)

def isSet (register pin : UInt8) : Bool :=
  register &&& bitOf pin != 0

def setInput (pins : Pins) (pin : UInt8) (level : Bool) : Pins :=
  { pins with
    input :=
      if level then
        pins.input ||| bitOf pin
      else
        pins.input &&& ~~~ bitOf pin }

def outputLevel (pins : Pins) (pin : UInt8) : Bool :=
  isSet pins.output pin

/-- The level of a pin: that of the output register for an output, and that
driven from outside for an input. -/
def level (pins : Pins) (pin : UInt8) : Bool :=
  if isSet pins.direction pin then
    isSet pins.output pin
  else
    isSet pins.input pin

/-- The levels of the output pins; input pins count as low. -/
def outputByte (pins : Pins) : UInt8 :=
  pins.output &&& pins.direction

instance : RegisterBlock Pins where
  baseAddress := AddressMap.pinsBase
  size := 3
  reset _ := {}
  read8 pins offset :=
    if offset = 0 then pins.direction
    else if offset = 1 then pins.output
    else if offset = 2 then pins.input
    else 0
  write8 pins offset byte :=
    if offset = 0 then pure { pins with direction := byte }
    else if offset = 1 then pure { pins with output := byte }
    else pure pins

end Pins

end RxBoard
