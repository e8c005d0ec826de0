import RxBoard.AddressMap
import RxBoard.Peripheral.RegisterBlock
import RxBoard.Text.Printed

/-!
The serial channel: its only register, at offset 0, transmits each byte that is
written to it and reads as zero.

A transmitted byte goes to the log, which can be cleared, and is delivered to
the listener, if one is attached.  A listener stays attached when the channel is
reset.
-/

namespace RxBoard

structure SerialChannel where
  /-- The bytes transmitted since the log was last cleared, latest first. -/
  recent : List UInt8 := []
  hasListener : Bool := false
  deriving DecidableEq

namespace SerialChannel

def log (channel : SerialChannel) : List UInt8 :=
  channel.recent.reverse

def attachListener (channel : SerialChannel) : SerialChannel :=
  { channel with hasListener := true }

def clearLog (channel : SerialChannel) : SerialChannel :=
  { channel with recent := [] }

/-- Transmits a byte: to the log first, then to the listener. -/
def transmit (channel : SerialChannel) (byte : UInt8) :
    Logged SerialChannel := do
  Logged.report (.transmitted byte)
  if channel.hasListener then
    Logged.report (.delivered byte)
  return { channel with recent := byte :: channel.recent }

@[simp] theorem value_transmit (channel : SerialChannel) (byte : UInt8) :
    (channel.transmit byte).value =
      { channel with recent := byte :: channel.recent } := by
  unfold transmit
  cases attached : channel.hasListener with
  | false => simp
  | true => simp

def logText (channel : SerialChannel) : Text :=
  channel.log.map fun byte => Char.ofNat byte.toNat

/-- Hexadecimal digits in small letters without leading zeros. -/
def escapedCode (code : Nat) : Text :=
  Nat.toDigits 16 code

def quotedCharacter (character : Char) : Text :=
  let code := character.toNat
  if character = '"' then ['\\', '"']
  else if character = '\\' then ['\\', '\\']
  else if code = 0 then ['\\', '0']
  else if character = '\t' then ['\\', 't']
  else if character = '\r' then ['\\', 'r']
  else if character = '\n' then ['\\', 'n']
  else if code < 0x20 || (0x7F ≤ code && code ≤ 0xA0) ||
      code = 0xAD then
    ['\\', 'u', '\x7b'] ++ escapedCode code ++ ['\x7d']
  else
    [character]

def description (channel : SerialChannel) : Text :=
  "SerialTx \x7b tx_log: \"".toList ++
    channel.logText.flatMap quotedCharacter ++
    "\", on_transmit: ".toList ++
    (if channel.hasListener then "true" else "false").toList ++
    " \x7d".toList

instance : RegisterBlock SerialChannel where
  baseAddress := AddressMap.serialBase
  size := 1
  reset channel := channel.clearLog
  read8 _ _ := 0
  write8 channel offset byte :=
    if offset = 0 then channel.transmit byte else pure channel

end SerialChannel

end RxBoard
