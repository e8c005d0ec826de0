import RxBoard.Text.Basic

/-!
Printed numbers: hexadecimal of fixed width in capital letters, the form of
addresses and bytes, and decimal without leading zeros, the form of register
numbers and counts.
-/

namespace RxBoard.Text

def hexDigit (number : Nat) : Char :=
  if number < 10 then
    Char.ofNat ('0'.toNat + number)
  else
    Char.ofNat ('A'.toNat + (number - 10))

/-- The last `width` hexadecimal digits of a number, with leading zeros. -/
def hexadecimal : Nat → Nat → Text
  | 0, _ => []
  | width + 1, number =>
      hexadecimal width (number / 16) ++ [hexDigit (number % 16)]

def hexByte (byte : UInt8) : Text :=
  hexadecimal 2 byte.toNat

def hexWord (word : UInt32) : Text :=
  hexadecimal 8 word.toNat

def hexBytes (bytes : List UInt8) : Text :=
  List.intercalate [' '] (bytes.map hexByte)

def decimal (number : Nat) : Text :=
  Nat.toDigits 10 number

@[simp] theorem length_hexadecimal (width number : Nat) :
    (hexadecimal width number).length = width := by
  induction width generalizing number with
  | zero => rfl
  | succ width inductionHypothesis =>
      simp [hexadecimal, inductionHypothesis]

end RxBoard.Text
