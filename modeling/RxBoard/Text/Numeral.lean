import RxBoard.Text.Basic

/-!
Reading numerals.

Digits are read from left to right, and the first digit that takes the value
past the limit ends the reading: what follows it is not looked at.  A character
that is no digit is malformed wherever it is met, also in the place where a
digit would have overflowed.
-/

namespace RxBoard.Text

inductive NumeralFault where
  | malformed
  | overflow
  deriving DecidableEq

def digitValue? (radix : Nat) (character : Char) : Option Nat :=
  let code := character.toNat
  let candidate :=
    if '0'.toNat ≤ code && code ≤ '9'.toNat then
      code - '0'.toNat
    else if 'A'.toNat ≤ code && code ≤ 'F'.toNat then
      code - 'A'.toNat + 10
    else if 'a'.toNat ≤ code && code ≤ 'f'.toNat then
      code - 'a'.toNat + 10
    else
      radix
  if candidate < radix then some candidate else none

/-- Reads digits on top of the value of those already read. -/
def readDigits (radix limit : Nat) : Nat → Text → Except NumeralFault Nat
  | read, [] => .ok read
  | read, character :: rest =>
      match digitValue? radix character with
      | none => .error .malformed
      | some digit =>
          if limit < read * radix + digit then
            .error .overflow
          else
            readDigits radix limit (read * radix + digit) rest

def readMagnitude (radix limit : Nat) (text : Text) :
    Except NumeralFault Nat :=
  if text.isEmpty then
    .error .malformed
  else
    readDigits radix limit 0 text

def readUnsigned (radix limit : Nat) : Text → Except NumeralFault Nat
  | '+' :: digits => readMagnitude radix limit digits
  | digits => readMagnitude radix limit digits

/-- Reads one or more decimal digits with an optional sign in front.  As in
two's complement, a negative number may go one further than a positive one. -/
def readSigned (largest : Nat) : Text → Except NumeralFault Int
  | '-' :: digits =>
      (readMagnitude 10 (largest + 1) digits).map fun magnitude =>
        -(magnitude : Int)
  | '+' :: digits => (readMagnitude 10 largest digits).map Int.ofNat
  | digits => (readMagnitude 10 largest digits).map Int.ofNat

end RxBoard.Text
