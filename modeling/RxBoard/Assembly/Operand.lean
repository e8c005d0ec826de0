import RxBoard.Assembly.SourceError
import RxBoard.Text.Numeral

/-!
Operands of instructions: their kinds, which show in the shape of a token, and
their values.

The kind is told from the token as it stands, in capitals.  Values are read in
either case.
-/

namespace RxBoard

inductive OperandKind where
  | immediate
  | register
  deriving DecidableEq

inductive Operand where
  | immediate (value : UInt32)
  | register (name : UInt8)
  deriving DecidableEq

namespace OperandKind

/-- The kind that a token is shaped like, if any.  The value need not be
valid. -/
def ofToken? : Text → Option OperandKind
  | '#' :: _ => some .immediate
  | 'R' :: _ => some .register
  | ['S', 'P'] => some .register
  | ['P', 'C'] => some .register
  | _ => none

def name : OperandKind → Text
  | immediate => "immediate".toList
  | register => "register".toList

def shapeName : Option OperandKind → Text
  | some kind => kind.name
  | none => "unknown".toList

end OperandKind

def withoutNumberSign : Text → Text
  | '#' :: rest => rest
  | token => token

def largestWord : Nat := 0xFFFFFFFF

def smallestSignedWord : Int := -0x80000000

/-- The largest decimal number that is read at all, before it is known whether
a word holds it. -/
def largestDecimal : Nat := 0x7FFFFFFFFFFFFFFF

/-- Reads the numeral of an immediate, in capitals: hexadecimal after `0X`, and
otherwise decimal.  A decimal numeral may also be one of a 32-bit integer in
two's complement, and stands for the word with the same bits. -/
def readImmediate : Text → Except Text.NumeralFault UInt32
  | '0' :: 'X' :: digits =>
      (Text.readUnsigned 16 largestWord digits).map UInt32.ofNat
  | numeral =>
      match Text.readSigned largestDecimal numeral with
      | .error fault => .error fault
      | .ok value =>
          if value < smallestSignedWord || largestWord < value then
            .error .overflow
          else
            .ok (UInt32.ofInt value)

def parseImmediate (token : Text) : Except SourceError UInt32 :=
  match readImmediate (Text.upper (withoutNumberSign token)) with
  | .ok value => .ok value
  | .error .overflow => .error (.immediateOutOfRange token)
  | .error .malformed => .error (.invalidImmediate token)

/-- Reads the name of a register, in capitals: `SP`, or `R` and a number up to
fifteen. -/
def readRegister? : Text → Option UInt8
  | ['S', 'P'] => some 0
  | 'R' :: digits =>
      match Text.readUnsigned 10 15 digits with
      | .ok number => some (UInt8.ofNat number)
      | .error _ => none
  | _ => none

def parseRegister (token : Text) : Except SourceError UInt8 :=
  match readRegister? (Text.upper token) with
  | some name => .ok name
  | none => .error (.invalidRegister token)

def OperandKind.parse (kind : OperandKind) (token : Text) :
    Except SourceError Operand :=
  match kind with
  | immediate => (parseImmediate token).map Operand.immediate
  | register => (parseRegister token).map Operand.register

end RxBoard
