import RxBoard.Instruction.Basic
import RxBoard.LittleEndian

/-!
Instructions as bytes.

| Bytes | Instruction | Size | Cycles |
|---|---|---|---|
| `03` | `NOP` | 1 | 1 |
| `FB 12 0d` and a word | `MOV.L #imm, Rd` | 7 | 2 |
| `CF sd` | `MOV.L Rs, Rd` | 2 | 1 |
| `72 2d` and a word | `ADD.L #imm, Rd` | 6 | 2 |

`Instruction.encode` writes an instruction.  `decode` reads one from the front
of a byte string by the rows of `encodings`: the first row that matches and
fits is taken, and a byte that no row takes is unrecognized.
-/

namespace RxBoard

def lowNibble (byte : UInt8) : UInt8 :=
  byte &&& 0x0F

/-- The encoding of an instruction.  Register fields keep their low four
bits. -/
def Instruction.encode : Instruction → List UInt8
  | nop => [0x03]
  | moveImmediate destination immediate =>
      [0xFB, 0x12, lowNibble destination] ++
        LittleEndian.wordBytes immediate
  | moveRegister source destination =>
      [0xCF, lowNibble source <<< 4 ||| lowNibble destination]
  | addImmediate destination immediate =>
      [0x72, 0x20 ||| lowNibble destination] ++
        LittleEndian.wordBytes immediate
  | unrecognized opcode => [opcode]

structure ByteTest where
  mask : UInt8
  expected : UInt8
  deriving DecidableEq

def ByteTest.accepts (test : ByteTest) (byte : UInt8) : Bool :=
  byte &&& test.mask == test.expected

structure Encoding where
  mnemonic : Text
  pattern : List ByteTest
  size : Nat
  cycles : Nat
  /-- The operand fields of a whole encoding; none of a shorter string. -/
  extract : List UInt8 → Option Instruction
  size_pos : 0 < size := by decide
  cycles_pos : 0 < cycles := by decide

namespace Encoding

def passes : List ByteTest → List UInt8 → Bool
  | [], _ => true
  | _ :: _, [] => false
  | test :: tests, byte :: bytes =>
      test.accepts byte && passes tests bytes

/-- Whether the leading bytes match the row, be the encoding whole or cut
short. -/
def isMatch (encoding : Encoding) (bytes : List UInt8) : Bool :=
  passes encoding.pattern bytes

/-- Whether a byte string is as long as the whole encoding.  Only so many bytes
are looked at, however long the string is. -/
def fits (encoding : Encoding) (bytes : List UInt8) : Bool :=
  (bytes.take encoding.size).length == encoding.size

theorem fits_iff (encoding : Encoding) (bytes : List UInt8) :
    encoding.fits bytes = true ↔ encoding.size ≤ bytes.length := by
  simp only [fits, List.length_take, beq_iff_eq]
  omega

def accepts (encoding : Encoding) (bytes : List UInt8) : Bool :=
  encoding.isMatch bytes && encoding.fits bytes

def extractNop : List UInt8 → Option Instruction
  | _ => some .nop

def extractMoveImmediate : List UInt8 → Option Instruction
  | _ :: _ :: destination :: byte0 :: byte1 :: byte2 :: byte3 :: _ =>
      some (.moveImmediate (lowNibble destination)
        (LittleEndian.word [byte0, byte1, byte2, byte3]))
  | _ => none

def extractMoveRegister : List UInt8 → Option Instruction
  | _ :: registers :: _ =>
      some (.moveRegister (registers >>> 4) (lowNibble registers))
  | _ => none

def extractAddImmediate : List UInt8 → Option Instruction
  | _ :: destination :: byte0 :: byte1 :: byte2 :: byte3 :: _ =>
      some (.addImmediate (lowNibble destination)
        (LittleEndian.word [byte0, byte1, byte2, byte3]))
  | _ => none

end Encoding

def encodings : List Encoding :=
  [ { mnemonic := "NOP".toList
      pattern := [⟨0xFF, 0x03⟩]
      size := 1
      cycles := 1
      extract := Encoding.extractNop },
    { mnemonic := "MOV.L".toList
      pattern := [⟨0xFF, 0xFB⟩, ⟨0xFF, 0x12⟩, ⟨0xF0, 0x00⟩]
      size := 7
      cycles := 2
      extract := Encoding.extractMoveImmediate },
    { mnemonic := "MOV.L".toList
      pattern := [⟨0xFF, 0xCF⟩]
      size := 2
      cycles := 1
      extract := Encoding.extractMoveRegister },
    { mnemonic := "ADD.L".toList
      pattern := [⟨0xFF, 0x72⟩, ⟨0xF0, 0x20⟩]
      size := 6
      cycles := 2
      extract := Encoding.extractAddImmediate } ]

def longestEncoding : Nat := 7

def unrecognizedSize : Nat := 1

def unrecognizedCycles : Nat := 1

/-- An instruction read from bytes, with the bytes it takes up and the cycles
it takes.  Neither is ever zero, so a walk over code always moves on. -/
structure Decoded where
  instruction : Instruction
  size : Nat
  cycles : Nat
  size_pos : 0 < size := by decide
  cycles_pos : 0 < cycles := by decide
  deriving DecidableEq

def Encoding.decode? (encoding : Encoding) (bytes : List UInt8) :
    Option Decoded :=
  if encoding.accepts bytes then
    (encoding.extract bytes).map fun instruction =>
      { instruction
        size := encoding.size
        cycles := encoding.cycles
        size_pos := encoding.size_pos
        cycles_pos := encoding.cycles_pos }
  else
    none

/-- What the first byte of a string is where no row accepts the string.  The
empty string counts as a zero byte. -/
def Decoded.unrecognized (bytes : List UInt8) : Decoded :=
  { instruction := .unrecognized (bytes.headD 0)
    size := unrecognizedSize
    cycles := unrecognizedCycles }

def decodeBy (rows : List Encoding) (bytes : List UInt8) : Decoded :=
  (rows.findSome? fun row => row.decode? bytes).getD
    (Decoded.unrecognized bytes)

def decode (bytes : List UInt8) : Decoded :=
  decodeBy encodings bytes

end RxBoard
