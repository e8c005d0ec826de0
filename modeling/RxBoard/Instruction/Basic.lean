import RxBoard.Text.Printed

/-!
The instructions of the machine, and how they are written in assembly text.
-/

namespace RxBoard

/-- An instruction with its operand fields.  A byte that starts no instruction
is kept as an `unrecognized` one, so that any byte string can be listed. -/
inductive Instruction where
  | nop
  | moveImmediate (destination : UInt8) (immediate : UInt32)
  | moveRegister (source : UInt8) (destination : UInt8)
  | addImmediate (destination : UInt8) (immediate : UInt32)
  | unrecognized (opcode : UInt8)
  deriving DecidableEq

namespace Instruction

def isRecognized : Instruction → Bool
  | unrecognized _ => false
  | _ => true

def mnemonic : Instruction → Text
  | nop => "NOP".toList
  | moveImmediate _ _ => "MOV.L".toList
  | moveRegister _ _ => "MOV.L".toList
  | addImmediate _ _ => "ADD.L".toList
  | unrecognized _ => ".BYTE".toList

def registerText (register : UInt8) : Text :=
  'R' :: Text.decimal register.toNat

/-- An immediate in assembly text: eight hexadecimal digits, so that the text
assembles to the same word. -/
def immediateText (immediate : UInt32) : Text :=
  "#0x".toList ++ Text.hexWord immediate

/-- The instruction in assembly text.  The assembler takes it back, except for
an unrecognized byte. -/
def text (instruction : Instruction) : Text :=
  match instruction with
  | nop => instruction.mnemonic
  | moveImmediate destination immediate =>
      instruction.mnemonic ++ ' ' :: immediateText immediate ++
        ", ".toList ++ registerText destination
  | moveRegister source destination =>
      instruction.mnemonic ++ ' ' :: registerText source ++
        ", ".toList ++ registerText destination
  | addImmediate destination immediate =>
      instruction.mnemonic ++ ' ' :: immediateText immediate ++
        ", ".toList ++ registerText destination
  | unrecognized opcode =>
      instruction.mnemonic ++ " 0x".toList ++ Text.hexByte opcode

def description : Instruction → String
  | nop => "Nop"
  | moveImmediate destination immediate =>
      "MovImm \x7b rd: " ++ toString destination.toNat ++
        ", imm: " ++ toString immediate.toNat ++ " \x7d"
  | moveRegister source destination =>
      "MovReg \x7b rs: " ++ toString source.toNat ++
        ", rd: " ++ toString destination.toNat ++ " \x7d"
  | addImmediate destination immediate =>
      "AddImm \x7b rd: " ++ toString destination.toNat ++
        ", imm: " ++ toString immediate.toNat ++ " \x7d"
  | unrecognized opcode =>
      "Unrecognized \x7b opcode: " ++ toString opcode.toNat ++ " \x7d"

end Instruction

end RxBoard
