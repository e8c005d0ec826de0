import RxBoard.Assembly.Operand
import RxBoard.Assembly.SourceLine
import RxBoard.Instruction.Encoding

/-!
The forms in which instructions are written, and the encoding of a source line
by them.

A line takes the first form that has its mnemonic and the kinds of its
operands.  Operands are then read from left to right, and the first that cannot
be read is the error of the line.
-/

namespace RxBoard

structure InstructionForm where
  mnemonic : Text
  signature : List OperandKind
  /-- The instruction with operands of these kinds; none for others. -/
  build : List Operand → Option Instruction

namespace InstructionForm

def buildNop : List Operand → Option Instruction
  | [] => some .nop
  | _ => none

def buildMoveImmediate : List Operand → Option Instruction
  | [.immediate value, .register destination] =>
      some (.moveImmediate destination value)
  | _ => none

def buildMoveRegister : List Operand → Option Instruction
  | [.register source, .register destination] =>
      some (.moveRegister source destination)
  | _ => none

def buildAddImmediate : List Operand → Option Instruction
  | [.immediate value, .register destination] =>
      some (.addImmediate destination value)
  | _ => none

end InstructionForm

def instructionForms : List InstructionForm :=
  [ { mnemonic := "NOP".toList
      signature := []
      build := InstructionForm.buildNop },
    { mnemonic := "MOV.L".toList
      signature := [.immediate, .register]
      build := InstructionForm.buildMoveImmediate },
    { mnemonic := "MOV.L".toList
      signature := [.register, .register]
      build := InstructionForm.buildMoveRegister },
    { mnemonic := "ADD.L".toList
      signature := [.immediate, .register]
      build := InstructionForm.buildAddImmediate } ]

namespace SourceLine

def shapes (line : SourceLine) : List (Option OperandKind) :=
  line.operands.map OperandKind.ofToken?

def shapesText (line : SourceLine) : Text :=
  if line.operands.isEmpty then
    "no operands".toList
  else
    List.intercalate ", ".toList
      (line.shapes.map OperandKind.shapeName)

def hasForm (line : SourceLine) (form : InstructionForm) : Bool :=
  form.mnemonic == line.mnemonic &&
    form.signature.map some == line.shapes

def parseOperands : List OperandKind → List Text →
    Except SourceError (List Operand)
  | kind :: kinds, token :: tokens => do
      let operand ← kind.parse token
      let operands ← parseOperands kinds tokens
      return operand :: operands
  | _, _ => .ok []

/-- The error of a line that is written in no form. -/
def unknown (line : SourceLine) : SourceError :=
  .unknownInstruction line.mnemonic line.shapesText

def instruction (line : SourceLine) :
    Except SourceError Instruction :=
  match instructionForms.find? line.hasForm with
  | none => .error line.unknown
  | some form => do
      let operands ← parseOperands form.signature line.operands
      match form.build operands with
      | some built => return built
      | none => throw line.unknown

def encode (line : SourceLine) : Except SourceError (List UInt8) :=
  Instruction.encode <$> line.instruction

end SourceLine

end RxBoard
