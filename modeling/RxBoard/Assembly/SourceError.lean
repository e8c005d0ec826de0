import RxBoard.Text.Printed

/-!
What can be wrong with a source line, and the wording of it.
-/

namespace RxBoard

/-- What is wrong with a source line.  Tokens are kept as they were read. -/
inductive SourceError where
  /-- No instruction has this mnemonic with these kinds of operands. -/
  | unknownInstruction (mnemonic signature : Text)
  /-- The operand is shaped like a register but names none. -/
  | invalidRegister (token : Text)
  /-- The operand is not a numeral. -/
  | invalidImmediate (token : Text)
  /-- The operand is a numeral that no word can hold. -/
  | immediateOutOfRange (token : Text)
  deriving DecidableEq

def SourceError.message : SourceError → Text
  | unknownInstruction mnemonic signature =>
      "unknown instruction or operand combination: ".toList ++
        mnemonic ++ " (".toList ++ signature ++ ")".toList
  | invalidRegister token => "invalid register: ".toList ++ token
  | invalidImmediate token =>
      "invalid immediate value: ".toList ++ token
  | immediateOutOfRange token =>
      "immediate value out of range: ".toList ++ token

structure LineError where
  line : Nat
  cause : SourceError
  deriving DecidableEq

def LineError.message (error : LineError) : Text :=
  "Line ".toList ++ Text.decimal error.line ++ ": ".toList ++
    error.cause.message

end RxBoard
