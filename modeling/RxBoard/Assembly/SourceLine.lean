import RxBoard.Text.Basic

/-!
A source line cut into mnemonic and operands.

Blank lines and lines that start with `;` or `//` hold no instruction.  In all
others a comment starts at the first `;`.  What is left is put in capitals: the
mnemonic runs up to the first white space, and operands stand between commas.
-/

namespace RxBoard

structure SourceLine where
  mnemonic : Text
  operands : List Text
  deriving DecidableEq

namespace SourceLine

def isSkipped : Text → Bool
  | [] => true
  | ';' :: _ => true
  | '/' :: '/' :: _ => true
  | _ => false

/-- The tokens of the code on a line, which is trimmed and in capitals. -/
def ofCode (code : Text) : SourceLine :=
  let mnemonic := code.takeWhile fun character =>
    !Text.isWhiteSpace character
  let rest := Text.trim (code.drop mnemonic.length)
  { mnemonic
    operands :=
      if rest.isEmpty then [] else (rest.splitOn ',').map Text.trim }

def parse? (text : Text) : Option SourceLine :=
  let trimmed := Text.trim text
  if isSkipped trimmed then
    none
  else
    let code := Text.trimEnd (trimmed.takeWhile (· != ';'))
    some (ofCode (Text.upper code))

end SourceLine

end RxBoard
