import RxBoard.Assembly.InstructionForm
import RxBoard.Assembly.SourceMap
import RxBoard.Logged

/-!
Assembly of a source text.

Lines are assembled one by one.  A line that fails leaves an error and no
bytes, and the others assemble all the same.

The length of the output bounds every offset of the source map; where it is
below 2 ^ 32, as is meant here, no offset is cut to 32 bits.
-/

namespace RxBoard

inductive LineOutput where
  | skipped
  | code (bytes : List UInt8)
  | failed (cause : SourceError)
  deriving DecidableEq

def LineOutput.ofText (text : Text) : LineOutput :=
  match SourceLine.parse? text with
  | none => skipped
  | some line =>
      match line.encode with
      | .ok bytes => code bytes
      | .error cause => failed cause

structure Assembly where
  bytes : List UInt8
  errors : List LineError
  sourceMap : SourceMap
  deriving DecidableEq

namespace Assembly

def isComplete (assembly : Assembly) : Bool :=
  assembly.errors.isEmpty

def empty : Assembly :=
  ⟨[], [], ⟨[]⟩⟩

def consCode (line offset : Nat) (bytes : List UInt8)
    (assembly : Assembly) : Assembly :=
  { assembly with
    bytes := bytes ++ assembly.bytes
    sourceMap :=
      ⟨⟨⟨offset, offset + bytes.length⟩, line⟩ ::
        assembly.sourceMap.entries⟩ }

def consError (line : Nat) (cause : SourceError)
    (assembly : Assembly) : Assembly :=
  { assembly with errors := ⟨line, cause⟩ :: assembly.errors }

/-- Assembles lines, given the number of the first and the offset in the
output at which it starts. -/
def ofLines (line offset : Nat) : List Text → Assembly
  | [] => empty
  | text :: rest =>
      match LineOutput.ofText text with
      | .skipped => ofLines (line + 1) offset rest
      | .code bytes =>
          (ofLines (line + 1) (offset + bytes.length) rest).consCode
            line offset bytes
      | .failed cause =>
          (ofLines (line + 1) offset rest).consError line cause

def ofText (source : Text) : Assembly :=
  ofLines 1 0 (Text.lines source)

end Assembly

def assemble (source : Text) : Logged Assembly := do
  let assembly := Assembly.ofText source
  Logged.report
    (.assembled assembly.bytes.length assembly.errors.length)
  return assembly

end RxBoard
