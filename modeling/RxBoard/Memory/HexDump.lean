import RxBoard.Memory.Basic
import RxBoard.Text.Printed

/-!
Memory as a listing for people: sixteen bytes a line, each line with its
address, the bytes in hexadecimal, and the bytes as characters.
-/

namespace RxBoard

def bytesPerLine : Nat := 16

/-- A byte as a character: itself if it is a printable ASCII character, a point
otherwise. -/
def printable (byte : UInt8) : Char :=
  if 0x20 ≤ byte && byte < 0x7F then
    Char.ofNat byte.toNat
  else
    '.'

def hexDumpLine (address : UInt32) (bytes : List UInt8) : Text :=
  Text.hexWord address ++ ": ".toList ++
    Text.padEnd (3 * bytesPerLine - 1) (Text.hexBytes bytes) ++
    ' ' :: bytes.map printable

def hexDumpLines (address : UInt32) (bytes : List UInt8) : List Text :=
  if bytes.isEmpty then
    []
  else
    hexDumpLine address (bytes.take bytesPerLine) ::
      hexDumpLines (address + UInt32.ofNat bytesPerLine)
        (bytes.drop bytesPerLine)
termination_by bytes.length
decreasing_by
  rename_i notEmpty
  cases bytes with
  | nil => simp at notEmpty
  | cons byte rest =>
      simp only [List.length_drop, List.length_cons, bytesPerLine]
      omega

def Memory.hexDump (memory : Memory) (address : UInt32) (count : Nat) :
    Logged Text :=
  (fun bytes => Text.joinLines (hexDumpLines address bytes)) <$>
    memory.dump address count

end RxBoard
