import RxBoard.Instruction.Encoding

/-!
Machine code as a listing: one entry for each instruction, and one for each
byte that starts none.
-/

namespace RxBoard

structure ListingEntry where
  address : UInt32
  instruction : Instruction
  bytes : List UInt8
  size : Nat
  cycles : Nat
  deriving DecidableEq

namespace ListingEntry

/-- The entry for the front of a byte string.  The empty string counts as an
unrecognized zero byte that has no bytes. -/
def ofBytes (bytes : List UInt8) (address : UInt32) : ListingEntry :=
  let decoded := decode bytes
  { address
    instruction := decoded.instruction
    bytes := bytes.take decoded.size
    size := decoded.size
    cycles := decoded.cycles }

def text (entry : ListingEntry) : Text :=
  entry.instruction.text

/-- The width of the column of bytes: that of the longest encoding. -/
def bytesWidth : Nat := 20

def line (entry : ListingEntry) : Text :=
  Text.hexWord entry.address ++ "  ".toList ++
    Text.padEnd bytesWidth (Text.hexBytes entry.bytes) ++
    "  ".toList ++ entry.text

end ListingEntry

def listingText (entries : List ListingEntry) : Text :=
  entries.flatMap fun entry => entry.line ++ ['\n']

def disassembleFrom (bytes : List UInt8) (address : UInt32)
    (entries : Array ListingEntry) : List ListingEntry :=
  match bytes with
  | [] => entries.toList
  | first :: rest =>
      let entry := ListingEntry.ofBytes (first :: rest) address
      disassembleFrom ((first :: rest).drop entry.size)
        (address + UInt32.ofNat entry.size) (entries.push entry)
termination_by bytes.length
decreasing_by
  have sizePositive := (decode (first :: rest)).size_pos
  simp only [ListingEntry.ofBytes, List.length_drop, List.length_cons]
  omega

def disassemble (bytes : List UInt8) (address : UInt32) :
    List ListingEntry :=
  disassembleFrom bytes address #[]

theorem disassembleFrom_nil (address : UInt32)
    (entries : Array ListingEntry) :
    disassembleFrom [] address entries = entries.toList := by
  rw [disassembleFrom]

theorem disassembleFrom_cons (first : UInt8) (rest : List UInt8)
    (address : UInt32) (entries : Array ListingEntry) :
    disassembleFrom (first :: rest) address entries =
      disassembleFrom
        ((first :: rest).drop
          (ListingEntry.ofBytes (first :: rest) address).size)
        (address + UInt32.ofNat
          (ListingEntry.ofBytes (first :: rest) address).size)
        (entries.push
          (ListingEntry.ofBytes (first :: rest) address)) := by
  rw [disassembleFrom]

/-- Entries that are there stay in front of those that follow. -/
theorem disassembleFrom_eq (bytes : List UInt8) (address : UInt32)
    (entries : Array ListingEntry) :
    disassembleFrom bytes address entries =
      entries.toList ++ disassemble bytes address := by
  unfold disassemble
  induction lengthEq : bytes.length using Nat.strongRecOn
    generalizing bytes address entries with
  | ind length inductionHypothesis =>
      cases bytes with
      | nil => simp [disassembleFrom_nil]
      | cons first rest =>
          have sizePositive := (decode (first :: rest)).size_pos
          have shorter :
              ((first :: rest).drop
                (ListingEntry.ofBytes (first :: rest) address).size).length <
                length := by
            simp only [ListingEntry.ofBytes, List.length_drop, lengthEq]
            simp only [List.length_cons] at lengthEq
            omega
          rw [disassembleFrom_cons, disassembleFrom_cons,
            inductionHypothesis _ shorter _ _ (entries.push _) rfl,
            inductionHypothesis _ shorter _ _ (#[].push _) rfl]
          simp

@[simp] theorem disassemble_nil (address : UInt32) :
    disassemble [] address = [] :=
  disassembleFrom_nil address #[]

theorem disassemble_cons (first : UInt8) (rest : List UInt8)
    (address : UInt32) :
    disassemble (first :: rest) address =
      let entry := ListingEntry.ofBytes (first :: rest) address
      entry :: disassemble ((first :: rest).drop entry.size)
        (address + UInt32.ofNat entry.size) := by
  unfold disassemble
  rw [disassembleFrom_cons, disassembleFrom_eq]
  rfl

end RxBoard
