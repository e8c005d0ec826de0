import RxBoard.Listing
import RxBoard.Proofs.Instruction.Rows

/-!
Machine code, read by accesses that can fail.

Here code is decoded and listed with arrays in mind: operand fields are read at
their indices, and pieces are cut out by their bounds.  What lies outside gives
nothing, and no second row is tried.  Whatever the bytes are, nothing outside
is asked for, and the outcome is the one of the library.
-/

namespace RxBoard.Checked

/-- The items from a bound up to another one, which must lie in this order and
inside. -/
def slice? {α : Type} (items : List α) (start stop : Nat) :
    Option (List α) :=
  if start ≤ stop ∧ stop ≤ items.length then
    some ((items.take stop).drop start)
  else
    none

theorem slice?_to_end {α : Type} {items : List α} {start : Nat}
    (inside : start ≤ items.length) :
    slice? items start items.length = some (items.drop start) := by
  rw [slice?, if_pos ⟨inside, Nat.le_refl _⟩, List.take_length]

theorem slice?_from_start {α : Type} {items : List α} {stop : Nat}
    (inside : stop ≤ items.length) :
    slice? items 0 stop = some (items.take stop) := by
  rw [slice?, if_pos ⟨Nat.zero_le _, inside⟩, List.drop_zero]

def word? (bytes : List UInt8) : Option UInt32 := do
  let byte0 ← bytes[0]?
  let byte1 ← bytes[1]?
  let byte2 ← bytes[2]?
  let byte3 ← bytes[3]?
  return LittleEndian.word [byte0, byte1, byte2, byte3]

def readRegisterAndWord (build : UInt8 → UInt32 → Instruction)
    (index : Nat) (bytes : List UInt8) : Option Instruction := do
  let destination ← bytes[index]?
  let stored ← slice? bytes (index + 1) (index + 5)
  let immediate ← word? stored
  return build (lowNibble destination) immediate

def readTwoRegisters (bytes : List UInt8) : Option Instruction := do
  let source ← bytes[1]?
  let destination ← bytes[1]?
  return .moveRegister (source >>> 4) (lowNibble destination)

def encodings : List Encoding :=
  List.zipWith (fun row extract => { row with extract })
    RxBoard.encodings
    [ fun _ => some .nop,
      readRegisterAndWord .moveImmediate 2,
      readTwoRegisters,
      readRegisterAndWord .addImmediate 1 ]

theorem readRegisterAndWord_two (bytes : List UInt8) :
    readRegisterAndWord .moveImmediate 2 bytes =
      Encoding.extractMoveImmediate bytes := by
  rcases bytes with _ | ⟨byte0, _ | ⟨byte1, _ | ⟨byte2, _ | ⟨byte3,
    _ | ⟨byte4, _ | ⟨byte5, _ | ⟨byte6, rest⟩⟩⟩⟩⟩⟩⟩ <;>
    simp [readRegisterAndWord, slice?, word?, Encoding.extractMoveImmediate]

theorem readRegisterAndWord_one (bytes : List UInt8) :
    readRegisterAndWord .addImmediate 1 bytes =
      Encoding.extractAddImmediate bytes := by
  rcases bytes with _ | ⟨byte0, _ | ⟨byte1, _ | ⟨byte2, _ | ⟨byte3,
    _ | ⟨byte4, _ | ⟨byte5, rest⟩⟩⟩⟩⟩⟩ <;>
    simp [readRegisterAndWord, slice?, word?, Encoding.extractAddImmediate]

theorem readTwoRegisters_eq (bytes : List UInt8) :
    readTwoRegisters bytes = Encoding.extractMoveRegister bytes := by
  rcases bytes with _ | ⟨byte0, _ | ⟨byte1, rest⟩⟩ <;> rfl

theorem encodings_eq : encodings = RxBoard.encodings := by
  have moveImmediate := funext readRegisterAndWord_two
  have moveRegister := funext readTwoRegisters_eq
  have addImmediate := funext readRegisterAndWord_one
  rw [encodings, moveImmediate, moveRegister, addImmediate]
  rfl

def decode (bytes : List UInt8) : Option Decoded :=
  match encodings.find? fun row => row.accepts bytes with
  | none => some (Decoded.unrecognized bytes)
  | some row =>
      (row.extract bytes).map fun instruction =>
        { instruction
          size := row.size
          cycles := row.cycles
          size_pos := row.size_pos
          cycles_pos := row.cycles_pos }

theorem decode_eq_unrecognized {bytes : List UInt8}
    (unmatched : matchedRow? bytes = none) :
    RxBoard.decode bytes = Decoded.unrecognized bytes := by
  have noRow : (RxBoard.encodings.findSome? fun row => row.decode? bytes) =
      none := by
    rw [List.findSome?_eq_none_iff]
    intro row member
    exact if_neg (List.find?_eq_none.mp unmatched row member)
  rw [RxBoard.decode, decodeBy, noRow, Option.getD_none]

theorem decode_eq (bytes : List UInt8) :
    decode bytes = some (RxBoard.decode bytes) := by
  unfold decode
  rw [encodings_eq]
  change (match matchedRow? bytes with
    | none => _
    | some row => _) = _
  cases matched : matchedRow? bytes with
  | none => rw [decode_eq_unrecognized matched]
  | some row =>
      obtain ⟨member, accepted⟩ := accepts_of_matchedRow? matched
      obtain ⟨instruction, extracted⟩ := exists_extract member accepted
      rw [← decode?_of_matchedRow? matched extracted, Encoding.decode?,
        if_pos accepted]

def listingEntry (bytes : List UInt8) (address : UInt32) :
    Option ListingEntry := do
  let decoded ← decode bytes
  let taken ← slice? bytes 0 (min decoded.size bytes.length)
  return {
    address
    instruction := decoded.instruction
    bytes := taken
    size := decoded.size
    cycles := decoded.cycles }

theorem listingEntry_eq (bytes : List UInt8) (address : UInt32) :
    listingEntry bytes address =
      some (ListingEntry.ofBytes bytes address) := by
  simp only [listingEntry, decode_eq, Option.bind_eq_bind, Option.bind_some,
    slice?_from_start (Nat.min_le_right _ _), ← List.take_eq_take_min]
  rfl

def disassembleFrom (bytes : List UInt8) (offset : Nat)
    (address : UInt32) : Option (List ListingEntry) :=
  if offset < bytes.length then
    match slice? bytes offset bytes.length with
    | none => none
    | some rest =>
        match _ : listingEntry rest address with
        | none => none
        | some entry =>
            (disassembleFrom bytes (offset + entry.size)
              (address + UInt32.ofNat entry.size)).map (entry :: ·)
  else
    some []
termination_by bytes.length - offset
decreasing_by
  have sizePositive := (RxBoard.decode rest).size_pos
  have entryEq : listingEntry rest address = some entry := by assumption
  rw [listingEntry_eq, Option.some.injEq] at entryEq
  rw [← entryEq]
  simp only [ListingEntry.ofBytes]
  omega

def disassemble (bytes : List UInt8) (address : UInt32) :
    Option (List ListingEntry) :=
  disassembleFrom bytes 0 address

theorem disassembleFrom_eq (bytes : List UInt8) (offset : Nat)
    (address : UInt32) :
    disassembleFrom bytes offset address =
      some (RxBoard.disassemble (bytes.drop offset) address) := by
  fun_induction disassembleFrom bytes offset address with
  | case1 offset address inside failed =>
      rw [slice?_to_end (Nat.le_of_lt inside)] at failed
      cases failed
  | case2 offset address inside rest cut failed =>
      rw [listingEntry_eq] at failed
      cases failed
  | case3 offset address inside rest cut entry entryEq
      inductionHypothesis =>
      rw [slice?_to_end (Nat.le_of_lt inside), Option.some.injEq] at cut
      rw [listingEntry_eq, Option.some.injEq] at entryEq
      rw [inductionHypothesis, ← List.drop_drop, cut, Option.map_some,
        ← entryEq]
      obtain ⟨first, tail, rfl, _⟩ : ∃ first tail, rest = first :: tail ∧
          0 ≤ tail.length := by
        apply exists_cons_of_lt_length
        rw [← cut, List.length_drop]
        omega
      rw [disassemble_cons]
  | case4 offset address outside =>
      rw [List.drop_eq_nil_of_le (Nat.le_of_not_lt outside),
        disassemble_nil]

theorem disassemble_eq (bytes : List UInt8) (address : UInt32) :
    disassemble bytes address = some (RxBoard.disassemble bytes address) :=
  disassembleFrom_eq bytes 0 address

end RxBoard.Checked
