import RxBoard.Proofs.Instruction.Rows
import RxBoard.Proofs.Listing.Walk

/-!
Listings tile the bytes that they list.

A walk goes on with every entry, because nothing is decoded to no bytes, and it
never goes past the end, because no more is decoded than there is.  So it ends
with the last byte, after at most one entry for each byte
(`disassemble_tiles`).
-/

namespace RxBoard

structure ListingEntry.StandsFor (entry : ListingEntry)
    (code : List UInt8) : Prop where
  instruction : entry.instruction = (decode code).instruction
  size : entry.size = (decode code).size
  cycles : entry.cycles = (decode code).cycles
  bytes : entry.bytes = code.take entry.size
  length_bytes : entry.bytes.length = entry.size
  size_mem : entry.size ∈ [1, 2, 6, 7]
  unrecognized_iff :
    entry.instruction.isRecognized = false ↔ ¬StartsEncoding code
  unrecognized_iff_rows :
    entry.instruction.isRecognized = false ↔
      ∀ row ∈ encodings, row.isMatch code = true →
        code.length < row.size

theorem ListingEntry.standsFor_ofBytes {code : List UInt8}
    (nonempty : code ≠ []) (address : UInt32) :
    (ofBytes code address).StandsFor code := by
  have unrecognizedIff :
      (decode code).instruction.isRecognized = false ↔
        ¬StartsEncoding code := by
    rw [← isRecognized_decode_iff, Bool.not_eq_true]
  constructor
  · rfl
  · rfl
  · rfl
  · rfl
  · exact List.length_take_of_le (size_decode_le_length nonempty)
  · exact size_decode_mem code
  · exact unrecognizedIff
  · refine unrecognizedIff.trans ?_
    rw [startsEncoding_iff_row]
    simp only [not_exists, not_and, Nat.not_le]

theorem length_disassemble_le (bytes : List UInt8) (address : UInt32) :
    (disassemble bytes address).length ≤ bytes.length := by
  induction bytes, address using disassemble_induction with
  | nil address => simp
  | cons first rest address inductionHypothesis =>
      have sizePositive := (decode (first :: rest)).size_pos
      rw [List.length_drop, List.length_cons] at inductionHypothesis
      rw [disassemble_cons, List.length_cons, List.length_cons]
      refine Nat.succ_le_succ (Nat.le_trans inductionHypothesis ?_)
      omega

/-- The entries together are as long as the bytes. -/
theorem offset_length_disassemble (bytes : List UInt8)
    (address : UInt32) :
    ListingEntry.offset (disassemble bytes address)
        (disassemble bytes address).length =
      bytes.length := by
  induction bytes, address using disassemble_induction with
  | nil address => simp [ListingEntry.offset]
  | cons first rest address inductionHypothesis =>
      have inside := size_decode_le_length (List.cons_ne_nil first rest)
      rw [List.length_drop] at inductionHypothesis
      rw [disassemble_cons, List.length_cons,
        ListingEntry.offset_cons_succ]
      refine (congrArg (_ + ·) inductionHypothesis).trans ?_
      exact Nat.add_sub_of_le inside

/-- Every entry starts where there are bytes left. -/
theorem offset_lt_of_getElem? {bytes : List UInt8} {address : UInt32}
    {index : Nat} {entry : ListingEntry}
    (found : (disassemble bytes address)[index]? = some entry) :
    ListingEntry.offset (disassemble bytes address) index <
      bytes.length := by
  refine Nat.lt_of_not_le fun ended => ?_
  have walked := drop_disassemble bytes address index
  change _ = disassemble (bytes.drop _) _ at walked
  rw [List.drop_eq_nil_iff.mpr ended, disassemble_nil,
    List.drop_eq_nil_iff] at walked
  rw [List.getElem?_eq_none walked] at found
  cases found

/-- The entries of a listing tile its bytes.  Each stands where those before it
end, for what is decoded there from the rest of the bytes, and is unrecognized
if no whole encoding starts there. -/
theorem disassemble_tiles (bytes : List UInt8) (start : UInt32) :
    let entries := disassemble bytes start
    entries.flatMap ListingEntry.bytes = bytes ∧
      entries.length ≤ bytes.length ∧
      ListingEntry.offset entries entries.length = bytes.length ∧
      ∀ (index : Nat) (entry : ListingEntry),
        entries[index]? = some entry →
        let offset := ListingEntry.offset entries index
        offset < bytes.length ∧
          entry.address = start + UInt32.ofNat offset ∧
          entry.StandsFor (bytes.drop offset) := by
  intro entries
  refine ⟨flatMap_bytes_disassemble bytes start,
    length_disassemble_le bytes start,
    offset_length_disassemble bytes start, ?_⟩
  intro index entry found offset
  have inside : offset < bytes.length := offset_lt_of_getElem? found
  have restNonempty : bytes.drop offset ≠ [] := by
    rw [Ne, List.drop_eq_nil_iff, Nat.not_le]
    exact inside
  have entryEq : entry =
      .ofBytes (bytes.drop offset) (start + UInt32.ofNat offset) :=
    Option.some.inj (found.symm.trans (getElem?_disassemble inside))
  rw [entryEq]
  exact ⟨inside, rfl, ListingEntry.standsFor_ofBytes restNonempty _⟩

/-- Behind a byte that starts nothing, where the address wraps around, stands a
whole encoding, and behind it one that the end cuts off. -/
theorem disassemble_tiles_cut :
    let bytes : List UInt8 := [0x00, 0xCF, 0x12, 0x72, 0x2A]
    let entries := disassemble bytes 0xFFFFFFFF
    entries[1]? = some ⟨0, .moveRegister 1 2, [0xCF, 0x12], 2, 1⟩ ∧
      entries[2]? = some ⟨2, .unrecognized 0x72, [0x72], 1, 1⟩ ∧
      StartsEncoding (bytes.drop 1) ∧ ¬StartsEncoding (bytes.drop 3) := by
  intro bytes entries
  have whole : entries[1]? =
      some ⟨0, .moveRegister 1 2, [0xCF, 0x12], 2, 1⟩ := by
    decide +kernel
  have cut : entries[2]? =
      some ⟨2, .unrecognized 0x72, [0x72], 1, 1⟩ := by
    decide +kernel
  have cutOffset : ListingEntry.offset entries 2 = 3 := by
    decide +kernel
  obtain ⟨_, _, _, tiled⟩ := disassemble_tiles bytes 0xFFFFFFFF
  obtain ⟨_, _, standsFor⟩ := tiled 2 _ cut
  refine ⟨whole, cut, ⟨.moveRegister 1 2, rfl, [0x72, 0x2A], rfl⟩, ?_⟩
  rw [← cutOffset]
  exact standsFor.unrecognized_iff.mp rfl

end RxBoard
