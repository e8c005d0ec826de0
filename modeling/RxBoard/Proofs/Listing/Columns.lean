import Mathlib.Data.List.Forall2
import RxBoard.Proofs.Instruction.Rows
import RxBoard.Proofs.Listing.Reassembled

/-!
Debugger listings lose nothing.

No entry has more bytes than the longest encoding, so all of them fit their
column and every part of a line stands in columns of its own
(`ListingEntry.ShownOn`).  The bytes that were listed can be read back from the
text (`listingText_lossless`).
-/

namespace RxBoard

structure ListingEntry.ShownOn (entry : ListingEntry) (line : Text) :
    Prop where
  address : Text.ShowsWord (Text.columns 0 7 line) entry.address
  behindAddress : Text.columns 8 9 line = "  ".toList
  bytes : Text.ShowsBytes 20 (Text.columns 10 29 line) entry.bytes
  behindBytes : Text.columns 30 31 line = "  ".toList
  text : line.drop 32 = entry.text

/-- Whether the address on the next line is the one behind the bytes on a
line. -/
def LineFollowedBy (line next : Text) : Prop :=
  ∃ address bytes,
    Text.readWord? (Text.columns 0 7 line) = some address ∧
      Text.readBytes? (Text.columns 10 29 line) = some bytes ∧
      Text.readWord? (Text.columns 0 7 next) =
        some (address + UInt32.ofNat bytes.length)

theorem ListingEntry.shownOn_line {entry : ListingEntry}
    (short : entry.bytes.length ≤ 7) : entry.ShownOn entry.line := by
  have fits : 3 * entry.bytes.length - 1 ≤ 20 := by omega
  obtain ⟨addressShown, gapEq, bytesShown, secondGapEq, textEq⟩ :=
    Text.columns_wordAndBytes entry.address fits
      (show "  ".toList.length = 2 by decide) "  ".toList entry.text
  exact ⟨addressShown, gapEq, bytesShown, secondGapEq, textEq⟩

theorem ListingEntry.isLine_line {entry : ListingEntry}
    (reduced : entry.instruction.masked = entry.instruction) :
    Text.IsLine entry.line := by
  have gap : Text.IsLine "  ".toList := by decide
  have address := Text.isLine_hexadecimal 7 entry.address.toNat
  have bytes := (Text.isLine_hexBytes entry.bytes).padEnd bytesWidth
  exact (((address.append gap).append bytes).append gap).append
    (Instruction.isLine_text reduced)

section Entries

variable {entries : List ListingEntry}
  (reduced : ∀ entry ∈ entries,
    entry.instruction.masked = entry.instruction ∧
      entry.bytes = entry.instruction.encode)

include reduced

theorem shownOn_of_mem {entry : ListingEntry} (member : entry ∈ entries) :
    entry.ShownOn entry.line := by
  apply ListingEntry.shownOn_line
  rw [(reduced entry member).2]
  exact length_encode_le entry.instruction

theorem lines_listingText :
    Text.lines (listingText entries) = entries.map ListingEntry.line := by
  induction entries with
  | nil => rfl
  | cons entry rest inductionHypothesis =>
      obtain ⟨⟨masked, _⟩, restReduced⟩ := List.forall_mem_cons.mp reduced
      have isLine := ListingEntry.isLine_line masked
      rw [listingText, List.flatMap_cons, List.append_assoc,
        List.singleton_append, isLine.lines_append_cons, List.map_cons]
      exact congrArg (entry.line :: ·) (inductionHypothesis restReduced)

theorem readLines?_lines :
    Text.readLines? 10 29 (entries.map ListingEntry.line) =
      some (entries.flatMap ListingEntry.bytes) := by
  induction entries with
  | nil => rfl
  | cons entry rest inductionHypothesis =>
      have shown := shownOn_of_mem reduced (.head rest)
      have restReduced := (List.forall_mem_cons.mp reduced).2
      rw [List.map_cons, Text.readLines?_cons shown.bytes.read,
        inductionHypothesis restReduced, Option.map_some,
        List.flatMap_cons]

end Entries

theorem length_bytes_ofBytes {bytes : List UInt8} (nonempty : bytes ≠ [])
    (address : UInt32) :
    (ListingEntry.ofBytes bytes address).bytes.length =
      (decode bytes).size :=
  List.length_take_of_le (size_decode_le_length nonempty)

theorem shownOn_ofBytes {bytes : List UInt8} (nonempty : bytes ≠ [])
    (address : UInt32) :
    (ListingEntry.ofBytes bytes address).ShownOn
      (ListingEntry.ofBytes bytes address).line := by
  apply ListingEntry.shownOn_line
  rw [length_bytes_ofBytes nonempty]
  exact size_decode_le bytes

theorem isChain_lines_disassemble (bytes : List UInt8)
    (address : UInt32) :
    ((disassemble bytes address).map ListingEntry.line).IsChain
      LineFollowedBy := by
  induction bytes, address using disassemble_induction with
  | nil address =>
      rw [disassemble_nil]
      exact .nil
  | cons first rest address inductionHypothesis =>
      have nonempty := List.cons_ne_nil first rest
      have shown := shownOn_ofBytes nonempty address
      have lengthEq := length_bytes_ofBytes nonempty address
      have sizeEq : (ListingEntry.ofBytes (first :: rest) address).size =
          (decode (first :: rest)).size := rfl
      simp only [disassemble_cons, List.map_cons, sizeEq]
      -- Nothing follows the last entry; any other is followed by the entry
      -- of the bytes behind it.
      cases behind : (first :: rest).drop (decode (first :: rest)).size with
      | nil =>
          rw [disassemble_nil]
          exact .singleton _
      | cons second more =>
          have nextShown := shownOn_ofBytes (List.cons_ne_nil second more)
            (address + UInt32.ofNat (decode (first :: rest)).size)
          rw [behind, disassemble_cons] at inductionHypothesis
          rw [disassemble_cons]
          refine .cons_cons ⟨address, _, shown.address.read,
            shown.bytes.read, ?_⟩ inductionHypothesis
          rw [lengthEq]
          exact nextShown.address.read

/-- The text of a listing has one line for each entry, with a line feed behind
it.  Every line shows its entry, the bytes of all lines in order read as the
bytes that were listed, and each address is the one behind the bytes of the
line before. -/
theorem listingText_lossless (bytes : List UInt8) (start : UInt32) :
    let entries := disassemble bytes start
    let lines := Text.lines (listingText entries)
    listingText entries = lines.flatMap (· ++ ['\n']) ∧
      List.Forall₂ ListingEntry.ShownOn entries lines ∧
      Text.readLines? 10 29 lines = some bytes ∧
      lines.IsChain LineFollowedBy := by
  intro entries lines
  have reduced := bytes_of_mem_disassemble bytes start
  have linesEq : lines = entries.map ListingEntry.line :=
    lines_listingText reduced
  rw [linesEq]
  refine ⟨?_, ?_, ?_, isChain_lines_disassemble bytes start⟩
  · rw [List.flatMap_map]
    rfl
  · rw [List.forall₂_map_right_iff, List.forall₂_same]
    exact fun entry member => shownOn_of_mem reduced member
  · rw [readLines?_lines reduced]
    exact congrArg some (flatMap_bytes_disassemble bytes start)

end RxBoard
