import RxBoard.Board
import RxBoard.Proofs.Listing.Walk
import RxBoard.Proofs.Memory.Contents

/-!
Listings of memory against execution.

A listing reads its bytes at once and cuts encodings off at their end; the
processor fetches afresh at each address.  Where the listing has as many bytes
left as the longest encoding takes, the two decode the same
(`listingLines_shows`).

For the same reason a listing of more lines begins with the lines of a shorter
one, wherever the two end (`listings_extend`).
-/

namespace RxBoard

namespace Board

def listingLine (entry : ListingEntry) : Text :=
  Text.hexWord entry.address ++ "  ".toList ++ entry.text

theorem listingWindow_mono {count total : Nat} (fewer : count ≤ total) :
    listingWindow count ≤ listingWindow total := by
  have shorter := Nat.mul_le_mul_right longestEncoding fewer
  unfold listingWindow
  omega

/-- A longer dump begins with the shorter one. -/
theorem dumpMemory_append (board : Board) (start : UInt32)
    {count total : Nat} (fewer : count ≤ total) :
    (board.dumpMemory start total).value =
      (board.dumpMemory start count).value ++
        (board.dumpMemory start total).value.drop count := by
  have front : (board.dumpMemory start total).value.take count =
      (board.dumpMemory start count).value := by
    refine (Memory.take_value_dump ..).trans ?_
    rw [Nat.min_eq_left fewer]
    rfl
  rw [← front, List.take_append_drop]

/-- The entries that are listed do not depend on how many more are. -/
theorem take_disassemble_dumpMemory (board : Board) (start : UInt32)
    {count total : Nat} (fewer : count ≤ total) :
    (disassemble (board.dumpMemory start (listingWindow total)).value
        start).take count =
      (disassemble (board.dumpMemory start (listingWindow count)).value
        start).take count := by
  by_cases unlimited : count * longestEncoding ≤ listingLimit
  · cases count with
    | zero => rfl
    | succ index =>
        have windowEq : (board.dumpMemory start
            (listingWindow (index + 1))).value.length =
              (index + 1) * longestEncoding :=
          (Memory.length_value_dump ..).trans (Nat.min_eq_left unlimited)
        rw [board.dumpMemory_append start (listingWindow_mono fewer)]
        apply take_disassemble_append
        rw [windowEq]
        exact offset_disassemble_add_le _ start (Nat.lt_succ_self index)
  · -- Both windows are cut off at the limit.
    have limited := Nat.le_of_not_le unlimited
    have shorter := Nat.mul_le_mul_right longestEncoding fewer
    have windowEq : listingWindow total = listingWindow count := by
      unfold listingWindow
      omega
    rw [windowEq]

/-- A listing of fewer lines is the beginning of one of more lines.  Bytes
behind a string leave all entries as they are that have the bytes of the longest
encoding within it, and those in front of them. -/
theorem listings_extend :
    (∀ (board : Board) (start : UInt32) (count total : Nat),
      count ≤ total →
        (board.listingLines start count).value =
          (board.listingLines start total).value.take count) ∧
    ∀ (bytes rest : List UInt8) (address : UInt32) (index : Nat),
      let entries := disassemble bytes address
      ListingEntry.offset entries index + longestEncoding ≤
          bytes.length →
        index < entries.length ∧
          (disassemble (bytes ++ rest) address).take (index + 1) =
            entries.take (index + 1) := by
  constructor
  · intro board start count total fewer
    change ((disassemble _ start).take count).map listingLine =
      (((disassemble _ start).take total).map listingLine).take count
    rw [← List.map_take, List.take_take, Nat.min_eq_left fewer,
      take_disassemble_dumpMemory board start fewer]
  · intro bytes rest address index entries whole
    have inside :
        ListingEntry.offset entries index < bytes.length :=
      Nat.lt_of_lt_of_le (Nat.lt_add_of_pos_right (by decide)) whole
    exact ⟨(List.getElem?_eq_some_iff.mp (getElem?_disassemble inside)).1,
      take_disassemble_append bytes rest address whole⟩

/-- The limit cuts off the longer of the two windows, and the top of the address
space both.  A whole encoding at the end of a string stays when more follows. -/
theorem listings_extend_limit :
    let bytes : List UInt8 := [0x03, 0xFB, 0x12, 0x01, 4, 3, 2, 1]
    let entries := disassemble bytes 0xFFFFFFFF
    9362 ≤ 0xFFFFFFFF ∧
      (powerOn.value.listingLines 0xFFFFFFFE 9362).value =
        (powerOn.value.listingLines 0xFFFFFFFE 0xFFFFFFFF).value.take
          9362 ∧
      ListingEntry.offset entries 1 + longestEncoding ≤ bytes.length ∧
      (disassemble (bytes ++ [0x72]) 0xFFFFFFFF).take 2 =
        entries.take 2 := by
  intro bytes entries
  have fewer : 9362 ≤ 0xFFFFFFFF := by omega
  have offsetEq : ListingEntry.offset entries 1 = 1 :=
    offset_disassemble_succ 0x03 [0xFB, 0x12, 0x01, 4, 3, 2, 1]
      0xFFFFFFFF 0
  have whole : ListingEntry.offset entries 1 + longestEncoding ≤
      bytes.length := Nat.le_of_eq (congrArg (· + 7) offsetEq)
  obtain ⟨lines, code⟩ := listings_extend
  exact ⟨fewer,
    lines powerOn.value 0xFFFFFFFE 9362 0xFFFFFFFF fewer, whole,
    (code bytes [0x72] 0xFFFFFFFF 1 whole).2⟩

end Board

end RxBoard
