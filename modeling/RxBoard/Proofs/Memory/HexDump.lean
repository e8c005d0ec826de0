import Mathlib.Data.List.Forall2
import RxBoard.Memory.HexDump
import RxBoard.Proofs.Memory.Contents
import RxBoard.Proofs.Text.Hexadecimal

/-!
Hexadecimal listings of memory lose nothing.

The bytes are cut into rows of sixteen, and each row has a line with its
address, its digits and its characters in columns of their own
(`ShowsRow`).  So the bytes of memory can be read back from the text
(`hexDump_lossless`).
-/

namespace RxBoard

/-- Whether a character stands for a byte: the one with its code if that is
printable ASCII, a point otherwise. -/
def StandsForByte (character : Char) (byte : UInt8) : Prop :=
  if 0x20 ≤ byte.toNat ∧ byte.toNat ≤ 0x7E then
    character.toNat = byte.toNat
  else
    character = '.'

structure ShowsRow (line : Text) (address : UInt32) (row : List UInt8) :
    Prop where
  address : Text.ShowsWord (Text.columns 0 7 line) address
  colon : Text.columns 8 9 line = ": ".toList
  bytes : Text.ShowsBytes 47 (Text.columns 10 56 line) row
  space : Text.columns 57 57 line = " ".toList
  characters : List.Forall₂ StandsForByte (line.drop 58) row

theorem standsForByte_printable (byte : UInt8) :
    StandsForByte (printable byte) byte := by
  have printableIff : (0x20 ≤ byte && byte < 0x7F) = true ↔
      0x20 ≤ byte.toNat ∧ byte.toNat ≤ 0x7E := by
    rw [Bool.and_eq_true, decide_eq_true_eq, decide_eq_true_eq,
      UInt8.le_iff_toNat_le, UInt8.lt_iff_toNat_lt]
    exact and_congr_right' Nat.lt_succ_iff
  unfold StandsForByte printable
  simp only [printableIff]
  split
  · rename_i inside
    have valid : byte.toNat.isValidChar :=
      Or.inl (Nat.lt_of_le_of_lt inside.2 (by decide))
    rw [Char.ofNat, dif_pos valid]
    rfl
  · rfl

theorem isLine_printable (bytes : List UInt8) :
    Text.IsLine (bytes.map printable) := by
  have visible (byte : UInt8) (character : Char)
      (control : character.toNat < 0x20) : printable byte ≠ character := by
    rintro rfl
    have stands := standsForByte_printable byte
    unfold StandsForByte at stands
    split at stands
    · omega
    · rw [stands] at control
      exact absurd control (by decide)
  constructor
  · intro member
    obtain ⟨byte, _, isLineFeed⟩ := List.mem_map.mp member
    exact visible byte '\n' (by decide) isLineFeed
  · intro member
    obtain ⟨byte, _, isReturn⟩ := List.mem_map.mp member
    exact visible byte '\r' (by decide) isReturn

theorem showsRow_hexDumpLine (address : UInt32) {row : List UInt8}
    (short : row.length ≤ 16) :
    ShowsRow (hexDumpLine address row) address row := by
  have fits : 3 * row.length - 1 ≤ 47 := by omega
  have lineEq : hexDumpLine address row =
      Text.hexWord address ++ ": ".toList ++
        Text.padEnd 47 (Text.hexBytes row) ++ " ".toList ++
        row.map printable := by
    rw [List.append_assoc _ " ".toList]
    rfl
  obtain ⟨addressShown, colonEq, bytesShown, spaceEq, restEq⟩ :=
    Text.columns_wordAndBytes address fits
      (show ": ".toList.length = 2 by decide) " ".toList (row.map printable)
  rw [← lineEq] at addressShown colonEq bytesShown spaceEq restEq
  have charactersEq :
      (hexDumpLine address row).drop 58 = row.map printable := restEq
  refine ⟨addressShown, colonEq, bytesShown, spaceEq, ?_⟩
  rw [charactersEq, List.forall₂_map_left_iff, List.forall₂_same]
  exact fun byte _ => standsForByte_printable byte

theorem isLine_hexDumpLine (address : UInt32) (row : List UInt8) :
    Text.IsLine (hexDumpLine address row) ∧
      hexDumpLine address row ≠ [] := by
  have colon : Text.IsLine ": ".toList := by decide
  have digits := (Text.isLine_hexBytes row).padEnd (3 * bytesPerLine - 1)
  have front := (Text.isLine_hexadecimal 7 address.toNat).append colon
  constructor
  · exact (front.append digits).append
      (Text.isLine_space.append (isLine_printable row))
  · simp [hexDumpLine]

theorem hexDumpLines_nil (address : UInt32) :
    hexDumpLines address [] = [] := by
  rw [hexDumpLines]
  rfl

theorem hexDumpLines_of_ne_nil (address : UInt32) {bytes : List UInt8}
    (nonempty : bytes ≠ []) :
    hexDumpLines address bytes =
      hexDumpLine address (bytes.take 16) ::
        hexDumpLines (address + 16) (bytes.drop 16) := by
  rw [hexDumpLines, if_neg (by simpa using nonempty)]
  rfl

/-- What holds of no bytes, and of bytes where it holds of those behind the
first row, holds of all bytes. -/
theorem hexDumpLines_induction {motive : UInt32 → List UInt8 → Prop}
    (nil : ∀ address, motive address [])
    (row : ∀ address bytes, bytes ≠ [] →
      motive (address + 16) (bytes.drop 16) → motive address bytes)
    (address : UInt32) (bytes : List UInt8) : motive address bytes := by
  induction address, bytes using hexDumpLines.induct with
  | case1 address bytes empty =>
      rw [List.isEmpty_iff.mp empty]
      exact nil address
  | case2 address bytes nonempty inductionHypothesis =>
      exact row address bytes (by simpa using nonempty) inductionHypothesis

theorem length_hexDumpLines (address : UInt32) (bytes : List UInt8) :
    (hexDumpLines address bytes).length = (bytes.length + 15) / 16 := by
  induction address, bytes using hexDumpLines_induction with
  | nil address => rw [hexDumpLines_nil]; rfl
  | row address bytes nonempty inductionHypothesis =>
      have some := List.length_pos_iff.mpr nonempty
      rw [hexDumpLines_of_ne_nil address nonempty, List.length_cons,
        inductionHypothesis, List.length_drop]
      omega

theorem getElem?_hexDumpLines (address : UInt32) {bytes : List UInt8}
    {index : Nat} (inside : 16 * index < bytes.length) :
    (hexDumpLines address bytes)[index]? =
      some (hexDumpLine (address + UInt32.ofNat (16 * index))
        ((bytes.drop (16 * index)).take 16)) := by
  induction index generalizing address bytes with
  | zero =>
      have nonempty : bytes ≠ [] := List.length_pos_iff.mp inside
      rw [hexDumpLines_of_ne_nil address nonempty, List.getElem?_cons_zero]
      exact congrArg (fun start => some (hexDumpLine start (bytes.take 16)))
        (UInt32.add_zero address).symm
  | succ index inductionHypothesis =>
      have nonempty : bytes ≠ [] :=
        List.length_pos_iff.mp (Nat.lt_of_le_of_lt (Nat.zero_le _) inside)
      have rest : 16 * index < (bytes.drop 16).length := by
        rw [List.length_drop]
        omega
      have startEq : address + 16 + UInt32.ofNat (16 * index) =
          address + UInt32.ofNat (16 * (index + 1)) := by
        rw [UInt32.add_assoc, Nat.mul_succ, Nat.add_comm, UInt32.ofNat_add]
        rfl
      rw [hexDumpLines_of_ne_nil address nonempty, List.getElem?_cons_succ,
        inductionHypothesis (address + 16) rest, List.drop_drop, startEq,
        Nat.mul_succ, Nat.add_comm 16]

theorem isLine_hexDumpLines (address : UInt32) (bytes : List UInt8) :
    ∀ line ∈ hexDumpLines address bytes, Text.IsLine line ∧ line ≠ [] := by
  induction address, bytes using hexDumpLines_induction with
  | nil address =>
      rw [hexDumpLines_nil]
      exact List.forall_mem_nil _
  | row address bytes nonempty inductionHypothesis =>
      rw [hexDumpLines_of_ne_nil address nonempty]
      exact List.forall_mem_cons.mpr
        ⟨isLine_hexDumpLine address _, inductionHypothesis⟩

theorem readLines?_hexDumpLines (address : UInt32) (bytes : List UInt8) :
    Text.readLines? 10 56 (hexDumpLines address bytes) = some bytes := by
  induction address, bytes using hexDumpLines_induction with
  | nil address =>
      rw [hexDumpLines_nil]
      rfl
  | row address bytes nonempty inductionHypothesis =>
      have shown := showsRow_hexDumpLine address (List.length_take_le 16 bytes)
      rw [hexDumpLines_of_ne_nil address nonempty,
        Text.readLines?_cons shown.bytes.read, inductionHypothesis,
        Option.map_some, List.take_append_drop]

/-- The text of a dump has a line for each sixteen bytes.  Every line shows the
row of bytes at its address, which is a whole one unless the line is the last,
and the digits of all lines in order read as the bytes of the dump. -/
theorem hexDump_lossless (memory : Memory) (start : UInt32)
    (count : Nat) :
    let dumped := (memory.dump start count).value
    let lines := Text.lines (memory.hexDump start count).value
    lines.length = (count + 15) / 16 ∧
      Text.readLines? 10 56 lines = some dumped ∧
      ∀ index line, lines[index]? = some line →
        let row := (dumped.drop (16 * index)).take 16
        ShowsRow line (start + UInt32.ofNat (16 * index)) row ∧
          (index + 1 < lines.length → row.length = 16) := by
  intro dumped lines
  have dumpedLength : dumped.length = count :=
    memory.length_value_dump start count
  have linesEq : lines = hexDumpLines start dumped :=
    Text.lines_joinLines (isLine_hexDumpLines start dumped)
  have linesLength : lines.length = (count + 15) / 16 := by
    rw [linesEq, length_hexDumpLines, dumpedLength]
  refine ⟨linesLength, ?_, ?_⟩
  · rw [linesEq]
    exact readLines?_hexDumpLines start dumped
  · intro index line found row
    have listed : index < lines.length :=
      (List.getElem?_eq_some_iff.mp found).1
    have inside : 16 * index < dumped.length := by omega
    rw [linesEq, getElem?_hexDumpLines start inside] at found
    obtain rfl := Option.some.inj found
    constructor
    · exact showsRow_hexDumpLine _ (List.length_take_le 16 _)
    · intro notLast
      rw [List.length_take, List.length_drop]
      omega

/-- Seventeen bytes across the top of the address space: a whole row, and one
of a single byte whose address has wrapped around. -/
theorem hexDump_lossless_wrapped :
    let dumped := (Memory.blank.dump 0xFFFFFFF5 17).value
    let lines := Text.lines (Memory.blank.hexDump 0xFFFFFFF5 17).value
    ∃ first second, lines = [first, second] ∧
      ShowsRow first 0xFFFFFFF5 (dumped.take 16) ∧
      (dumped.take 16).length = 16 ∧
      ShowsRow second 0x00000005 ((dumped.drop 16).take 16) := by
  intro dumped lines
  obtain ⟨count, _, shows⟩ := hexDump_lossless Memory.blank 0xFFFFFFF5 17
  obtain ⟨first, second, linesEq⟩ := List.length_eq_two.mp count
  have firstFound : lines[0]? = some first := by
    rw [show lines = [first, second] from linesEq]
    rfl
  have secondFound : lines[1]? = some second := by
    rw [show lines = [first, second] from linesEq]
    rfl
  obtain ⟨firstShown, whole⟩ := shows 0 first firstFound
  obtain ⟨secondShown, _⟩ := shows 1 second secondFound
  refine ⟨first, second, linesEq, firstShown, whole ?_, secondShown⟩
  rw [count]
  decide

end RxBoard
