import Mathlib.Algebra.Order.Ring.Int
import RxBoard.Listing
import RxBoard.Proofs.Instruction.Codec

/-!
A listing as a walk over its bytes.

Each entry starts where the entries before it end.  What follows an entry is
the listing of the bytes from there on (`drop_disassemble`), so an entry is
what is decoded at its offset.  Bytes behind the string that is listed change
only entries near its end (`take_disassemble_append`).
-/

namespace RxBoard

/-- What holds of nothing, and of code where it holds of the code behind the
first entry, holds of all code. -/
theorem disassemble_induction {motive : List UInt8 → UInt32 → Prop}
    (nil : ∀ address, motive [] address)
    (cons : ∀ first rest address,
      motive
        ((first :: rest).drop (decode (first :: rest)).size)
        (address + UInt32.ofNat (decode (first :: rest)).size) →
      motive (first :: rest) address)
    (bytes : List UInt8) (address : UInt32) : motive bytes address := by
  induction lengthEq : bytes.length using Nat.strongRecOn
    generalizing bytes address with
  | ind length inductionHypothesis =>
      cases bytes with
      | nil => exact nil address
      | cons first rest =>
          have sizePositive := (decode (first :: rest)).size_pos
          refine cons first rest address
            (inductionHypothesis _ ?_ _ _ rfl)
          rw [List.length_drop, ← lengthEq, List.length_cons]
          omega

/-- No byte is left out of a listing. -/
theorem flatMap_bytes_disassemble (bytes : List UInt8)
    (address : UInt32) :
    (disassemble bytes address).flatMap ListingEntry.bytes = bytes := by
  induction bytes, address using disassemble_induction with
  | nil address => simp
  | cons first rest address inductionHypothesis =>
      rw [disassemble_cons, List.flatMap_cons]
      refine (congrArg (_ ++ ·) inductionHypothesis).trans ?_
      exact List.take_append_drop _ _

/-- Where the entry with an index starts: the size of those before it. -/
def ListingEntry.offset (entries : List ListingEntry) (index : Nat) :
    Nat :=
  ((entries.take index).map ListingEntry.size).sum

namespace ListingEntry

theorem offset_zero (entries : List ListingEntry) :
    offset entries 0 = 0 := rfl

theorem offset_cons_succ (entry : ListingEntry)
    (rest : List ListingEntry) (index : Nat) :
    offset (entry :: rest) (index + 1) = entry.size + offset rest index :=
  List.sum_cons

theorem offset_succ {entries : List ListingEntry} {index : Nat}
    {entry : ListingEntry} (found : entries[index]? = some entry) :
    offset entries (index + 1) = offset entries index + entry.size := by
  rw [offset, List.take_add_one, found, List.map_append, List.sum_append]
  rfl

end ListingEntry

/-- The entries from one on are the listing of the bytes from its offset
on. -/
theorem drop_disassemble (bytes : List UInt8) (address : UInt32)
    (index : Nat) :
    let offset := ListingEntry.offset (disassemble bytes address) index
    (disassemble bytes address).drop index =
      disassemble (bytes.drop offset) (address + UInt32.ofNat offset) := by
  induction bytes, address using disassemble_induction
    generalizing index with
  | nil address => simp
  | cons first rest address inductionHypothesis =>
      cases index with
      | zero => simp [ListingEntry.offset_zero]
      | succ index =>
          rw [disassemble_cons]
          refine (inductionHypothesis index).trans ?_
          simp only [ListingEntry.offset_cons_succ, ListingEntry.ofBytes,
            List.drop_drop, UInt32.ofNat_add, UInt32.add_assoc]

theorem getElem?_disassemble {bytes : List UInt8} {address : UInt32}
    {index : Nat}
    (inside : ListingEntry.offset (disassemble bytes address) index <
      bytes.length) :
    let offset := ListingEntry.offset (disassemble bytes address) index
    (disassemble bytes address)[index]? =
      some (.ofBytes (bytes.drop offset)
        (address + UInt32.ofNat offset)) := by
  intro offset
  have walked := drop_disassemble bytes address index
  have remaining : bytes.drop offset ≠ [] := by
    rw [Ne, List.drop_eq_nil_iff, Nat.not_le]
    exact inside
  obtain ⟨first, rest, bytesEq⟩ := List.exists_cons_of_ne_nil remaining
  change _ = disassemble (bytes.drop offset) _ at walked
  rw [bytesEq, disassemble_cons] at walked
  rw [bytesEq, ← List.head?_drop, walked]
  rfl

theorem offset_disassemble_succ (first : UInt8) (rest : List UInt8)
    (address : UInt32) (index : Nat) :
    ListingEntry.offset (disassemble (first :: rest) address)
        (index + 1) =
      (decode (first :: rest)).size +
        ListingEntry.offset
          (disassemble
            ((first :: rest).drop (decode (first :: rest)).size)
            (address + UInt32.ofNat (decode (first :: rest)).size))
          index := by
  rw [disassemble_cons]
  exact ListingEntry.offset_cons_succ ..

theorem offset_disassemble_le (bytes : List UInt8) (address : UInt32)
    (index : Nat) :
    ListingEntry.offset (disassemble bytes address) index ≤
      index * longestEncoding := by
  induction bytes, address using disassemble_induction
    generalizing index with
  | nil address => simp [ListingEntry.offset]
  | cons first rest address inductionHypothesis =>
      cases index with
      | zero => exact Nat.zero_le _
      | succ index =>
          rw [offset_disassemble_succ, Nat.succ_mul, Nat.add_comm]
          exact Nat.add_le_add (inductionHypothesis index)
            (size_decode_le (first :: rest))

theorem offset_disassemble_add_le (bytes : List UInt8) (address : UInt32)
    {index count : Nat} (listed : index < count) :
    ListingEntry.offset (disassemble bytes address) index +
        longestEncoding ≤
      count * longestEncoding := by
  have small := offset_disassemble_le bytes address index
  have least := Nat.mul_le_mul_right longestEncoding
    (Nat.succ_le_of_lt listed)
  rw [Nat.succ_mul] at least
  exact Nat.le_trans (Nat.add_le_add_right small _) least

/-- Bytes behind those of the longest encoding do not change an entry. -/
theorem ListingEntry.ofBytes_append {bytes : List UInt8}
    (whole : longestEncoding ≤ bytes.length) (rest : List UInt8)
    (address : UInt32) :
    ofBytes (bytes ++ rest) address = ofBytes bytes address := by
  have decodedEq : decode (bytes ++ rest) = decode bytes := by
    rw [← decode_take (bytes ++ rest), List.take_append_of_le_length whole,
      decode_take]
  have inside : (decode bytes).size ≤ bytes.length :=
    Nat.le_trans (size_decode_le bytes) whole
  simp only [ofBytes, decodedEq, List.take_append_of_le_length inside]

/-- Bytes behind a string do not change the entries that have those of the
longest encoding within it. -/
theorem take_disassemble_append (bytes rest : List UInt8)
    (address : UInt32) {index : Nat}
    (whole : ListingEntry.offset (disassemble bytes address) index +
      longestEncoding ≤ bytes.length) :
    (disassemble (bytes ++ rest) address).take (index + 1) =
      (disassemble bytes address).take (index + 1) := by
  induction bytes, address using disassemble_induction
    generalizing index with
  | nil address => simp [longestEncoding] at whole
  | cons first tail address inductionHypothesis =>
      have enough : longestEncoding ≤ (first :: tail).length :=
        Nat.le_trans (Nat.le_add_left _ _) whole
      have headEq := ListingEntry.ofBytes_append enough rest address
      have inside : (decode (first :: tail)).size ≤
          (first :: tail).length :=
        Nat.le_trans (size_decode_le _) enough
      rw [List.cons_append] at headEq ⊢
      rw [disassemble_cons, disassemble_cons, headEq,
        List.take_succ_cons, List.take_succ_cons]
      refine congrArg (_ :: ·) ?_
      rw [← List.cons_append]
      cases index with
      | zero => rfl
      | succ index =>
          rw [offset_disassemble_succ] at whole
          refine Eq.trans ?_ (@inductionHypothesis index ?_)
          · exact congrArg (fun code => (disassemble code _).take (index + 1))
              (List.drop_append_of_le_length inside)
          · rw [List.length_drop]
            omega

end RxBoard
