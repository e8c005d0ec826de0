import RxBoard.Listing
import RxBoard.Proofs.Assembly.Accounting

/-!
Listings of assembled texts.

The code of an assembled text is listed instruction by instruction, at the
offsets that the source map gives: no entry starts inside an encoding, and no
line that emits nothing leaves a trace.
-/

namespace RxBoard

def ListingEntry.ofInstruction (address : UInt32)
    (instruction : Instruction) : ListingEntry :=
  { address
    instruction
    bytes := instruction.encode
    size := instruction.encode.length
    cycles := instruction.cost }

theorem disassemble_encode_append {instruction : Instruction}
    (recognized : instruction.isRecognized = true)
    (masked : instruction.masked = instruction)
    (rest : List UInt8) (address : UInt32) :
    disassemble (instruction.encode ++ rest) address =
      .ofInstruction address instruction ::
        disassemble rest
          (address + UInt32.ofNat instruction.encode.length) := by
  obtain ⟨instructionEq, sizeEq, cyclesEq⟩ :=
    decode_encode_append instruction recognized rest
  obtain ⟨first, tail, encodeEq⟩ :=
    List.exists_cons_of_ne_nil instruction.encode_ne_nil
  have entryEq :
      ListingEntry.ofBytes (instruction.encode ++ rest) address =
        .ofInstruction address instruction := by
    simp only [ListingEntry.ofBytes, instructionEq, sizeEq, cyclesEq,
      masked, List.take_left]
    rfl
  -- Unfolding a listing needs its first byte in view.
  have unfolded := disassemble_cons first (tail ++ rest) address
  rw [← List.cons_append, ← encodeEq] at unfolded
  rw [unfolded, entryEq]
  simp only [ListingEntry.ofInstruction, List.drop_left]

theorem getElem?_disassemble_code (emitting : List EmittingLine)
    (address : UInt32) (index : Nat) :
    (disassemble (EmittingLine.code emitting) address)[index]? =
      emitting[index]?.map fun entry =>
        .ofInstruction
          (address + UInt32.ofNat (EmittingLine.offset emitting index))
          entry.instruction := by
  induction emitting generalizing address index with
  | nil => simp [EmittingLine.code]
  | cons entry rest inductionHypothesis =>
      have codeEq :
          EmittingLine.code (entry :: rest) =
            entry.instruction.encode ++ EmittingLine.code rest := rfl
      rcases entry.denotes with ⟨tokens, _parsed, denotes⟩
      rw [codeEq, disassemble_encode_append denotes.isRecognized
        denotes.masked]
      cases index with
      | zero => simp [EmittingLine.offset, EmittingLine.code]
      | succ index =>
          rw [List.getElem?_cons_succ, inductionHypothesis,
            List.getElem?_cons_succ, EmittingLine.offset_cons_succ,
            UInt32.ofNat_add, UInt32.add_assoc]

theorem length_disassemble_code (emitting : List EmittingLine)
    (address : UInt32) :
    (disassemble (EmittingLine.code emitting) address).length =
      emitting.length := by
  have bound (index : Nat) :
      (disassemble (EmittingLine.code emitting) address).length ≤ index ↔
        emitting.length ≤ index := by
    rw [← List.getElem?_eq_none_iff, getElem?_disassemble_code,
      Option.map_eq_none_iff, List.getElem?_eq_none_iff]
  exact Nat.le_antisymm ((bound _).mpr (Nat.le_refl _))
    ((bound _).mp (Nat.le_refl _))

/-- The listing of an assembled text goes through its emitting lines, with the
instruction that each denotes and the range that the source map gives it. -/
theorem disassemble_assembled (source : Text) (start : UInt32) :
    let assembly := Assembly.ofText source
    let listing := disassemble assembly.bytes start
    listing.length = assembly.sourceMap.size ∧
      (emittingLines source).length = assembly.sourceMap.size ∧
      ∀ (index : Nat) (emitting : EmittingLine),
        (emittingLines source)[index]? = some emitting →
        ∃ (entry : ListingEntry) (range : OffsetRange),
          listing[index]? = some entry ∧
          assembly.sourceMap.entries[index]? =
            some ⟨range, emitting.line⟩ ∧
          assembly.sourceMap.searchRange? emitting.line = some range ∧
          entry.instruction.isRecognized = true ∧
          entry.instruction = emitting.instruction ∧
          TextDenotes emitting.text entry.instruction ∧
          entry.address = start + UInt32.ofNat range.start ∧
          range.start + entry.size = range.stop := by
  intro assembly listing
  have sizeEq := Assembly.size_sourceMap_ofText source
  have listingEq :
      listing = disassemble
        (EmittingLine.code (emittingLines source)) start := by
    rw [← Assembly.bytes_ofText]
  refine ⟨?_, sizeEq.symm, ?_⟩
  · rw [listingEq, length_disassemble_code]
    exact sizeEq.symm
  · intro index emitting found
    have entryAt :=
      getElem?_disassemble_code (emittingLines source) start index
    have mapAt := Assembly.getElem?_sourceMap_ofText source index
    rw [found, Option.map_some] at entryAt mapAt
    rcases emitting.denotes with ⟨tokens, _parsed, denotes⟩
    refine ⟨_, _, listingEq ▸ entryAt, mapAt,
      Assembly.searchRange?_of_emits found, denotes.isRecognized, rfl,
      emitting.denotes, rfl, ?_⟩
    exact (EmittingLine.offset_succ found).symm

end RxBoard
