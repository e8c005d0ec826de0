import RxBoard.Proofs.Assembly.Printed
import RxBoard.Proofs.Listing.Walk

/-!
Listings that are assembled again.

The assembler takes a printed listing line by line: a recognized entry gives
its bytes back, and an unrecognized one leaves an error.
-/

namespace RxBoard

/-- The entries of a listing have the bytes that their instructions encode
to. -/
theorem bytes_of_mem_disassemble (bytes : List UInt8) (address : UInt32) :
    ∀ entry ∈ disassemble bytes address,
      entry.instruction.masked = entry.instruction ∧
        entry.bytes = entry.instruction.encode := by
  induction bytes, address using disassemble_induction with
  | nil address => simp
  | cons first rest address inductionHypothesis =>
      rw [disassemble_cons]
      refine List.forall_mem_cons.mpr ⟨⟨?_, ?_⟩, inductionHypothesis⟩
      · exact masked_decode (first :: rest)
      · exact (encode_decode (first :: rest) (List.cons_ne_nil _ _)).symm

section Entries

variable {entries : List ListingEntry}
  (reduced : ∀ entry ∈ entries,
    entry.instruction.masked = entry.instruction ∧
      entry.bytes = entry.instruction.encode)

include reduced

theorem bytes_of_entry_texts :
    (entries.flatMap fun entry => (LineOutput.ofText entry.text).bytes) =
      (entries.filter fun entry => entry.instruction.isRecognized).flatMap
        ListingEntry.bytes := by
  induction entries with
  | nil => rfl
  | cons entry rest inductionHypothesis =>
      obtain ⟨⟨masked, bytesEq⟩, restReduced⟩ :=
        List.forall_mem_cons.mp reduced
      rw [List.flatMap_cons, inductionHypothesis restReduced,
        ListingEntry.text, Instruction.ofText_text masked]
      by_cases recognized : entry.instruction.isRecognized = true
      · simp [recognized, LineOutput.bytes, bytesEq]
      · simp [recognized, LineOutput.bytes]

theorem errors_of_entry_texts (line : Nat) :
    ((entries.zipIdx line).filterMap fun entry =>
        (LineOutput.ofText entry.1.text).cause?.map
          (LineError.mk entry.2)) =
      ((entries.zipIdx line).filter fun entry =>
          !entry.1.instruction.isRecognized).map fun entry =>
        LineError.mk entry.2
          (.unknownInstruction ".BYTE".toList "unknown".toList) := by
  induction entries generalizing line with
  | nil => rfl
  | cons entry rest inductionHypothesis =>
      rcases List.forall_mem_cons.mp reduced with ⟨⟨masked, _⟩, restReduced⟩
      rw [List.zipIdx_cons, List.filterMap_cons,
        inductionHypothesis restReduced, ListingEntry.text,
        Instruction.ofText_text masked]
      by_cases recognized : entry.instruction.isRecognized = true
      · simp [recognized, LineOutput.cause?]
      · simp [recognized, LineOutput.cause?]

end Entries

/-- A printed listing gives back the bytes of its recognized entries, and an
error for each unrecognized one. -/
theorem ofText_joinLines_disassemble (bytes : List UInt8)
    (start : UInt32) :
    let entries := disassemble bytes start
    let assembly :=
      Assembly.ofText (Text.joinLines (entries.map ListingEntry.text))
    assembly.bytes =
        (entries.filter fun entry =>
          entry.instruction.isRecognized).flatMap ListingEntry.bytes ∧
      assembly.errors =
        (((entries.zipIdx 1).filter fun entry =>
            !entry.1.instruction.isRecognized).map fun entry =>
          LineError.mk entry.2
            (.unknownInstruction ".BYTE".toList "unknown".toList)) ∧
      ((∀ entry ∈ entries, entry.instruction.isRecognized = true) →
        assembly.errors = [] ∧ assembly.bytes = bytes) := by
  intro entries assembly
  have reduced : ∀ entry ∈ entries,
      entry.instruction.masked = entry.instruction ∧
        entry.bytes = entry.instruction.encode :=
    bytes_of_mem_disassemble bytes start
  have linesEq :
      Text.lines (Text.joinLines (entries.map ListingEntry.text)) =
        entries.map ListingEntry.text := by
    apply Text.lines_joinLines
    intro text member
    rcases List.mem_map.mp member with ⟨entry, entryMember, rfl⟩
    exact ⟨Instruction.isLine_text (reduced entry entryMember).1,
      entry.instruction.text_ne_nil⟩
  have bytesEq :
      assembly.bytes =
        (entries.filter fun entry =>
          entry.instruction.isRecognized).flatMap ListingEntry.bytes := by
    rw [← bytes_of_entry_texts reduced]
    simp only [assembly, Assembly.ofText, linesEq, Assembly.bytes_ofLines,
      List.flatMap_map]
  have errorsEq :
      assembly.errors =
        ((entries.zipIdx 1).filter fun entry =>
            !entry.1.instruction.isRecognized).map fun entry =>
          LineError.mk entry.2
            (.unknownInstruction ".BYTE".toList "unknown".toList) := by
    rw [← errors_of_entry_texts reduced]
    simp only [assembly, Assembly.ofText, linesEq, Assembly.errors_ofLines,
      List.zipIdx_map, List.filterMap_map]
    rfl
  refine ⟨bytesEq, errorsEq, ?_⟩
  intro allRecognized
  constructor
  · rw [errorsEq, List.map_eq_nil_iff, List.filter_eq_nil_iff]
    intro entry member
    have inside := List.fst_mem_of_mem_zipIdx member
    simp [allRecognized entry.1 inside]
  · rw [bytesEq, List.filter_eq_self.mpr allRecognized]
    exact flatMap_bytes_disassemble bytes start

end RxBoard
