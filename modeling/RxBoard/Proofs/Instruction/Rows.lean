import RxBoard.Proofs.Instruction.Codec

/-!
The row of the table that a byte string is decoded by.

At most one row takes a byte string, so the row that is found does not depend
on the order of the table (`matchedRow?_eq_some_iff`).  Decoding by it undoes
encoding, and encoding undoes decoding (`decode_inverse_encode`).

The rows keep apart even where an encoding is cut short, so no row takes what
another one would have taken (`decode_orderless`).
-/

namespace RxBoard

/-- The first row that accepts the front of a byte string, if there is one. -/
def matchedRow? (bytes : List UInt8) : Option Encoding :=
  encodings.find? fun row => row.accepts bytes

theorem accepts_of_matchedRow? {bytes : List UInt8} {row : Encoding}
    (matched : matchedRow? bytes = some row) :
    row ∈ encodings ∧ row.accepts bytes = true := by
  have accepted := (List.find?_eq_some_iff_append.mp matched).1
  exact ⟨List.mem_of_find?_eq_some matched, accepted⟩

theorem matchedRow?_eq_some_iff (bytes : List UInt8) (row : Encoding) :
    matchedRow? bytes = some row ↔
      row ∈ encodings ∧ row.accepts bytes = true := by
  constructor
  · exact accepts_of_matchedRow?
  · rintro ⟨member, accepted⟩
    have isSome : (matchedRow? bytes).isSome = true :=
      List.find?_isSome.mpr ⟨row, member, accepted⟩
    obtain ⟨first, matched⟩ := Option.isSome_iff_exists.mp isSome
    obtain ⟨firstMember, firstAccepted⟩ := accepts_of_matchedRow? matched
    rw [matched, eq_of_isMatch firstMember member
      (Bool.and_eq_true_iff.mp firstAccepted).1
      (Bool.and_eq_true_iff.mp accepted).1]

/-- The matched row is the one that byte strings are decoded by. -/
theorem decode?_of_matchedRow? {bytes : List UInt8} {row : Encoding}
    (matched : matchedRow? bytes = some row)
    {instruction : Instruction}
    (extracted : row.extract bytes = some instruction) :
    row.decode? bytes = some (decode bytes) := by
  obtain ⟨member, accepted⟩ := (matchedRow?_eq_some_iff bytes row).mp matched
  have found : row.decode? bytes =
      some ⟨instruction, row.size, row.cycles, row.size_pos,
        row.cycles_pos⟩ := by
    rw [Encoding.decode?, if_pos accepted, extracted]
    rfl
  rw [found, decode_eq_of_decode? member found]

theorem matchedRow?_encode_append (instruction : Instruction)
    (recognized : instruction.isRecognized = true)
    (rest : List UInt8) :
    ∃ row, matchedRow? (instruction.encode ++ rest) = some row ∧
      row.mnemonic = instruction.mnemonic ∧
      row.decode? (instruction.encode ++ rest) =
        some (decode (instruction.encode ++ rest)) := by
  obtain ⟨row, member, mnemonicEq, isMatch, sizeEq, _, extracted⟩ :=
    exists_row_of_isRecognized instruction recognized rest
  have accepted : row.accepts (instruction.encode ++ rest) = true := by
    rw [Encoding.accepts, isMatch, Bool.true_and, row.fits_iff, sizeEq,
      List.length_append]
    exact Nat.le_add_right _ _
  have matched :=
    (matchedRow?_eq_some_iff _ row).mpr ⟨member, accepted⟩
  exact ⟨row, matched, mnemonicEq, decode?_of_matchedRow? matched extracted⟩

/-- A byte string that a row accepts has all operand fields of the row. -/
theorem exists_extract {row : Encoding} (member : row ∈ encodings)
    {bytes : List UInt8} (accepted : row.accepts bytes = true) :
    ∃ instruction, row.extract bytes = some instruction := by
  have long : row.size ≤ bytes.length :=
    (row.fits_iff bytes).mp (Bool.and_eq_true_iff.mp accepted).2
  simp only [encodings, List.mem_cons, List.not_mem_nil, or_false]
    at member
  rcases member with rfl | rfl | rfl | rfl
  · exact ⟨_, rfl⟩
  · obtain ⟨_, _, rfl, long6⟩ := exists_cons_of_lt_length long
    obtain ⟨_, _, rfl, long5⟩ := exists_cons_of_lt_length long6
    obtain ⟨_, _, rfl, long4⟩ := exists_cons_of_lt_length long5
    obtain ⟨_, _, _, _, _, rfl⟩ := exists_word_of_le_length long4
    exact ⟨_, rfl⟩
  · obtain ⟨_, _, rfl, long1⟩ := exists_cons_of_lt_length long
    obtain ⟨_, _, rfl, _⟩ := exists_cons_of_lt_length long1
    exact ⟨_, rfl⟩
  · obtain ⟨_, _, rfl, long5⟩ := exists_cons_of_lt_length long
    obtain ⟨_, _, rfl, long4⟩ := exists_cons_of_lt_length long5
    obtain ⟨_, _, _, _, _, rfl⟩ := exists_word_of_le_length long4
    exact ⟨_, rfl⟩

/-- Whether a byte string starts with the whole encoding of an instruction. -/
def StartsEncoding (bytes : List UInt8) : Prop :=
  ∃ instruction : Instruction,
    instruction.isRecognized = true ∧ instruction.encode <+: bytes

theorem isRecognized_decode_iff (bytes : List UInt8) :
    (decode bytes).instruction.isRecognized = true ↔
      StartsEncoding bytes := by
  constructor
  · intro recognized
    rcases decode_cases bytes with unrecognized | front
    · rw [unrecognized] at recognized
      cases recognized
    · obtain ⟨rest, bytesEq⟩ := front.front
      exact ⟨_, recognized, rest, bytesEq.symm⟩
  · rintro ⟨instruction, recognized, rest, rfl⟩
    rw [(decode_encode_append instruction recognized rest).1]
    cases instruction with
    | unrecognized opcode => cases recognized
    | _ => rfl

/-- The table has a row for each encoding, and a row for nothing else. -/
theorem startsEncoding_iff_row (bytes : List UInt8) :
    StartsEncoding bytes ↔
      ∃ row ∈ encodings,
        row.isMatch bytes = true ∧ row.size ≤ bytes.length := by
  constructor
  · rintro ⟨instruction, recognized, rest, rfl⟩
    obtain ⟨row, member, _, matched, sizeEq, _⟩ :=
      exists_row_of_isRecognized instruction recognized rest
    refine ⟨row, member, matched, ?_⟩
    rw [sizeEq, List.length_append]
    exact Nat.le_add_right _ _
  · rintro ⟨row, member, matched, fits⟩
    have accepted : row.accepts bytes = true :=
      Bool.and_eq_true_iff.mpr ⟨matched, (row.fits_iff bytes).mpr fits⟩
    obtain ⟨instruction, extracted⟩ := exists_extract member accepted
    have found := decode?_of_matchedRow?
      ((matchedRow?_eq_some_iff bytes row).mpr ⟨member, accepted⟩) extracted
    exact (isRecognized_decode_iff bytes).mp
      (isFrontOf_of_decode? member found).recognized

/-- No more is decoded than there is, unless there is nothing. -/
theorem size_decode_le_length {bytes : List UInt8}
    (nonempty : bytes ≠ []) : (decode bytes).size ≤ bytes.length := by
  rcases decode_cases bytes with unrecognized | front
  · rw [unrecognized]
    exact List.length_pos_iff.mpr nonempty
  · obtain ⟨rest, bytesEq⟩ := front.front
    have stands : (decode bytes).instruction.encode <+: bytes :=
      ⟨rest, bytesEq.symm⟩
    rw [front.size_eq]
    exact stands.length_le

/-- The bytes of a recognized instruction decode alike before any others. -/
theorem decode_take_append {bytes : List UInt8}
    (recognized : (decode bytes).instruction.isRecognized = true)
    (rest : List UInt8) :
    decode (bytes.take (decode bytes).size ++ rest) = decode bytes := by
  have nonempty : bytes ≠ [] := by
    rintro rfl
    cases recognized
  have behind := List.take_append_drop (decode bytes).size bytes
  rw [← encode_decode bytes nonempty] at behind ⊢
  have same := decode_encode_congr recognized rest
    (bytes.drop (decode bytes).size)
  rw [behind] at same
  exact same

/-- Decoding and encoding are inverse to each other.  A byte string that is not
empty starts with the encoding of what it is decoded to, and this much of it
decides the result if it is recognized.  The encoding of an instruction is
decoded to the instruction, by a row with its mnemonic, whatever follows; of
register fields the low four bits are kept. -/
theorem decode_inverse_encode :
    (∀ bytes : List UInt8, bytes ≠ [] →
      (decode bytes).size ≤ bytes.length ∧
        (decode bytes).instruction.encode =
          bytes.take (decode bytes).size ∧
        ((decode bytes).instruction.isRecognized = true → ∀ rest,
          decode (bytes.take (decode bytes).size ++ rest) =
            decode bytes)) ∧
    ∀ instruction : Instruction, instruction.isRecognized = true →
      ∀ rest : List UInt8,
        let decoded := decode (instruction.encode ++ rest)
        decoded.instruction = instruction.masked ∧
          decoded.size = instruction.encode.length ∧
          ∃ row, matchedRow? (instruction.encode ++ rest) = some row ∧
            row.mnemonic = instruction.mnemonic ∧
            row.decode? (instruction.encode ++ rest) = some decoded := by
  constructor
  · intro bytes nonempty
    exact ⟨size_decode_le_length nonempty, encode_decode bytes nonempty,
      decode_take_append⟩
  · intro instruction recognized rest decoded
    have read := decode_encode_append instruction recognized rest
    exact ⟨read.1, read.2.1,
      matchedRow?_encode_append instruction recognized rest⟩

/-- A register field above fifteen is cut, and a cut-off encoding is decoded to
its first byte. -/
theorem decode_inverse_encode_cut :
    [0x72, 0x2A, 0x01] ≠ ([] : List UInt8) ∧
      (decode [0x72, 0x2A, 0x01]).instruction.encode = [0x72] ∧
      (Instruction.addImmediate 0x3A 7).isRecognized = true ∧
      (decode ((Instruction.addImmediate 0x3A 7).encode ++
        [0xFB])).instruction = .addImmediate 0x0A 7 := by
  obtain ⟨encoded, decoded⟩ := decode_inverse_encode
  exact ⟨by decide, (encoded [0x72, 0x2A, 0x01] (by decide)).2.1,
    by decide,
    (decoded (.addImmediate 0x3A 7) (by decide) [0xFB]).1⟩

/-! ### The order of the rows -/

theorem pairwise_encodings (bytes : List UInt8) :
    encodings.Pairwise fun row other =>
      row.isMatch bytes = true → other.isMatch bytes = false := by
  have apart : encodings.Pairwise fun row other =>
      row.pattern.head?.map ByteTest.expected ≠
        other.pattern.head?.map ByteTest.expected := by
    decide
  refine apart.imp_of_mem ?_
  intro row other rowMember otherMember different matched
  rw [← Bool.not_eq_true]
  intro otherMatched
  rw [eq_of_isMatch rowMember otherMember matched otherMatched] at different
  exact different rfl

theorem length_filter_isMatch_le (bytes : List UInt8) :
    (encodings.filter fun row => row.isMatch bytes).length ≤ 1 := by
  have apart := (pairwise_encodings bytes).filter
    fun row => row.isMatch bytes
  have allMatch (row : Encoding)
      (member : row ∈ encodings.filter fun row => row.isMatch bytes) :
      row.isMatch bytes = true := (List.mem_filter.mp member).2
  cases matching : encodings.filter fun row => row.isMatch bytes with
  | nil => exact Nat.zero_le 1
  | cons row rest =>
      cases rest with
      | nil => exact Nat.le_refl 1
      | cons other more =>
          rw [matching] at apart allMatch
          have otherFails := (List.pairwise_cons.mp apart).1 other (.head _)
            (allMatch row (.head _))
          rw [allMatch other (.tail _ (.head _))] at otherFails
          cases otherFails

/-- Of rows that are those of the table, in any order and number, the one that
decodes a byte string is found. -/
theorem decodeBy_eq_decode {rows : List Encoding}
    (sameRows : ∀ row, row ∈ rows ↔ row ∈ encodings)
    (bytes : List UInt8) : decodeBy rows bytes = decode bytes := by
  unfold decodeBy
  cases search : rows.findSome? fun row => row.decode? bytes with
  | none =>
      have noRow := List.findSome?_eq_none_iff.mp search
      have noEncoding :
          (encodings.findSome? fun row => row.decode? bytes) = none :=
        List.findSome?_eq_none_iff.mpr fun row member =>
          noRow row ((sameRows row).mpr member)
      rw [decode, decodeBy, noEncoding]
  | some decoded =>
      obtain ⟨row, member, found⟩ :=
        List.exists_of_findSome?_eq_some search
      exact (decode_eq_of_decode? ((sameRows row).mp member) found).symm

/-- Where the encoding of the row that matches is cut short, no other row steps
in. -/
theorem decode_of_cut {row : Encoding} (member : row ∈ encodings)
    {bytes : List UInt8} (matched : row.isMatch bytes = true)
    (cut : bytes.length < row.size) :
    (∀ other ∈ encodings, other.accepts bytes = false) ∧
      decode bytes = Decoded.unrecognized bytes := by
  have refused (other : Encoding) (otherMember : other ∈ encodings) :
      other.accepts bytes = false := by
    rw [← Bool.not_eq_true]
    intro accepted
    obtain ⟨otherMatched, otherFits⟩ := Bool.and_eq_true_iff.mp accepted
    rw [eq_of_isMatch otherMember member otherMatched matched,
      row.fits_iff] at otherFits
    exact Nat.not_le.mpr cut otherFits
  refine ⟨refused, ?_⟩
  have noEncoding :
      (encodings.findSome? fun row => row.decode? bytes) = none := by
    rw [List.findSome?_eq_none_iff]
    intro other otherMember
    rw [Encoding.decode?, refused other otherMember]
    rfl
  rw [decode, decodeBy, noEncoding]
  rfl

theorem isRecognized_decode_eq_false_iff (bytes : List UInt8) :
    (decode bytes).instruction.isRecognized = false ↔
      ∀ row ∈ encodings,
        ¬(row.isMatch bytes = true ∧ row.size ≤ bytes.length) := by
  rw [← Bool.not_eq_true, isRecognized_decode_iff, startsEncoding_iff_row]
  simp only [not_exists, not_and]

/-- The order of the table decides nothing.  At most one row matches a byte
string, be its encoding whole or cut short; so every order of the rows decodes
alike, and an encoding that is cut short is decoded to its first byte and not
by another row.  The bytes of the longest encoding decide the result, and it is
unrecognized if no row both matches and fits. -/
theorem decode_orderless :
    (∀ bytes : List UInt8,
      (encodings.filter fun row => row.isMatch bytes).length ≤ 1) ∧
    (∀ rows : List Encoding, rows.Perm encodings →
      ∀ bytes : List UInt8, decodeBy rows bytes = decode bytes) ∧
    (∀ bytes : List UInt8, ∀ row ∈ encodings,
      row.isMatch bytes = true → bytes.length < row.size →
        (∀ other ∈ encodings, other.accepts bytes = false) ∧
          decode bytes = Decoded.unrecognized bytes) ∧
    (∀ bytes other : List UInt8, bytes.take 7 = other.take 7 →
      decode bytes = decode other) ∧
    ∀ bytes : List UInt8,
      (decode bytes).instruction.isRecognized = false ↔
        ∀ row ∈ encodings,
          ¬(row.isMatch bytes = true ∧ row.size ≤ bytes.length) := by
  refine ⟨length_filter_isMatch_le, ?_, ?_, ?_,
    isRecognized_decode_eq_false_iff⟩
  · intro rows reordered bytes
    exact decodeBy_eq_decode (fun row => reordered.mem_iff) bytes
  · intro bytes row member matched cut
    exact decode_of_cut member matched cut
  · intro bytes other sameFront
    rw [← decode_take bytes, ← decode_take other]
    exact congrArg decode sameFront

/-- The table backwards decodes an encoding alike, whole and cut short; bytes
behind the first seven change nothing. -/
theorem decode_orderless_reverse :
    let whole : List UInt8 := [0xFB, 0x12, 0x01, 4, 3, 2, 1]
    let cut := whole.take 6
    decodeBy encodings.reverse whole =
        ⟨.moveImmediate 1 0x01020304, 7, 2, by decide, by decide⟩ ∧
      decodeBy encodings.reverse cut = Decoded.unrecognized cut ∧
      decode (whole ++ [0x72]) = decode whole := by
  intro whole cut
  obtain ⟨_, reordered, shadowed, decided, _⟩ := decode_orderless
  have backwards := reordered encodings.reverse encodings.reverse_perm
  have matched :
      ∃ row ∈ encodings, row.isMatch cut = true ∧ cut.length < row.size :=
    ⟨_, .tail _ (.head _), by decide, by decide⟩
  obtain ⟨row, member, rowMatches, short⟩ := matched
  refine ⟨?_, ?_, decided (whole ++ [0x72]) whole rfl⟩
  · rw [backwards whole]
    decide
  · rw [backwards cut]
    exact (shadowed cut row member rowMatches short).2

end RxBoard
