import RxBoard.Instruction.Encoding

/-!
Decoding and encoding undo each other.

`decode_encode_append` says that an encoding is recognized whatever bytes
follow it.  `decode_cases` is the converse: a byte string is unrecognized, or
it starts with the encoding of the instruction that is read.
-/

namespace RxBoard

theorem toNat_lowNibble (byte : UInt8) :
    (lowNibble byte).toNat = byte.toNat % 16 := by
  rw [lowNibble, UInt8.toNat_and]
  exact Nat.and_two_pow_sub_one_eq_mod byte.toNat 4

@[simp] theorem lowNibble_lowNibble (byte : UInt8) :
    lowNibble (lowNibble byte) = lowNibble byte := by
  apply UInt8.toNat_inj.mp
  simp only [toNat_lowNibble, Nat.mod_mod]

theorem lowNibble_of_lt (byte : UInt8) (small : byte.toNat < 16) :
    lowNibble byte = byte := by
  apply UInt8.toNat_inj.mp
  rw [toNat_lowNibble, Nat.mod_eq_of_lt small]

@[simp] theorem lowNibble_and_high (byte : UInt8) :
    lowNibble byte &&& 0xF0 = 0 := by
  rw [lowNibble, UInt8.and_assoc]
  exact UInt8.and_zero

theorem high_or_lowNibble (byte : UInt8) :
    (byte &&& 0xF0) ||| lowNibble byte = byte := by
  apply UInt8.toBitVec_inj.mp
  exact (BitVec.and_or_distrib_left ..).symm.trans (BitVec.and_allOnes ..)

theorem or_and_distrib (left right mask : UInt8) :
    (left ||| right) &&& mask = left &&& mask ||| right &&& mask :=
  UInt8.toBitVec_inj.mp BitVec.and_or_distrib_right

@[simp] theorem or_lowNibble_and_high (byte : UInt8) :
    (0x20 ||| lowNibble byte) &&& 0xF0 = 0x20 := by
  rw [or_and_distrib, lowNibble_and_high]
  rfl

@[simp] theorem lowNibble_or_lowNibble (byte : UInt8) :
    lowNibble (0x20 ||| lowNibble byte) = lowNibble byte := by
  rw [lowNibble, or_and_distrib]
  exact UInt8.zero_or.trans (lowNibble_lowNibble byte)

theorem toNat_packed (high low : UInt8) :
    (lowNibble high <<< 4 ||| lowNibble low).toNat =
      16 * (high.toNat % 16) + low.toNat % 16 := by
  have highBound := Nat.mod_lt high.toNat (show 0 < 16 by decide)
  have lowBound := Nat.mod_lt low.toNat (show 0 < 16 by decide)
  have shifted :
      (lowNibble high <<< 4).toNat = (high.toNat % 16) <<< 4 := by
    have small : (high.toNat % 16) <<< 4 < 256 := by
      rw [Nat.shiftLeft_eq]
      change high.toNat % 16 * 16 < 256
      omega
    rw [UInt8.toNat_shiftLeft, toNat_lowNibble]
    exact Nat.mod_eq_of_lt small
  rw [UInt8.toNat_or, shifted, toNat_lowNibble,
    ← Nat.shiftLeft_add_eq_or_of_lt lowBound, Nat.shiftLeft_eq]
  omega

theorem packed_shiftRight (high low : UInt8) :
    (lowNibble high <<< 4 ||| lowNibble low) >>> 4 = lowNibble high := by
  apply UInt8.toNat_inj.mp
  rw [UInt8.toNat_shiftRight, toNat_packed, toNat_lowNibble]
  change (16 * (high.toNat % 16) + low.toNat % 16) >>> 4 = _
  rw [Nat.shiftRight_eq_div_pow]
  omega

theorem lowNibble_packed (high low : UInt8) :
    lowNibble (lowNibble high <<< 4 ||| lowNibble low) =
      lowNibble low := by
  apply UInt8.toNat_inj.mp
  rw [toNat_lowNibble, toNat_packed, toNat_lowNibble]
  omega

theorem toNat_shiftRight_four (byte : UInt8) :
    (byte >>> 4).toNat = byte.toNat / 16 := by
  rw [UInt8.toNat_shiftRight]
  exact Nat.shiftRight_eq_div_pow byte.toNat 4

theorem lowNibble_shiftRight (byte : UInt8) :
    lowNibble (byte >>> 4) = byte >>> 4 := by
  have byteBound := byte.toNat_lt
  apply lowNibble_of_lt
  rw [toNat_shiftRight_four]
  omega

theorem packed_halves (byte : UInt8) :
    lowNibble (byte >>> 4) <<< 4 ||| lowNibble byte = byte := by
  have byteBound := byte.toNat_lt
  apply UInt8.toNat_inj.mp
  rw [toNat_packed, toNat_shiftRight_four]
  omega

theorem exists_wordBytes (number : UInt32) :
    ∃ byte0 byte1 byte2 byte3,
      LittleEndian.wordBytes number = [byte0, byte1, byte2, byte3] ∧
        LittleEndian.word [byte0, byte1, byte2, byte3] = number :=
  ⟨_, _, _, _, rfl, LittleEndian.word_wordBytes number⟩

namespace Instruction

/-- The instruction with its register fields reduced to their low four bits. -/
def masked : Instruction → Instruction
  | nop => nop
  | moveImmediate destination immediate =>
      moveImmediate (lowNibble destination) immediate
  | moveRegister source destination =>
      moveRegister (lowNibble source) (lowNibble destination)
  | addImmediate destination immediate =>
      addImmediate (lowNibble destination) immediate
  | unrecognized opcode => unrecognized opcode

def cost : Instruction → Nat
  | nop => 1
  | moveImmediate _ _ => 2
  | moveRegister _ _ => 1
  | addImmediate _ _ => 2
  | unrecognized _ => 1

end Instruction

theorem and_full (byte : UInt8) : byte &&& 0xFF = byte :=
  UInt8.and_neg_one

/-- A row that matches shows in the first byte. -/
theorem head?_of_isMatch {row : Encoding} (member : row ∈ encodings)
    {bytes : List UInt8} (matched : row.isMatch bytes = true) :
    bytes.head? = row.pattern.head?.map ByteTest.expected := by
  cases bytes with
  | nil =>
      simp only [encodings, List.mem_cons, List.not_mem_nil, or_false]
        at member
      rcases member with rfl | rfl | rfl | rfl <;> cases matched
  | cons first rest =>
      simp only [encodings, List.mem_cons, List.not_mem_nil, or_false]
        at member
      rcases member with rfl | rfl | rfl | rfl <;>
        simp_all [Encoding.isMatch, Encoding.passes, ByteTest.accepts,
          and_full]

/-- No two rows match the same bytes. -/
theorem eq_of_isMatch {row other : Encoding}
    (rowMember : row ∈ encodings) (otherMember : other ∈ encodings)
    {bytes : List UInt8} (rowMatched : row.isMatch bytes = true)
    (otherMatched : other.isMatch bytes = true) : row = other := by
  have same :
      row.pattern.head?.map ByteTest.expected =
        other.pattern.head?.map ByteTest.expected :=
    (head?_of_isMatch rowMember rowMatched).symm.trans
      (head?_of_isMatch otherMember otherMatched)
  simp only [encodings, List.mem_cons, List.not_mem_nil, or_false]
    at rowMember otherMember
  rcases rowMember with rfl | rfl | rfl | rfl <;>
    rcases otherMember with rfl | rfl | rfl | rfl <;>
    first
      | exact absurd same (by decide)
      | rfl

theorem accepts_of_decode? {row : Encoding} {bytes : List UInt8}
    {decoded : Decoded} (found : row.decode? bytes = some decoded) :
    row.isMatch bytes = true ∧ row.size ≤ bytes.length ∧
      row.extract bytes = some decoded.instruction ∧
      decoded.size = row.size ∧ decoded.cycles = row.cycles := by
  unfold Encoding.decode? at found
  by_cases accepted : row.accepts bytes = true
  · rw [if_pos accepted] at found
    obtain ⟨instruction, extracted, rfl⟩ :=
      Option.map_eq_some_iff.mp found
    have parts := Bool.and_eq_true_iff.mp accepted
    exact ⟨parts.1, (row.fits_iff bytes).mp parts.2, extracted, rfl, rfl⟩
  · rw [if_neg accepted] at found
    cases found

/-- A row that accepts a byte string decodes it, wherever it stands in the
table. -/
theorem decode_eq_of_decode? {row : Encoding}
    (member : row ∈ encodings) {bytes : List UInt8} {decoded : Decoded}
    (found : row.decode? bytes = some decoded) :
    decode bytes = decoded := by
  unfold decode decodeBy
  cases search : encodings.findSome? fun row => row.decode? bytes with
  | none =>
      rw [List.findSome?_eq_none_iff.mp search row member] at found
      cases found
  | some other =>
      obtain ⟨otherRow, otherMember, otherFound⟩ :=
        List.exists_of_findSome?_eq_some search
      have sameRow : otherRow = row :=
        eq_of_isMatch otherMember member
          (accepts_of_decode? otherFound).1 (accepts_of_decode? found).1
      subst sameRow
      exact Option.some.inj (otherFound.symm.trans found)

theorem exists_row_of_isRecognized (instruction : Instruction)
    (recognized : instruction.isRecognized = true)
    (rest : List UInt8) :
    ∃ row ∈ encodings,
      row.mnemonic = instruction.mnemonic ∧
      row.isMatch (instruction.encode ++ rest) = true ∧
      row.size = instruction.encode.length ∧
      row.cycles = instruction.cost ∧
      row.extract (instruction.encode ++ rest) =
        some instruction.masked := by
  cases instruction with
  | nop =>
      exact ⟨_, .head _, rfl, rfl, rfl, rfl, rfl⟩
  | moveImmediate destination immediate =>
      refine ⟨_, .tail _ (.head _), rfl, ?_, rfl, rfl, ?_⟩
      · simp [Instruction.encode, Encoding.isMatch, Encoding.passes,
          ByteTest.accepts, and_full]
      · obtain ⟨byte0, byte1, byte2, byte3, bytesEq, wordEq⟩ :=
          exists_wordBytes immediate
        simp [Instruction.encode, bytesEq, wordEq,
          Encoding.extractMoveImmediate, Instruction.masked]
  | moveRegister source destination =>
      refine ⟨_, .tail _ (.tail _ (.head _)), rfl, rfl, rfl, rfl, ?_⟩
      simp [Instruction.encode, Encoding.extractMoveRegister,
        Instruction.masked, packed_shiftRight, lowNibble_packed]
  | addImmediate destination immediate =>
      refine ⟨_, .tail _ (.tail _ (.tail _ (.head _))), rfl, ?_, rfl,
        rfl, ?_⟩
      · simp [Instruction.encode, Encoding.isMatch, Encoding.passes,
          ByteTest.accepts, and_full]
      · obtain ⟨byte0, byte1, byte2, byte3, bytesEq, wordEq⟩ :=
          exists_wordBytes immediate
        simp [Instruction.encode, bytesEq, wordEq,
          Encoding.extractAddImmediate, Instruction.masked]
  | unrecognized opcode => cases recognized

/-- An encoding is recognized whatever follows it. -/
theorem decode_encode_append (instruction : Instruction)
    (recognized : instruction.isRecognized = true)
    (rest : List UInt8) :
    (decode (instruction.encode ++ rest)).instruction =
        instruction.masked ∧
      (decode (instruction.encode ++ rest)).size =
        instruction.encode.length ∧
      (decode (instruction.encode ++ rest)).cycles =
        instruction.cost := by
  obtain ⟨row, member, _mnemonicEq, matched, sizeEq, cyclesEq,
      extracted⟩ :=
    exists_row_of_isRecognized instruction recognized rest
  have accepted :
      row.accepts (instruction.encode ++ rest) = true := by
    rw [Encoding.accepts, matched, Bool.true_and, row.fits_iff, sizeEq,
      List.length_append]
    exact Nat.le_add_right _ _
  have found :
      row.decode? (instruction.encode ++ rest) =
        some ⟨instruction.masked, row.size, row.cycles, row.size_pos,
          row.cycles_pos⟩ := by
    rw [Encoding.decode?, if_pos accepted, extracted]
    rfl
  rw [decode_eq_of_decode? member found]
  exact ⟨rfl, sizeEq, cyclesEq⟩

/-! ### Encoding what was decoded -/

structure Decoded.IsFrontOf (decoded : Decoded) (bytes : List UInt8) :
    Prop where
  recognized : decoded.instruction.isRecognized = true
  masked : decoded.instruction.masked = decoded.instruction
  front : ∃ rest, bytes = decoded.instruction.encode ++ rest
  size_eq : decoded.size = decoded.instruction.encode.length
  cycles_eq : decoded.cycles = decoded.instruction.cost

theorem exists_cons_of_lt_length {bytes : List UInt8} {count : Nat}
    (long : count < bytes.length) :
    ∃ first rest, bytes = first :: rest ∧ count ≤ rest.length := by
  cases bytes with
  | nil => cases long
  | cons first rest => exact ⟨first, rest, rfl, Nat.le_of_lt_succ long⟩

theorem exists_word_of_le_length {bytes : List UInt8}
    (long : 4 ≤ bytes.length) :
    ∃ byte0 byte1 byte2 byte3 rest,
      bytes = byte0 :: byte1 :: byte2 :: byte3 :: rest := by
  rcases exists_cons_of_lt_length long with ⟨byte0, rest, rfl, long3⟩
  rcases exists_cons_of_lt_length long3 with ⟨byte1, rest, rfl, long2⟩
  rcases exists_cons_of_lt_length long2 with ⟨byte2, rest, rfl, long1⟩
  rcases exists_cons_of_lt_length long1 with ⟨byte3, rest, rfl, _⟩
  exact ⟨byte0, byte1, byte2, byte3, rest, rfl⟩

theorem isFrontOf_of_decode? {row : Encoding} (member : row ∈ encodings)
    {bytes : List UInt8} {decoded : Decoded}
    (found : row.decode? bytes = some decoded) :
    decoded.IsFrontOf bytes := by
  rcases accepts_of_decode? found with
    ⟨matched, long, extracted, sizeEq, cyclesEq⟩
  rcases decoded with ⟨instruction, size, cycles, sizePos, cyclesPos⟩
  simp only [encodings, List.mem_cons, List.not_mem_nil, or_false]
    at member
  rcases member with rfl | rfl | rfl | rfl
  · rcases exists_cons_of_lt_length long with ⟨opcode, rest, rfl, _⟩
    have opcodeEq : opcode = 0x03 := by
      simpa [Encoding.isMatch, Encoding.passes, ByteTest.accepts,
        and_full] using matched
    cases extracted
    subst opcodeEq sizeEq cyclesEq
    exact ⟨rfl, rfl, ⟨rest, rfl⟩, rfl, rfl⟩
  · rcases exists_cons_of_lt_length long with ⟨opcode, rest, rfl, long6⟩
    rcases exists_cons_of_lt_length long6 with ⟨second, rest, rfl, long5⟩
    rcases exists_cons_of_lt_length long5 with ⟨field, rest, rfl, long4⟩
    rcases exists_word_of_le_length long4 with
      ⟨byte0, byte1, byte2, byte3, rest, rfl⟩
    have tests :
        opcode = 0xFB ∧ second = 0x12 ∧ field &&& 0xF0 = 0 := by
      simpa [Encoding.isMatch, Encoding.passes, ByteTest.accepts,
        and_full] using matched
    rcases tests with ⟨opcodeEq, secondEq, high⟩
    have fieldEq := high_or_lowNibble field
    rw [high, UInt8.zero_or] at fieldEq
    cases extracted
    subst opcodeEq secondEq sizeEq cyclesEq
    refine ⟨rfl, ?_, ⟨rest, ?_⟩, rfl, rfl⟩
    · simp [Instruction.masked]
    · simp [Instruction.encode, LittleEndian.wordBytes_word, fieldEq]
  · rcases exists_cons_of_lt_length long with ⟨opcode, rest, rfl, long1⟩
    rcases exists_cons_of_lt_length long1 with ⟨fields, rest, rfl, _⟩
    have opcodeEq : opcode = 0xCF := by
      simpa [Encoding.isMatch, Encoding.passes, ByteTest.accepts,
        and_full] using matched
    cases extracted
    subst opcodeEq sizeEq cyclesEq
    refine ⟨rfl, ?_, ⟨rest, ?_⟩, rfl, rfl⟩
    · simp [Instruction.masked, lowNibble_shiftRight]
    · simp [Instruction.encode, packed_halves]
  · rcases exists_cons_of_lt_length long with ⟨opcode, rest, rfl, long5⟩
    rcases exists_cons_of_lt_length long5 with ⟨field, rest, rfl, long4⟩
    rcases exists_word_of_le_length long4 with
      ⟨byte0, byte1, byte2, byte3, rest, rfl⟩
    have tests : opcode = 0x72 ∧ field &&& 0xF0 = 0x20 := by
      simpa [Encoding.isMatch, Encoding.passes, ByteTest.accepts,
        and_full] using matched
    rcases tests with ⟨opcodeEq, high⟩
    have fieldEq := high_or_lowNibble field
    rw [high] at fieldEq
    cases extracted
    subst opcodeEq sizeEq cyclesEq
    refine ⟨rfl, ?_, ⟨rest, ?_⟩, rfl, rfl⟩
    · simp [Instruction.masked]
    · simp [Instruction.encode, LittleEndian.wordBytes_word, fieldEq]

/-- A byte string is unrecognized, or starts with the encoding of what it is
decoded to. -/
theorem decode_cases (bytes : List UInt8) :
    decode bytes = Decoded.unrecognized bytes ∨
      (decode bytes).IsFrontOf bytes := by
  cases search : encodings.findSome? fun row => row.decode? bytes with
  | none =>
      left
      rw [decode, decodeBy, search]
      rfl
  | some decoded =>
      right
      obtain ⟨row, member, found⟩ :=
        List.exists_of_findSome?_eq_some search
      rw [decode_eq_of_decode? member found]
      exact isFrontOf_of_decode? member found

theorem encode_decode (bytes : List UInt8) (nonempty : bytes ≠ []) :
    (decode bytes).instruction.encode =
      bytes.take (decode bytes).size := by
  rcases decode_cases bytes with unrecognized | front
  · rw [unrecognized]
    cases bytes with
    | nil => contradiction
    | cons first rest => rfl
  · rcases front.front with ⟨rest, bytesEq⟩
    rw [front.size_eq]
    exact (List.take_left.symm.trans
      (congrArg (List.take _) bytesEq.symm))

theorem masked_decode (bytes : List UInt8) :
    (decode bytes).instruction.masked = (decode bytes).instruction := by
  rcases decode_cases bytes with unrecognized | front
  · rw [unrecognized]
    rfl
  · exact front.masked

theorem Instruction.encode_ne_nil (instruction : Instruction) :
    instruction.encode ≠ [] := by
  cases instruction <;> simp [encode]

theorem length_encode_le (instruction : Instruction) :
    instruction.encode.length ≤ longestEncoding := by
  cases instruction <;> simp [Instruction.encode, longestEncoding]

theorem Decoded.eq_of_fields {decoded other : Decoded}
    (instructionEq : decoded.instruction = other.instruction)
    (sizeEq : decoded.size = other.size)
    (cyclesEq : decoded.cycles = other.cycles) : decoded = other := by
  cases decoded
  cases other
  cases instructionEq
  cases sizeEq
  cases cyclesEq
  rfl

theorem decode_encode_congr {instruction : Instruction}
    (recognized : instruction.isRecognized = true)
    (rest other : List UInt8) :
    decode (instruction.encode ++ rest) =
      decode (instruction.encode ++ other) := by
  have left := decode_encode_append instruction recognized rest
  have right := decode_encode_append instruction recognized other
  exact Decoded.eq_of_fields (left.1.trans right.1.symm)
    (left.2.1.trans right.2.1.symm) (left.2.2.trans right.2.2.symm)

/-- A recognized instruction is the same whatever bytes are put behind. -/
theorem decode_append {bytes : List UInt8}
    (front : (decode bytes).IsFrontOf bytes) (rest : List UInt8) :
    decode (bytes ++ rest) = decode bytes := by
  rcases front.front with ⟨behind, bytesEq⟩
  have same := decode_encode_congr front.recognized (behind ++ rest) behind
  rw [← List.append_assoc, ← bytesEq] at same
  exact same

/-- Nothing past the longest encoding is looked at. -/
theorem decode_take (bytes : List UInt8) :
    decode (bytes.take longestEncoding) = decode bytes := by
  rcases decode_cases (bytes.take longestEncoding) with cut | front
  · rcases decode_cases bytes with unrecognized | front
    · rw [cut, unrecognized]
      cases bytes <;> rfl
    · rcases front.front with ⟨behind, bytesEq⟩
      have short := length_encode_le (decode bytes).instruction
      have takenEq : bytes.take longestEncoding =
          (decode bytes).instruction.encode ++ behind.take
            (longestEncoding - (decode bytes).instruction.encode.length) := by
        conv => lhs; rw [bytesEq]
        rw [List.take_append, List.take_of_length_le short]
      have same := decode_encode_congr front.recognized (behind.take
        (longestEncoding - (decode bytes).instruction.encode.length)) behind
      rw [← takenEq, ← bytesEq] at same
      exact same
  · have same := decode_append front (bytes.drop longestEncoding)
    rw [List.take_append_drop] at same
    exact same.symm

theorem cycles_decode_le (bytes : List UInt8) :
    (decode bytes).cycles ≤ 2 := by
  rcases decode_cases bytes with unrecognized | front
  · rw [unrecognized]
    exact Nat.le_succ 1
  · rw [front.cycles_eq]
    cases (decode bytes).instruction <;> simp [Instruction.cost]

theorem size_decode_le (bytes : List UInt8) :
    (decode bytes).size ≤ longestEncoding := by
  rcases decode_cases bytes with unrecognized | front
  · rw [unrecognized]
    exact Nat.le_add_left 1 6
  · rw [front.size_eq]
    exact length_encode_le _

theorem size_decode_mem (bytes : List UInt8) :
    (decode bytes).size ∈ [1, 2, 6, 7] := by
  rcases decode_cases bytes with unrecognized | front
  · rw [unrecognized]
    exact List.mem_cons_self
  · rw [front.size_eq]
    cases (decode bytes).instruction <;> simp [Instruction.encode]

theorem instruction_decode_of_not_recognized {bytes : List UInt8}
    (unrecognized : (decode bytes).instruction.isRecognized = false) :
    (decode bytes).instruction = .unrecognized (bytes.headD 0) := by
  rcases decode_cases bytes with byteEq | front
  · rw [byteEq]
    rfl
  · exact absurd front.recognized (Bool.eq_false_iff.mp unrecognized)

end RxBoard
