import RxBoard.Proofs.Text.Numeral
import RxBoard.Proofs.Text.Token

/-!
Hexadecimal text, read back from the columns in which it stands.

A word is printed with eight digits and a byte with two, so text that is laid
out in columns of fixed width can be read without looking for where its parts
end.  What was printed is what is read (`showsWord_hexWord`,
`showsBytes_padEnd`).
-/

namespace RxBoard.Text

/-- The characters of a line from one column to another, both included.  The
first column has the number zero. -/
def columns (first last : Nat) (line : Text) : Text :=
  (line.take (last + 1)).drop first

def readWord? (digits : Text) : Option UInt32 :=
  match readMagnitude 16 0xFFFFFFFF digits with
  | .ok number => some (UInt32.ofNat number)
  | .error _ => none

def readByte? (high low : Char) : Option UInt8 :=
  match digitValue? 16 high, digitValue? 16 low with
  | some highValue, some lowValue =>
      some (UInt8.ofNat (16 * highValue + lowValue))
  | _, _ => none

/-- The bytes that pairs of hexadecimal digits stand for, with spaces between
the pairs. -/
def readBytes? : Text → Option (List UInt8)
  | [] => some []
  | ' ' :: rest => readBytes? rest
  | [high, low] => (readByte? high low).map fun byte => [byte]
  | high :: low :: ' ' :: rest =>
      match readByte? high low with
      | some byte => (readBytes? rest).map (byte :: ·)
      | none => none
  | _ => none

def readLines? (first last : Nat) : List Text → Option (List UInt8)
  | [] => some []
  | line :: rest =>
      match readBytes? (columns first last line) with
      | some bytes => (readLines? first last rest).map (bytes ++ ·)
      | none => none

structure ShowsWord (text : Text) (word : UInt32) : Prop where
  length : text.length = 8
  capital : ∀ character ∈ text,
    character ∈ "0123456789ABCDEF".toList
  read : readWord? text = some word

/-- Whether text of some width is bytes as pairs of digits, with one space
between each two pairs and only spaces behind the last. -/
structure ShowsBytes (width : Nat) (text : Text) (bytes : List UInt8) :
    Prop where
  length : text.length = width
  read : readBytes? text = some bytes
  padded : text.drop (3 * bytes.length - 1) =
    List.replicate (width - (3 * bytes.length - 1)) ' '

theorem columns_append {front middle : Text} {first last : Nat}
    (starts : front.length = first)
    (ends : (front ++ middle).length = last + 1) (back : Text) :
    columns first last (front ++ middle ++ back) = middle := by
  rw [columns, List.take_left' ends, List.drop_left' starts]

theorem columns_zero_append {front : Text} {last : Nat}
    (ends : front.length = last + 1) (back : Text) :
    columns 0 last (front ++ back) = front :=
  List.take_left' ends

theorem readLines?_cons {first last : Nat} {line : Text}
    {bytes : List UInt8}
    (read : readBytes? (columns first last line) = some bytes)
    (rest : List Text) :
    readLines? first last (line :: rest) =
      (readLines? first last rest).map (bytes ++ ·) := by
  rw [readLines?, read]

theorem exists_hexDigits_hexadecimal {character : Char}
    {width number : Nat}
    (member : character ∈ hexadecimal width number) :
    ∃ digit < 16, character = hexDigit digit := by
  induction width generalizing number with
  | zero => cases member
  | succ width inductionHypothesis =>
      rw [hexadecimal, List.mem_append, List.mem_singleton] at member
      rcases member with front | last
      · exact inductionHypothesis front
      · exact ⟨number % 16, Nat.mod_lt number (by decide), last⟩

theorem isToken_hexadecimal (width number : Nat) :
    IsToken (hexadecimal (width + 1) number) := by
  have plain : ∀ digit < 16, isPlain (hexDigit digit) = true := by
    decide
  constructor
  · simp [hexadecimal]
  · intro character member
    rcases exists_hexDigits_hexadecimal member with ⟨digit, small, rfl⟩
    exact plain digit small

theorem upper_hexadecimal (width number : Nat) :
    upper (hexadecimal width number) = hexadecimal width number := by
  have capital : ∀ digit < 16,
      (hexDigit digit).toUpper = hexDigit digit := by
    decide
  refine (List.map_congr_left ?_).trans (List.map_id _)
  intro character member
  rcases exists_hexDigits_hexadecimal member with ⟨digit, small, rfl⟩
  exact capital digit small

theorem readWord?_hexWord (word : UInt32) :
    readWord? (hexWord word) = some word := by
  have small : word.toNat ≤ 0xFFFFFFFF := Nat.le_of_lt_succ word.toNat_lt
  have read : readMagnitude 16 0xFFFFFFFF (hexWord word) =
      .ok word.toNat :=
    (readMagnitude_eq_ok_iff (by decide) ..).mpr
      ⟨isNumeral_hexWord word, small⟩
  rw [readWord?, read]
  exact congrArg some UInt32.ofNat_toNat

theorem showsWord_hexWord (word : UInt32) :
    ShowsWord (hexWord word) word := by
  have capital : ∀ digit < 16,
      hexDigit digit ∈ "0123456789ABCDEF".toList := by
    decide
  constructor
  · exact length_hexadecimal 8 word.toNat
  · intro character member
    rcases exists_hexDigits_hexadecimal member with ⟨digit, small, rfl⟩
    exact capital digit small
  · exact readWord?_hexWord word

/-! ### Printed bytes -/

theorem readByte?_hexDigit {high low : Nat} (highSmall : high < 16)
    (lowSmall : low < 16) :
    readByte? (hexDigit high) (hexDigit low) =
      some (UInt8.ofNat (16 * high + low)) := by
  rw [readByte?, digitValue?_hexDigit highSmall,
    digitValue?_hexDigit lowSmall]

/-- A byte is printed as two digits that are no spaces and read as the byte. -/
theorem exists_hexByte (byte : UInt8) :
    ∃ high low, hexByte byte = [high, low] ∧ high ≠ ' ' ∧
      readByte? high low = some byte := by
  have noSpace : ∀ digit < 16, hexDigit digit ≠ ' ' := by decide
  have byteBound := byte.toNat_lt
  have highSmall := Nat.mod_lt (byte.toNat / 16) (show 0 < 16 by decide)
  have lowSmall := Nat.mod_lt byte.toNat (show 0 < 16 by decide)
  refine ⟨_, _, rfl, noSpace _ highSmall, ?_⟩
  have halves :
      16 * (byte.toNat / 16 % 16) + byte.toNat % 16 = byte.toNat := by
    omega
  rw [readByte?_hexDigit highSmall lowSmall, halves, UInt8.ofNat_toNat]

theorem readBytes?_replicate (count : Nat) :
    readBytes? (List.replicate count ' ') = some [] := by
  induction count with
  | zero => rfl
  | succ count inductionHypothesis => exact inductionHypothesis

theorem readBytes?_hexByte (byte : UInt8) :
    readBytes? (hexByte byte) = some [byte] := by
  obtain ⟨high, low, digitsEq, noSpace, read⟩ := exists_hexByte byte
  rw [digitsEq, readBytes?, read]
  · rfl
  · exact noSpace

theorem readBytes?_hexByte_append (byte : UInt8) (rest : Text) :
    readBytes? (hexByte byte ++ ' ' :: rest) =
      (readBytes? rest).map (byte :: ·) := by
  obtain ⟨high, low, digitsEq, noSpace, read⟩ := exists_hexByte byte
  rw [digitsEq, List.cons_append, List.cons_append, List.nil_append,
    readBytes?, read]
  exact noSpace

theorem hexBytes_cons_cons (first second : UInt8) (rest : List UInt8) :
    hexBytes (first :: second :: rest) =
      hexByte first ++ ' ' :: hexBytes (second :: rest) := by
  unfold hexBytes
  rw [List.map_cons, List.intercalate_cons_of_ne_nil (by simp),
    List.append_assoc, List.singleton_append]

theorem readBytes?_hexBytes_append (bytes : List UInt8) (count : Nat) :
    readBytes? (hexBytes bytes ++ List.replicate count ' ') =
      some bytes := by
  induction bytes with
  | nil => exact readBytes?_replicate count
  | cons first rest inductionHypothesis =>
      cases rest with
      | nil =>
          rw [hexBytes, List.map_singleton, List.intercalate_singleton]
          cases count with
          | zero =>
              rw [List.replicate_zero, List.append_nil, readBytes?_hexByte]
          | succ count =>
              rw [List.replicate_succ, readBytes?_hexByte_append,
                readBytes?_replicate]
              rfl
      | cons second more =>
          rw [hexBytes_cons_cons, List.append_assoc, List.cons_append,
            readBytes?_hexByte_append, inductionHypothesis]
          rfl

theorem length_hexBytes (bytes : List UInt8) :
    (hexBytes bytes).length = 3 * bytes.length - 1 := by
  induction bytes with
  | nil => rfl
  | cons first rest inductionHypothesis =>
      have two : (hexByte first).length = 2 :=
        length_hexadecimal 2 first.toNat
      cases rest with
      | nil =>
          rw [hexBytes, List.map_singleton, List.intercalate_singleton, two]
          rfl
      | cons second more =>
          rw [hexBytes_cons_cons, List.length_append, two,
            List.length_cons, inductionHypothesis]
          simp only [List.length_cons]
          omega

theorem length_padEnd {width : Nat} {text : Text}
    (fits : text.length ≤ width) : (padEnd width text).length = width := by
  rw [padEnd, List.length_append, List.length_replicate]
  exact Nat.add_sub_of_le fits

theorem showsBytes_padEnd {width : Nat} {bytes : List UInt8}
    (fits : 3 * bytes.length - 1 ≤ width) :
    ShowsBytes width (padEnd width (hexBytes bytes)) bytes := by
  have lengthEq := length_hexBytes bytes
  constructor
  · apply length_padEnd
    rw [lengthEq]
    exact fits
  · exact readBytes?_hexBytes_append bytes _
  · rw [padEnd, ← lengthEq, List.drop_left]

/-- A line with a word and a column of bytes: each part stands in the columns
after those of the text in front of it. -/
theorem columns_wordAndBytes (word : UInt32) {bytes : List UInt8}
    {width : Nat} (fits : 3 * bytes.length - 1 ≤ width)
    {gap : Text} (gapLength : gap.length = 2) (behind rest : Text) :
    let line := hexWord word ++ gap ++ padEnd width (hexBytes bytes) ++
      behind ++ rest
    ShowsWord (columns 0 7 line) word ∧
      columns 8 9 line = gap ∧
      ShowsBytes width (columns 10 (9 + width) line) bytes ∧
      columns (10 + width) (9 + width + behind.length) line = behind ∧
      line.drop (10 + width + behind.length) = rest := by
  intro line
  have shown := showsBytes_padEnd fits
  have toGap : (hexWord word).length = 8 :=
    length_hexadecimal 8 word.toNat
  have toBytes : (hexWord word ++ gap).length = 10 := by
    rw [List.length_append, toGap, gapLength]
  have toBehind : (hexWord word ++ gap ++
      padEnd width (hexBytes bytes)).length = 10 + width := by
    rw [List.length_append, toBytes, shown.length]
  have toRest : (hexWord word ++ gap ++ padEnd width (hexBytes bytes) ++
      behind).length = 10 + width + behind.length := by
    rw [List.length_append, toBehind]
  refine ⟨?_, ?_, ?_, ?_, List.drop_left' toRest⟩
  · have lineEq : line = hexWord word ++
        (gap ++ (padEnd width (hexBytes bytes) ++ (behind ++ rest))) := by
      simp only [line, List.append_assoc]
    rw [lineEq, columns_zero_append toGap]
    exact showsWord_hexWord word
  · have lineEq : line = hexWord word ++ gap ++
        (padEnd width (hexBytes bytes) ++ (behind ++ rest)) := by
      simp only [line, List.append_assoc]
    rw [lineEq, columns_append toGap toBytes]
  · have lineEq : line = hexWord word ++ gap ++
        padEnd width (hexBytes bytes) ++ (behind ++ rest) :=
      List.append_assoc ..
    have ends : (hexWord word ++ gap ++
        padEnd width (hexBytes bytes)).length = 9 + width + 1 := by
      omega
    rw [lineEq, columns_append toBytes ends]
    exact shown
  · refine columns_append toBehind ?_ rest
    omega

theorem isLine_hexadecimal (width number : Nat) :
    IsLine (hexadecimal (width + 1) number) :=
  (isToken_hexadecimal width number).isLine

theorem isLine_hexBytes (bytes : List UInt8) : IsLine (hexBytes bytes) := by
  induction bytes with
  | nil => decide
  | cons first rest inductionHypothesis =>
      have firstLine : IsLine (hexByte first) :=
        isLine_hexadecimal 1 first.toNat
      cases rest with
      | nil =>
          rw [hexBytes, List.map_singleton, List.intercalate_singleton]
          exact firstLine
      | cons second more =>
          rw [hexBytes_cons_cons]
          exact firstLine.append (isLine_space.append inductionHypothesis)

theorem IsLine.padEnd {text : Text} (isLine : IsLine text)
    (width : Nat) : IsLine (padEnd width text) := by
  refine isLine.append ⟨?_, ?_⟩
  · intro member
    exact absurd (List.eq_of_mem_replicate member) (by decide)
  · intro member
    exact absurd (List.eq_of_mem_replicate member) (by decide)

end RxBoard.Text
