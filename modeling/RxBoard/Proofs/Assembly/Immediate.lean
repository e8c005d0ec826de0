import Mathlib.Data.Int.ModEq
import RxBoard.Proofs.Assembly.Denotation
import RxBoard.Proofs.Text.Overflow

/-!
The immediates, and the two ways in which a token is none.

A token can be out of range or no numeral at all.  As digits are read from left
to right and no further than the limit, a token is also out of range if it only
starts with a numeral that is too large to be read (`IsOutOfRange`).
-/

namespace RxBoard

open Text (IsSignedNumeral IsUnsignedNumeral)

/-- The numerals of a word, in capitals: a hexadecimal one after `0X`, or a
decimal one of a number that is the word up to a multiple of `2 ^ 32`, from the
least number in two's complement to the largest without a sign. -/
def IsWordNumeral (numeral : Text) (word : UInt32) : Prop :=
  (∃ digits, numeral = '0' :: 'X' :: digits ∧
    IsUnsignedNumeral 16 digits word.toNat) ∨
  ∃ number : Int, IsSignedNumeral numeral number ∧
    -2 ^ 31 ≤ number ∧ number ≤ 2 ^ 32 - 1 ∧
    number ≡ word.toNat [ZMOD 2 ^ 32]

/-- The numerals, in capitals, that are found to be too large or too small.  A
hexadecimal one is so from the digit on that passes the largest word, and a
decimal one from the digit on that passes the 64-bit numbers, whatever follows.
Within these a decimal one is read to its end. -/
inductive IsOutOfRange : Text → Prop where
  | hexadecimal {front rest : Text} {number : Nat}
      (numeral : IsUnsignedNumeral 16 front number)
      (past : 2 ^ 32 - 1 < number) :
      IsOutOfRange ('0' :: 'X' :: (front ++ rest))
  | decimal {text : Text} {number : Int}
      (numeral : IsSignedNumeral text number)
      (past : number < -2 ^ 31 ∨ 2 ^ 32 - 1 < number) :
      IsOutOfRange text
  | decimalStart {front rest : Text} {number : Int}
      (numeral : IsSignedNumeral front number)
      (past : number < -2 ^ 63 ∨ 2 ^ 63 - 1 < number) :
      IsOutOfRange (front ++ rest)

theorem ofInt_eq_iff (number : Int) (word : UInt32) :
    UInt32.ofInt number = word ↔ number ≡ word.toNat [ZMOD 2 ^ 32] := by
  have wordLt := word.toNat_lt
  have nonnegative := Int.emod_nonneg number (show (2 ^ 32 : Int) ≠ 0 by decide)
  have small := Int.emod_lt_of_pos number (show (0 : Int) < 2 ^ 32 by decide)
  rw [UInt32.ofInt, ← UInt32.toNat_inj,
    UInt32.toNat_ofNat_of_lt' (by rw [UInt32.size]; omega), Int.ModEq,
    Int.emod_eq_of_lt (Int.natCast_nonneg _) (by omega)]
  omega

theorem denotesWord_iff (text : Text) (word : UInt32) :
    DenotesWord text word ↔ IsWordNumeral text word := by
  constructor
  · intro denotes
    cases denotes with
    | hexadecimal numeral small =>
        rw [← UInt32.toNat_ofNat_of_lt' small] at numeral
        exact .inl ⟨_, rfl, numeral⟩
    | decimal numeral low high =>
        exact .inr ⟨_, numeral, low, by omega, (ofInt_eq_iff _ _).mp rfl⟩
  · rintro (⟨digits, rfl, numeral⟩ | ⟨number, numeral, low, high, congruent⟩)
    · rw [← UInt32.ofNat_toNat (x := word)]
      exact .hexadecimal numeral word.toNat_lt
    · rw [← (ofInt_eq_iff number word).mpr congruent]
      exact .decimal numeral low (by omega)

/-- The only decimal numeral in front of a hexadecimal one is its zero. -/
theorem eq_zero_of_isSignedNumeral_prefix {front rest digits : Text}
    {number : Int} (numeral : IsSignedNumeral front number)
    (textEq : front ++ rest = '0' :: 'X' :: digits) : number = 0 := by
  rcases front with _ | ⟨first, _ | ⟨second, later⟩⟩
  · cases numeral with
    | plain numeral => exact (Text.not_isNumeral_nil _ _ numeral).elim
  · obtain ⟨rfl, _⟩ := List.cons.inj textEq
    cases numeral with
    | plain numeral =>
        rcases numeral with ⟨values, _, valuesEq, rfl⟩
        have zero : Text.digitValue? 10 '0' = some 0 := by decide
        rcases values with _ | ⟨value, _ | ⟨next, others⟩⟩ <;>
          simp [zero] at valuesEq
        rw [← valuesEq]
        rfl
  · simp only [List.cons_append, List.cons.injEq] at textEq
    rw [textEq.1, textEq.2.1] at numeral
    exact (not_isSignedNumeral_hexadecimal _ _ numeral).elim

theorem isOutOfRange_hexadecimal_iff (digits : Text) :
    IsOutOfRange ('0' :: 'X' :: digits) ↔
      ∃ (front rest : Text) (number : Nat),
        digits = front ++ rest ∧ IsUnsignedNumeral 16 front number ∧
          largestWord < number := by
  constructor
  · intro outside
    generalize textEq : '0' :: 'X' :: digits = text at outside
    cases outside with
    | hexadecimal numeral past =>
        cases textEq
        exact ⟨_, _, _, rfl, numeral, past⟩
    | decimal numeral past =>
        rw [← textEq] at numeral
        exact (not_isSignedNumeral_hexadecimal _ _ numeral).elim
    | decimalStart numeral past =>
        have zero := eq_zero_of_isSignedNumeral_prefix numeral textEq.symm
        omega
  · intro facts
    rcases facts with ⟨front, rest, number, rfl, numeral, past⟩
    exact .hexadecimal numeral past

theorem isOutOfRange_decimal_iff {text : Text}
    (unprefixed : ¬∃ digits, text = '0' :: 'X' :: digits) :
    IsOutOfRange text ↔
      Text.readSigned largestDecimal text = .error .overflow ∨
      ∃ number, Text.readSigned largestDecimal text = .ok number ∧
        ¬(-2 ^ 31 ≤ number ∧ number < 2 ^ 32) := by
  rw [Text.readSigned_eq_overflow_iff]
  simp only [Text.readSigned_eq_ok_iff, largestDecimal]
  constructor
  · intro outside
    cases outside with
    | hexadecimal numeral past => exact absurd ⟨_, rfl⟩ unprefixed
    | @decimal _ number numeral past =>
        by_cases readable : -2 ^ 63 ≤ number ∧ number ≤ 2 ^ 63 - 1
        · exact .inr ⟨number, ⟨numeral, by omega, by omega⟩, by omega⟩
        · exact .inl ⟨text, [], number, by simp, numeral, by omega⟩
    | decimalStart numeral past =>
        exact .inl ⟨_, _, _, rfl, numeral, by omega⟩
  · rintro (⟨front, rest, number, rfl, numeral, past⟩ |
      ⟨number, ⟨numeral, _⟩, past⟩)
    · exact .decimalStart numeral (by omega)
    · exact .decimal numeral (by omega)

theorem readImmediate_eq_overflow_iff (text : Text) :
    readImmediate text = .error .overflow ↔ IsOutOfRange text := by
  by_cases prefixed : ∃ digits, text = '0' :: 'X' :: digits
  · rcases prefixed with ⟨digits, rfl⟩
    rw [readImmediate, Text.map_eq_error_iff,
      Text.readUnsigned_eq_overflow_iff, isOutOfRange_hexadecimal_iff]
  · rw [readImmediate_of_not_prefixed prefixed,
      isOutOfRange_decimal_iff prefixed]
    cases Text.readSigned largestDecimal text with
    | error fault => simp
    | ok number => simp

-- A letter behind a numeral that is too large is not seen, one behind the
-- largest that fits is.
example :
    readImmediate "0X100000000Z".toList = .error .overflow ∧
      readImmediate "0XFFFFFFFFZ".toList = .error .malformed :=
  ⟨rfl, rfl⟩

/-- A token is an immediate if it is a numeral of a word.  If it is not, its
error carries the token and says whether it is out of range. -/
theorem parseImmediate_iff_numeral (token : Text) :
    (∀ word : UInt32, parseImmediate token = .ok word ↔
      IsWordNumeral (Text.upper (withoutNumberSign token)) word) ∧
    ∀ cause : SourceError, parseImmediate token = .error cause ↔
      cause = .immediateOutOfRange token ∧
        IsOutOfRange (Text.upper (withoutNumberSign token)) ∨
      cause = .invalidImmediate token ∧
        ¬IsOutOfRange (Text.upper (withoutNumberSign token)) ∧
        ∀ word, ¬IsWordNumeral (Text.upper (withoutNumberSign token)) word := by
  have accepted (word : UInt32) :=
    (OperandKind.parseImmediate_eq_ok_iff token word).trans
      (denotesWord_iff _ word)
  refine ⟨accepted, fun cause => ?_⟩
  simp only [← accepted, ← readImmediate_eq_overflow_iff]
  unfold parseImmediate
  cases readImmediate (Text.upper (withoutNumberSign token)) with
  | ok word => simp
  | error fault => cases fault <;> simp [eq_comm]

end RxBoard
