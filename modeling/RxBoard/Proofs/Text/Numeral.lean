import Mathlib.Algebra.Order.Ring.Int
import RxBoard.Text.Numeral
import RxBoard.Text.Printed

/-!
What numerals stand for, and that the readers accept exactly the numerals
within their limits.
-/

namespace RxBoard.Text

/-- The number that digits stand for when they are written behind a number. -/
def appendDigits (radix read : Nat) (digits : List Nat) : Nat :=
  digits.foldl (fun number digit => number * radix + digit) read

def IsNumeral (radix : Nat) (text : Text) (number : Nat) : Prop :=
  ∃ digits : List Nat, digits ≠ [] ∧
    text.map (digitValue? radix) = digits.map some ∧
    number = appendDigits radix 0 digits

inductive IsUnsignedNumeral (radix : Nat) : Text → Nat → Prop where
  | plain {text : Text} {number : Nat} :
      IsNumeral radix text number →
      IsUnsignedNumeral radix text number
  | plus {text : Text} {number : Nat} :
      IsNumeral radix text number →
      IsUnsignedNumeral radix ('+' :: text) number

inductive IsSignedNumeral : Text → Int → Prop where
  | plain {text : Text} {number : Nat} :
      IsNumeral 10 text number → IsSignedNumeral text number
  | plus {text : Text} {number : Nat} :
      IsNumeral 10 text number → IsSignedNumeral ('+' :: text) number
  | minus {text : Text} {number : Nat} :
      IsNumeral 10 text number →
      IsSignedNumeral ('-' :: text) (-(number : Int))

theorem le_appendDigits {radix : Nat} (radixPos : 0 < radix)
    (read : Nat) (digits : List Nat) :
    read ≤ appendDigits radix read digits := by
  induction digits generalizing read with
  | nil => exact Nat.le_refl read
  | cons digit rest inductionHypothesis =>
      have grown : read ≤ read * radix := Nat.le_mul_of_pos_right _ radixPos
      have appended := inductionHypothesis (read * radix + digit)
      change read ≤ appendDigits radix (read * radix + digit) rest
      omega

theorem readDigits_eq_ok_iff {radix limit read : Nat}
    (radixPos : 0 < radix) (within : read ≤ limit) (text : Text)
    (number : Nat) :
    readDigits radix limit read text = .ok number ↔
      ∃ digits : List Nat,
        text.map (digitValue? radix) = digits.map some ∧
        number = appendDigits radix read digits ∧ number ≤ limit := by
  induction text generalizing read with
  | nil =>
      simp only [readDigits, List.map_nil]
      constructor
      · intro same
        cases same
        exact ⟨[], rfl, rfl, within⟩
      · intro facts
        rcases facts with ⟨digits, noDigits, numberEq, _⟩
        rw [List.map_eq_nil_iff.mp noDigits.symm] at numberEq
        rw [numberEq]
        rfl
  | cons character rest inductionHypothesis =>
      cases valueEq : digitValue? radix character with
      | none =>
          simp only [readDigits, valueEq, List.map_cons]
          constructor
          · intro impossible
            cases impossible
          · intro facts
            rcases facts with ⟨digits, digitsEq, _⟩
            cases digits <;> simp at digitsEq
      | some digit =>
          -- A digit that overflows is never made good by later digits.
          by_cases overflows : limit < read * radix + digit
          · simp only [readDigits, valueEq, if_pos overflows,
              List.map_cons]
            constructor
            · intro impossible
              cases impossible
            · intro facts
              rcases facts with ⟨digits, digitsEq, numberEq, small⟩
              cases digits with
              | nil => cases digitsEq
              | cons first later =>
                  simp only [List.map_cons, List.cons.injEq,
                    Option.some.injEq] at digitsEq
                  have appended :=
                    le_appendDigits radixPos (read * radix + digit) later
                  rw [digitsEq.1] at appended overflows
                  change number =
                    appendDigits radix (read * radix + first) later
                    at numberEq
                  omega
          · simp only [readDigits, valueEq, if_neg overflows,
              List.map_cons]
            rw [inductionHypothesis (Nat.le_of_not_lt overflows)]
            constructor
            · intro facts
              rcases facts with ⟨digits, digitsEq, numberEq, small⟩
              exact ⟨digit :: digits, by simp [digitsEq], numberEq, small⟩
            · intro facts
              rcases facts with ⟨digits, digitsEq, numberEq, small⟩
              cases digits with
              | nil => cases digitsEq
              | cons first later =>
                  simp only [List.map_cons, List.cons.injEq,
                    Option.some.injEq] at digitsEq
                  rw [digitsEq.1]
                  exact ⟨later, digitsEq.2, numberEq, small⟩

theorem readMagnitude_eq_ok_iff {radix : Nat} (radixPos : 0 < radix)
    (limit : Nat) (text : Text) (number : Nat) :
    readMagnitude radix limit text = .ok number ↔
      IsNumeral radix text number ∧ number ≤ limit := by
  cases text with
  | nil =>
      constructor
      · intro impossible
        cases impossible
      · intro facts
        rcases facts with ⟨⟨digits, nonempty, noDigits, _⟩, _⟩
        exact absurd (List.map_eq_nil_iff.mp noDigits.symm) nonempty
  | cons character rest =>
      change readDigits radix limit 0 (character :: rest) = _ ↔ _
      rw [readDigits_eq_ok_iff radixPos (Nat.zero_le limit)]
      constructor
      · intro facts
        rcases facts with ⟨digits, digitsEq, numberEq, small⟩
        refine ⟨⟨digits, ?_, digitsEq, numberEq⟩, small⟩
        rintro rfl
        cases digitsEq
      · intro facts
        rcases facts with ⟨⟨digits, _, digitsEq, numberEq⟩, small⟩
        exact ⟨digits, digitsEq, numberEq, small⟩

theorem digitValue?_plus (radix : Nat) :
    digitValue? radix '+' = none := by
  simp [digitValue?]

theorem digitValue?_minus (radix : Nat) :
    digitValue? radix '-' = none := by
  simp [digitValue?]

theorem not_isNumeral_cons {radix : Nat} {character : Char}
    (noDigit : digitValue? radix character = none) (rest : Text)
    (number : Nat) : ¬IsNumeral radix (character :: rest) number := by
  intro facts
  rcases facts with ⟨digits, _, digitsEq, _⟩
  cases digits <;> simp [noDigit] at digitsEq

theorem readUnsigned_of_unsigned {radix limit : Nat} {text : Text}
    (unsigned : ¬∃ digits, text = '+' :: digits) :
    readUnsigned radix limit text = readMagnitude radix limit text := by
  unfold readUnsigned
  split
  · exact absurd ⟨_, rfl⟩ unsigned
  · rfl

theorem readUnsigned_eq_ok_iff {radix : Nat} (radixPos : 0 < radix)
    (limit : Nat) (text : Text) (number : Nat) :
    readUnsigned radix limit text = .ok number ↔
      IsUnsignedNumeral radix text number ∧ number ≤ limit := by
  by_cases signed : ∃ digits, text = '+' :: digits
  · rcases signed with ⟨digits, rfl⟩
    rw [readUnsigned, readMagnitude_eq_ok_iff radixPos]
    constructor
    · intro facts
      rcases facts with ⟨numeral, small⟩
      exact ⟨.plus numeral, small⟩
    · intro facts
      rcases facts with ⟨numeral, small⟩
      cases numeral with
      | plain numeral =>
          exact (not_isNumeral_cons (digitValue?_plus radix) _ _
            numeral).elim
      | plus numeral => exact ⟨numeral, small⟩
  · rw [readUnsigned_of_unsigned signed, readMagnitude_eq_ok_iff radixPos]
    constructor
    · intro facts
      rcases facts with ⟨numeral, small⟩
      exact ⟨.plain numeral, small⟩
    · intro facts
      rcases facts with ⟨numeral, small⟩
      cases numeral with
      | plain numeral => exact ⟨numeral, small⟩
      | plus numeral => exact absurd ⟨_, rfl⟩ signed

theorem map_eq_ok_iff {α β : Type} {fault : Type} (change : α → β)
    (result : Except fault α) (value : β) :
    result.map change = .ok value ↔
      ∃ source, result = .ok source ∧ value = change source := by
  cases result with
  | error fault => simp [Except.map]
  | ok source =>
      simp only [Except.map, Except.ok.injEq]
      constructor
      · rintro rfl
        exact ⟨source, rfl, rfl⟩
      · intro facts
        rcases facts with ⟨other, rfl, rfl⟩
        rfl

theorem map_eq_error_iff {α β : Type} {fault : Type} (change : α → β)
    (result : Except fault α) (cause : fault) :
    result.map change = .error cause ↔ result = .error cause := by
  cases result <;> simp [Except.map]

theorem readSigned_minus (largest : Nat) (digits : Text) :
    readSigned largest ('-' :: digits) =
      Except.map (fun number : Nat => -(number : Int))
        (readMagnitude 10 (largest + 1) digits) := by
  rw [readSigned]
  cases readMagnitude 10 (largest + 1) digits <;> rfl

theorem readSigned_of_unsigned {largest : Nat} {text : Text}
    (notNegative : ¬∃ digits, text = '-' :: digits)
    (notPositive : ¬∃ digits, text = '+' :: digits) :
    readSigned largest text =
      (readMagnitude 10 largest text).map Int.ofNat := by
  unfold readSigned
  split
  · exact absurd ⟨_, rfl⟩ notNegative
  · exact absurd ⟨_, rfl⟩ notPositive
  · rfl

theorem readSigned_eq_ok_iff (largest : Nat) (text : Text)
    (value : Int) :
    readSigned largest text = .ok value ↔
      IsSignedNumeral text value ∧
        -((largest : Int) + 1) ≤ value ∧ value ≤ largest := by
  have decimal : 0 < 10 := by decide
  by_cases negative : ∃ digits, text = '-' :: digits
  · rcases negative with ⟨digits, rfl⟩
    rw [readSigned_minus, map_eq_ok_iff]
    simp only [readMagnitude_eq_ok_iff decimal]
    constructor
    · intro facts
      rcases facts with ⟨number, ⟨numeral, small⟩, rfl⟩
      exact ⟨.minus numeral, by omega, by omega⟩
    · intro facts
      rcases facts with ⟨numeral, low, _⟩
      cases numeral with
      | plain numeral =>
          exact (not_isNumeral_cons (digitValue?_minus 10) _ _
            numeral).elim
      | minus numeral => exact ⟨_, ⟨numeral, by omega⟩, rfl⟩
  · by_cases positive : ∃ digits, text = '+' :: digits
    · rcases positive with ⟨digits, rfl⟩
      rw [readSigned, map_eq_ok_iff]
      simp only [readMagnitude_eq_ok_iff decimal]
      constructor
      · intro facts
        rcases facts with ⟨number, ⟨numeral, small⟩, rfl⟩
        exact ⟨.plus numeral, by simp; omega, by simpa using small⟩
      · intro facts
        rcases facts with ⟨numeral, _, high⟩
        cases numeral with
        | plain numeral =>
            exact (not_isNumeral_cons (digitValue?_plus 10) _ _
              numeral).elim
        | plus numeral =>
            exact ⟨_, ⟨numeral, by omega⟩, rfl⟩
    · rw [readSigned_of_unsigned negative positive, map_eq_ok_iff]
      simp only [readMagnitude_eq_ok_iff decimal]
      constructor
      · intro facts
        rcases facts with ⟨number, ⟨numeral, small⟩, rfl⟩
        exact ⟨.plain numeral, by simp; omega, by simpa using small⟩
      · intro facts
        rcases facts with ⟨numeral, _, high⟩
        cases numeral with
        | plain numeral => exact ⟨_, ⟨numeral, by omega⟩, rfl⟩
        | plus numeral => exact absurd ⟨_, rfl⟩ positive
        | minus numeral => exact absurd ⟨_, rfl⟩ negative

theorem digitValue?_hexDigit {number : Nat} (small : number < 16) :
    digitValue? 16 (hexDigit number) = some number := by
  have checked :
      ∀ digit : Fin 16, digitValue? 16 (hexDigit digit) = some digit.val := by
    decide
  exact checked ⟨number, small⟩

theorem appendDigits_append (radix read : Nat)
    (first second : List Nat) :
    appendDigits radix read (first ++ second) =
      appendDigits radix (appendDigits radix read first) second :=
  List.foldl_append

/-- The printed digits of a number that has no more of them stand for it. -/
theorem exists_digits_hexadecimal (width number : Nat)
    (small : number < 16 ^ width) :
    ∃ digits : List Nat, digits.length = width ∧
      (hexadecimal width number).map (digitValue? 16) =
        digits.map some ∧
      number = appendDigits 16 0 digits := by
  induction width generalizing number with
  | zero =>
      refine ⟨[], rfl, rfl, ?_⟩
      change number = 0
      omega
  | succ width inductionHypothesis =>
      have quotientSmall : number / 16 < 16 ^ width := by
        rw [Nat.div_lt_iff_lt_mul (by decide), ← Nat.pow_succ]
        exact small
      obtain ⟨digits, lengthEq, digitsEq, quotientEq⟩ :=
        inductionHypothesis (number / 16) quotientSmall
      refine ⟨digits ++ [number % 16], by simp [lengthEq], ?_, ?_⟩
      · have last := Nat.mod_lt number (show 0 < 16 by decide)
        simp [hexadecimal, digitsEq, digitValue?_hexDigit last]
      · rw [appendDigits_append, ← quotientEq]
        exact (Nat.div_add_mod' number 16).symm

theorem isNumeral_hexWord (word : UInt32) :
    IsNumeral 16 (hexWord word) word.toNat := by
  obtain ⟨digits, lengthEq, digitsEq, numberEq⟩ :=
    exists_digits_hexadecimal 8 word.toNat word.toNat_lt
  refine ⟨digits, ?_, digitsEq, numberEq⟩
  rintro rfl
  cases lengthEq

end RxBoard.Text
