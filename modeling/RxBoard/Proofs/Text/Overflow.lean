import RxBoard.Proofs.Text.Numeral

/-!
When a reader of numerals says that its limit is passed.

A reader that has passed its limit looks no further, so what counts is not the
whole text but that it starts with a numeral past the limit.
-/

namespace RxBoard.Text

/-- Digits that take a number past a limit it is within are not none. -/
theorem exists_first_digit_of_limit_lt {radix limit read : Nat}
    (within : read ≤ limit) {front : Text} {digits : List Nat}
    (digitsEq : front.map (digitValue? radix) = digits.map some)
    (past : limit < appendDigits radix read digits) :
    ∃ (character : Char) (later : Text) (digit : Nat) (rest : List Nat),
      front = character :: later ∧
      digitValue? radix character = some digit ∧
      later.map (digitValue? radix) = rest.map some ∧
      limit < appendDigits radix (read * radix + digit) rest := by
  cases digits with
  | nil =>
      change limit < read at past
      omega
  | cons digit rest =>
      obtain ⟨character, later, frontEq, valueEq, laterEq⟩ :=
        List.map_eq_cons_iff.mp digitsEq
      exact ⟨character, later, digit, rest, frontEq, valueEq, laterEq, past⟩

theorem readDigits_eq_overflow_iff {radix limit read : Nat}
    (within : read ≤ limit) (text : Text) :
    readDigits radix limit read text = .error .overflow ↔
      ∃ (front rest : Text) (digits : List Nat),
        text = front ++ rest ∧
        front.map (digitValue? radix) = digits.map some ∧
        limit < appendDigits radix read digits := by
  induction text generalizing read with
  | nil =>
      constructor
      · intro impossible
        cases impossible
      · intro facts
        rcases facts with ⟨front, rest, digits, textEq, digitsEq, past⟩
        obtain ⟨_, _, _, _, rfl, _⟩ :=
          exists_first_digit_of_limit_lt within digitsEq past
        cases textEq
  | cons character tail inductionHypothesis =>
      cases valueEq : digitValue? radix character with
      | none =>
          simp only [readDigits, valueEq]
          constructor
          · intro impossible
            cases impossible
          · intro facts
            rcases facts with ⟨front, rest, digits, textEq, digitsEq, past⟩
            obtain ⟨_, _, _, _, rfl, firstEq, _⟩ :=
              exists_first_digit_of_limit_lt within digitsEq past
            cases textEq
            rw [valueEq] at firstEq
            cases firstEq
      | some digit =>
          by_cases overflows : limit < read * radix + digit
          · simp only [readDigits, valueEq, if_pos overflows, true_iff]
            exact ⟨[character], tail, [digit], rfl, by simp [valueEq],
              overflows⟩
          · simp only [readDigits, valueEq, if_neg overflows]
            rw [inductionHypothesis (Nat.le_of_not_lt overflows)]
            constructor
            · intro facts
              rcases facts with ⟨front, rest, digits, rfl, digitsEq, past⟩
              exact ⟨character :: front, rest, digit :: digits, rfl,
                by simp [valueEq, digitsEq], past⟩
            · intro facts
              rcases facts with
                ⟨front, rest, digits, textEq, digitsEq, past⟩
              obtain ⟨_, later, _, others, rfl, firstEq, laterEq,
                laterPast⟩ :=
                exists_first_digit_of_limit_lt within digitsEq past
              cases textEq
              obtain rfl := Option.some.inj (valueEq.symm.trans firstEq)
              exact ⟨later, rest, others, rfl, laterEq, laterPast⟩

theorem readMagnitude_eq_overflow_iff (radix limit : Nat) (text : Text) :
    readMagnitude radix limit text = .error .overflow ↔
      ∃ (front rest : Text) (number : Nat),
        text = front ++ rest ∧ IsNumeral radix front number ∧
          limit < number := by
  have readEq :
      readMagnitude radix limit text = .error .overflow ↔
        readDigits radix limit 0 text = .error .overflow := by
    cases text with
    | nil => simp [readMagnitude, readDigits]
    | cons character rest => rfl
  rw [readEq, readDigits_eq_overflow_iff (Nat.zero_le limit)]
  constructor
  · intro facts
    rcases facts with ⟨front, rest, digits, textEq, digitsEq, past⟩
    refine ⟨front, rest, _, textEq, ⟨digits, ?_, digitsEq, rfl⟩, past⟩
    rintro rfl
    exact Nat.not_lt_zero limit past
  · intro facts
    rcases facts with
      ⟨front, rest, number, textEq, ⟨digits, _, digitsEq, rfl⟩, past⟩
    exact ⟨front, rest, digits, textEq, digitsEq, past⟩

theorem not_isNumeral_nil (radix number : Nat) :
    ¬IsNumeral radix [] number := by
  intro facts
  rcases facts with ⟨digits, nonempty, noDigits, _⟩
  exact nonempty (List.map_eq_nil_iff.mp noDigits.symm)

/-- A text that starts with no digit does not start with a numeral. -/
theorem not_isNumeral_of_append_eq_cons {radix : Nat} {character : Char}
    (noDigit : digitValue? radix character = none)
    {front rest digits : Text} (textEq : character :: digits = front ++ rest)
    (number : Nat) : ¬IsNumeral radix front number := by
  cases front with
  | nil => exact not_isNumeral_nil radix number
  | cons first later =>
      obtain ⟨rfl, _⟩ := List.cons.inj textEq
      exact not_isNumeral_cons noDigit later number

theorem readUnsigned_eq_overflow_iff (radix limit : Nat) (text : Text) :
    readUnsigned radix limit text = .error .overflow ↔
      ∃ (front rest : Text) (number : Nat),
        text = front ++ rest ∧ IsUnsignedNumeral radix front number ∧
          limit < number := by
  by_cases signed : ∃ digits, text = '+' :: digits
  · rcases signed with ⟨digits, rfl⟩
    rw [readUnsigned, readMagnitude_eq_overflow_iff]
    constructor
    · intro facts
      rcases facts with ⟨front, rest, number, rfl, numeral, past⟩
      exact ⟨'+' :: front, rest, number, rfl, .plus numeral, past⟩
    · intro facts
      rcases facts with ⟨front, rest, number, textEq, numeral, past⟩
      cases numeral with
      | plain numeral =>
          exact (not_isNumeral_of_append_eq_cons (digitValue?_plus radix)
            textEq number numeral).elim
      | plus numeral =>
          exact ⟨_, rest, number, (List.cons.inj textEq).2, numeral, past⟩
  · rw [readUnsigned_of_unsigned signed, readMagnitude_eq_overflow_iff]
    constructor
    · intro facts
      rcases facts with ⟨front, rest, number, textEq, numeral, past⟩
      exact ⟨front, rest, number, textEq, .plain numeral, past⟩
    · intro facts
      rcases facts with ⟨front, rest, number, textEq, numeral, past⟩
      cases numeral with
      | plain numeral =>
          exact ⟨front, rest, number, textEq, numeral, past⟩
      | plus numeral => exact absurd ⟨_, textEq⟩ signed

theorem readSigned_eq_overflow_iff (largest : Nat) (text : Text) :
    readSigned largest text = .error .overflow ↔
      ∃ (front rest : Text) (value : Int),
        text = front ++ rest ∧ IsSignedNumeral front value ∧
          (value < -((largest : Int) + 1) ∨ largest < value) := by
  by_cases negative : ∃ digits, text = '-' :: digits
  · rcases negative with ⟨digits, rfl⟩
    rw [readSigned_minus, map_eq_error_iff, readMagnitude_eq_overflow_iff]
    constructor
    · intro facts
      rcases facts with ⟨front, rest, number, rfl, numeral, past⟩
      exact ⟨'-' :: front, rest, _, rfl, .minus numeral, .inl (by omega)⟩
    · intro facts
      rcases facts with ⟨front, rest, value, textEq, numeral, past⟩
      cases numeral with
      | plain numeral =>
          exact (not_isNumeral_of_append_eq_cons (digitValue?_minus 10)
            textEq _ numeral).elim
      | plus numeral => simp at textEq
      | minus numeral =>
          exact ⟨_, rest, _, (List.cons.inj textEq).2, numeral, by omega⟩
  · by_cases positive : ∃ digits, text = '+' :: digits
    · rcases positive with ⟨digits, rfl⟩
      rw [readSigned, map_eq_error_iff, readMagnitude_eq_overflow_iff]
      constructor
      · intro facts
        rcases facts with ⟨front, rest, number, rfl, numeral, past⟩
        exact ⟨'+' :: front, rest, number, rfl, .plus numeral,
          .inr (by omega)⟩
      · intro facts
        rcases facts with ⟨front, rest, value, textEq, numeral, past⟩
        cases numeral with
        | plain numeral =>
            exact (not_isNumeral_of_append_eq_cons (digitValue?_plus 10)
              textEq _ numeral).elim
        | plus numeral =>
            exact ⟨_, rest, _, (List.cons.inj textEq).2, numeral, by omega⟩
        | minus numeral => simp at textEq
    · rw [readSigned_of_unsigned negative positive, map_eq_error_iff,
        readMagnitude_eq_overflow_iff]
      constructor
      · intro facts
        rcases facts with ⟨front, rest, number, textEq, numeral, past⟩
        exact ⟨front, rest, number, textEq, .plain numeral,
          .inr (by omega)⟩
      · intro facts
        rcases facts with ⟨front, rest, value, textEq, numeral, past⟩
        cases numeral with
        | plain numeral =>
            exact ⟨front, rest, _, textEq, numeral, by omega⟩
        | plus numeral => exact absurd ⟨_, textEq⟩ positive
        | minus numeral => exact absurd ⟨_, textEq⟩ negative

end RxBoard.Text
