import Mathlib
import RxBoard.Text.Numeral

/-!
Text in capitals.

Only the letters `a` to `z` have another capital, and neither they nor their
capitals are white space or punctuation.  So what is told from such characters
is the same in capitals; and digits have the value of their capitals.
-/

namespace RxBoard.Text

theorem toUpper_cases (character : Char) :
    (97 ≤ character.toNat ∧ character.toNat ≤ 122 ∧
      character.toUpper.toNat + 32 = character.toNat) ∨
    (¬(97 ≤ character.toNat ∧ character.toNat ≤ 122) ∧
      character.toUpper = character) := by
  have isLower_iff : character.isLower = true ↔
      97 ≤ character.toNat ∧ character.toNat ≤ 122 := by
    simp [Char.isLower, UInt32.le_iff_toNat_le]
  by_cases small : character.isLower = true
  · have bounds := isLower_iff.mp small
    have valid : (character.toNat - 32).isValidChar := Or.inl (by omega)
    left
    rw [Char.toUpper_eq_of_isLower small, Char.toNat_ofNat, if_pos valid]
    omega
  · right
    exact ⟨fun bounds => small (isLower_iff.mpr bounds),
      Char.toUpper_eq_of_not_isLower small⟩

def IsNoLetter (character : Char) : Prop :=
  character.toNat < 65 ∨ 90 < character.toNat ∧ character.toNat < 97 ∨
    122 < character.toNat

instance (character : Char) : Decidable (IsNoLetter character) :=
  inferInstanceAs (Decidable (_ ∨ _))

theorem toUpper_eq_iff {special : Char} (noLetter : IsNoLetter special)
    (character : Char) :
    character.toUpper = special ↔ character = special := by
  unfold IsNoLetter at noLetter
  rcases toUpper_cases character with ⟨low, high, upperEq⟩ | ⟨_, upperEq⟩
  · constructor
    · rintro rfl
      omega
    · rintro rfl
      omega
  · rw [upperEq]

theorem isWhiteSpace_eq_false {character : Char}
    (low : 33 ≤ character.toNat) (high : character.toNat ≤ 126) :
    isWhiteSpace character = false := by
  simp only [isWhiteSpace, Bool.or_eq_false_iff, Bool.and_eq_false_iff,
    decide_eq_false_iff_not, beq_eq_false_iff_ne]
  omega

@[simp] theorem isWhiteSpace_toUpper (character : Char) :
    isWhiteSpace character.toUpper = isWhiteSpace character := by
  rcases toUpper_cases character with ⟨low, high, upperEq⟩ | ⟨_, upperEq⟩
  · rw [isWhiteSpace_eq_false (by omega) (by omega),
      isWhiteSpace_eq_false (by omega) (by omega)]
  · rw [upperEq]

@[simp] theorem digitValue?_toUpper (radix : Nat) (character : Char) :
    digitValue? radix character.toUpper = digitValue? radix character := by
  rcases toUpper_cases character with ⟨low, high, upperEq⟩ | ⟨_, upperEq⟩
  · have codeEq : character.toUpper.toNat = character.toNat - 32 := by
      omega
    simp only [digitValue?, codeEq, Char.reduceToNat]
    grind
  · rw [upperEq]

@[simp] theorem upper_nil : upper [] = [] := rfl

@[simp] theorem upper_cons (first : Char) (rest : Text) :
    upper (first :: rest) = first.toUpper :: upper rest := rfl

theorem upper_trimStart (text : Text) :
    upper (trimStart text) = trimStart (upper text) := by
  have sameTest : isWhiteSpace ∘ Char.toUpper = isWhiteSpace :=
    funext isWhiteSpace_toUpper
  rw [upper, upper, trimStart, trimStart, List.dropWhile_map, sameTest]

theorem upper_trim (text : Text) :
    upper (trim text) = trim (upper text) := by
  have trimEndEq (front : Text) :
      trimEnd front = (trimStart front.reverse).reverse := rfl
  have upperReverse (front : Text) :
      upper front.reverse = (upper front).reverse := List.map_reverse
  rw [trim, trim, trimEndEq, trimEndEq, upperReverse, upper_trimStart,
    upperReverse, upper_trimStart]

/-- A text is cut off at the same place in capitals, unless at a letter. -/
theorem upper_takeWhile_ne {special : Char}
    (noLetter : IsNoLetter special) (text : Text) :
    upper (text.takeWhile (· != special)) =
      (upper text).takeWhile (· != special) := by
  have sameTest :
      (fun character : Char => character != special) ∘ Char.toUpper =
        fun character => character != special := by
    funext character
    rw [Bool.eq_iff_iff, Function.comp_apply, bne_iff_ne, bne_iff_ne]
    exact not_congr (toUpper_eq_iff noLetter character)
  rw [upper, upper, List.takeWhile_map, sameTest]

end RxBoard.Text
