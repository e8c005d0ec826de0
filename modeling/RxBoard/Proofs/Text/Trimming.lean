import Mathlib.Data.List.TakeWhile
import RxBoard.Proofs.Text.Lines

/-!
Trimmed text.

Blanks at either end of a text leave no trace once it is trimmed, and it makes
no difference whether a text is trimmed before it is cut off at some character
or after.
-/

namespace RxBoard.Text

def IsBlank (text : Text) : Prop :=
  ∀ character ∈ text, isWhiteSpace character = true

variable {blanks : Text}

theorem IsBlank.takeWhile (blank : IsBlank blanks) (keeps : Char → Bool) :
    IsBlank (blanks.takeWhile keeps) := by
  intro character member
  exact blank character (List.takeWhile_subset keeps member)

theorem trimStart_blanks_append (blank : IsBlank blanks) (text : Text) :
    trimStart (blanks ++ text) = trimStart text :=
  List.dropWhile_append_of_pos blank

theorem trim_blanks_append (blank : IsBlank blanks) (text : Text) :
    trim (blanks ++ text) = trim text := by
  rw [trim, trimStart_blanks_append blank, trim]

theorem trimEnd_append_blanks (blank : IsBlank blanks) (text : Text) :
    trimEnd (text ++ blanks) = trimEnd text := by
  have reversed : IsBlank blanks.reverse := by
    intro character member
    exact blank character (List.mem_reverse.mp member)
  rw [trimEnd, List.reverse_append, List.dropWhile_append_of_pos reversed,
    trimEnd]

theorem trim_append_blanks (blank : IsBlank blanks) (text : Text) :
    trim (text ++ blanks) = trim text := by
  induction blanks generalizing text with
  | nil => rw [List.append_nil]
  | cons first rest inductionHypothesis =>
      obtain ⟨firstWhite, restBlank⟩ := List.forall_mem_cons.mp blank
      have appended := inductionHypothesis restBlank (text ++ [first])
      rw [List.append_assoc, List.singleton_append] at appended
      rw [appended, trim_concat text firstWhite]

theorem exists_trimEnd_append (text : Text) :
    ∃ blanks, IsBlank blanks ∧ text = trimEnd text ++ blanks := by
  refine ⟨(text.reverse.takeWhile isWhiteSpace).reverse, ?_, ?_⟩
  · intro character member
    exact List.mem_takeWhile_imp (List.mem_reverse.mp member)
  · rw [trimEnd, ← List.reverse_append, List.takeWhile_append_dropWhile,
      List.reverse_reverse]

theorem trimEnd_trimEnd (text : Text) :
    trimEnd (trimEnd text) = trimEnd text := by
  have trimmed := List.dropWhile_eq_self_iff.mpr
    (List.dropWhile_get_zero_not isWhiteSpace text.reverse)
  rw [trimEnd, trimEnd, List.reverse_reverse, trimmed]

theorem trimEnd_cons {character : Char}
    (visible : isWhiteSpace character = false) (text : Text) :
    trimEnd (character :: text) = character :: trimEnd text := by
  rw [trimEnd, List.reverse_cons, List.dropWhile_append, trimEnd]
  split
  · rename_i blank
    rw [List.isEmpty_iff.mp blank]
    simp [visible]
  · rw [List.reverse_append]
    rfl

theorem isWhiteSpace_head_trim {text : Text} {first : Char}
    (starts : (trim text).head? = some first) :
    isWhiteSpace first = false := by
  have visible := List.head?_dropWhile_not isWhiteSpace text
  rw [trim, trimStart] at starts
  cases rest : text.dropWhile isWhiteSpace with
  | nil =>
      rw [rest] at starts
      cases starts
  | cons character tail =>
      rw [rest] at starts visible
      rw [trimEnd_cons visible] at starts
      cases starts
      exact visible

section

variable {keeps : Char → Bool}
  (keepsBlanks : ∀ character, isWhiteSpace character = true →
    keeps character = true)

include keepsBlanks

theorem trimStart_takeWhile (text : Text) :
    trimStart (text.takeWhile keeps) = (trimStart text).takeWhile keeps := by
  induction text with
  | nil => rfl
  | cons first rest inductionHypothesis =>
      by_cases white : isWhiteSpace first = true
      · rw [List.takeWhile_cons_of_pos (keepsBlanks first white), trimStart,
          trimStart, List.dropWhile_cons_of_pos white,
          List.dropWhile_cons_of_pos white]
        exact inductionHypothesis
      · rw [trimStart, trimStart, List.dropWhile_cons_of_neg white]
        by_cases kept : keeps first = true
        · rw [List.takeWhile_cons_of_pos kept,
            List.dropWhile_cons_of_neg white]
        · rw [List.takeWhile_cons_of_neg kept]
          rfl

omit keepsBlanks in
theorem trimEnd_takeWhile_trimEnd (text : Text) :
    trimEnd ((trimEnd text).takeWhile keeps) =
      trimEnd (text.takeWhile keeps) := by
  obtain ⟨blanks, blank, textEq⟩ := exists_trimEnd_append text
  conv => rhs; rw [textEq, List.takeWhile_append]
  split
  · rename_i whole
    have allKept := (List.takeWhile_prefix keeps).eq_of_length whole
    rw [allKept, trimEnd_append_blanks (blank.takeWhile keeps)]
  · rfl

theorem trimEnd_takeWhile_trim (text : Text) :
    trimEnd ((trim text).takeWhile keeps) = trim (text.takeWhile keeps) := by
  rw [trim, trimEnd_takeWhile_trimEnd, ← trimStart_takeWhile keepsBlanks,
    trim]

end

end RxBoard.Text
