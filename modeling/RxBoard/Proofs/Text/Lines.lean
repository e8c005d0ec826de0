import RxBoard.Text.Basic

/-!
Texts as lines.

A text either has no line feed, or is a line without one, a line feed, and a
shorter text.  What `lines` makes of a text is known from these two cases.
-/

namespace RxBoard.Text

def withoutReturn (line : Text) : Text :=
  if line.getLast? = some '\r' then line.dropLast else line

theorem withoutReturn_cons_cons (first second : Char) (rest : Text) :
    withoutReturn (first :: second :: rest) =
      first :: withoutReturn (second :: rest) := by
  unfold withoutReturn
  rw [List.getLast?_cons_cons, List.dropLast_cons_cons]
  split <;> rfl

theorem withoutReturn_of_not_mem {line : Text} (noReturn : '\r' ∉ line) :
    withoutReturn line = line := by
  apply if_neg
  intro last
  exact noReturn (List.mem_of_getLast? last)

/-- White space at the end makes no difference to trimmed text. -/
theorem trim_concat (text : Text) {character : Char}
    (isWhite : isWhiteSpace character = true) :
    trim (text ++ [character]) = trim text := by
  unfold trim trimStart
  rw [List.dropWhile_append]
  split
  · rename_i blank
    rw [List.isEmpty_iff.mp blank]
    simp [isWhite]
  · simp [trimEnd, isWhite]

theorem trim_withoutReturn (line : Text) :
    trim (withoutReturn line) = trim line := by
  unfold withoutReturn
  split
  · rename_i last
    obtain ⟨front, rfl⟩ := List.getLast?_eq_some_iff.mp last
    rw [List.dropLast_concat, trim_concat front (by decide)]
  · rfl

/-- A character that ends no line is put in front of the first line. -/
theorem lines_cons {character : Char} {rest : Text}
    (noLineFeed : character ≠ '\n')
    (noEnd : character = '\r' → rest.head? ≠ some '\n') :
    lines (character :: rest) =
      match lines rest with
      | [] => [[character]]
      | line :: more => (character :: line) :: more := by
  rw [lines.eq_def]
  split
  · contradiction
  · rename_i same
    exact absurd (List.cons.inj same).1 noLineFeed
  · rename_i same
    rcases List.cons.inj same with ⟨rfl, rfl⟩
    exact absurd rfl (noEnd rfl)
  · rename_i same
    rcases List.cons.inj same with ⟨rfl, rfl⟩
    rfl

theorem lines_append_cons {line : Text} (oneLine : '\n' ∉ line)
    (rest : Text) :
    lines (line ++ '\n' :: rest) = withoutReturn line :: lines rest := by
  induction line with
  | nil => rfl
  | cons first tail inductionHypothesis =>
      rw [List.mem_cons, not_or] at oneLine
      have tailLines := inductionHypothesis oneLine.2
      -- Whether a carriage return is dropped shows at the last character only.
      cases tail with
      | nil =>
          by_cases isReturn : first = '\r'
          · rw [isReturn]
            rfl
          · rw [List.singleton_append,
              lines_cons (Ne.symm oneLine.1) (absurd · isReturn),
              withoutReturn_of_not_mem (by simpa using Ne.symm isReturn)]
            rfl
      | cons second more =>
          rw [List.mem_cons, not_or] at oneLine
          have noEnd : first = '\r' →
              (second :: more ++ '\n' :: rest).head? ≠ some '\n' := by
            intro _ isLineFeed
            exact oneLine.2.1 (Option.some.inj isLineFeed).symm
          rw [List.cons_append, lines_cons (Ne.symm oneLine.1) noEnd,
            tailLines, withoutReturn_cons_cons]

theorem lines_of_one {line : Text} (oneLine : '\n' ∉ line)
    (nonempty : line ≠ []) : lines line = [line] := by
  induction line with
  | nil => contradiction
  | cons first tail inductionHypothesis =>
      rw [List.mem_cons, not_or] at oneLine
      have noEnd : first = '\r' → tail.head? ≠ some '\n' := by
        intro _ isLineFeed
        exact oneLine.2 (List.mem_of_head? isLineFeed)
      rw [lines_cons (Ne.symm oneLine.1) noEnd]
      by_cases last : tail = []
      · rw [last]
        rfl
      · rw [inductionHypothesis oneLine.2 last]

theorem line_induction {motive : Text → Prop}
    (last : ∀ line, '\n' ∉ line → motive line)
    (more : ∀ line rest, '\n' ∉ line → motive rest →
      motive (line ++ '\n' :: rest)) (text : Text) : motive text := by
  induction size : text.length using Nat.strongRecOn
    generalizing text with
  | ind size inductionHypothesis =>
      by_cases ends : '\n' ∈ text
      · obtain ⟨line, rest, rfl, oneLine⟩ :=
          List.eq_append_cons_of_mem ends
        apply more line rest oneLine
        apply inductionHypothesis rest.length ?_ rest rfl
        rw [← size, List.length_append, List.length_cons]
        omega
      · exact last text ends

/-- Between two texts on lines of their own, the line feed ends the last line
of the first. -/
theorem lines_append_lineFeed (text rest : Text) :
    lines (text ++ '\n' :: rest) =
      lines (text ++ ['\n']) ++ lines rest := by
  induction text using line_induction with
  | last line oneLine =>
      rw [lines_append_cons oneLine, lines_append_cons oneLine]
      rfl
  | more line behind oneLine inductionHypothesis =>
      rw [List.append_assoc, List.append_assoc, List.cons_append,
        List.cons_append, lines_append_cons oneLine,
        lines_append_cons oneLine, inductionHypothesis]
      rfl

theorem length_lines_lineFeed (text : Text) :
    (lines (text ++ ['\n'])).length = text.count '\n' + 1 := by
  induction text using line_induction with
  | last line oneLine =>
      rw [lines_append_cons oneLine, List.count_eq_zero.mpr oneLine]
      rfl
  | more line rest oneLine inductionHypothesis =>
      rw [List.append_assoc, List.cons_append, lines_append_cons oneLine,
        List.length_cons, inductionHypothesis, List.count_append,
        List.count_eq_zero.mpr oneLine, List.count_cons_self,
        Nat.zero_add]

end RxBoard.Text
