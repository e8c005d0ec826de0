import RxBoard.Proofs.Assembly.Concatenation
import RxBoard.Proofs.Text.Case
import RxBoard.Proofs.Text.Trimming

/-!
The surface of source lines.

What a line assembles to is known from the code on it: what stands in front of
the comment, trimmed and in capitals (`SourceLine.parse?_eq`).  Letter case,
blanks around a line, comments at its end and the way in which lines end leave
the code alone, and so they leave the assembly alone.
-/

namespace RxBoard

open Text (IsBlank)

namespace SourceLine

/-- What stands on a line in front of the comment, trimmed and in capitals. -/
def codeOn (text : Text) : Text :=
  Text.upper (Text.trim (text.takeWhile (· != ';')))

theorem codeOn_eq (text : Text) :
    codeOn text = Text.trim ((Text.upper text).takeWhile (· != ';')) := by
  rw [codeOn, Text.upper_trim, Text.upper_takeWhile_ne (by decide)]

theorem isSkipped_cons {first : Char} (noComment : first ≠ ';')
    (rest : Text) :
    isSkipped (first :: rest) = (first == '/' && rest.head? == some '/') := by
  unfold isSkipped
  split
  · contradiction
  · rename_i same
    exact absurd (List.cons.inj same).1 noComment
  · rename_i same
    obtain ⟨rfl, rfl⟩ := List.cons.inj same
    rfl
  · rename_i noSlashes
    rw [eq_comm, Bool.and_eq_false_iff, beq_eq_false_iff_ne,
      beq_eq_false_iff_ne]
    by_cases slash : first = '/'
    · right
      intro starts
      obtain ⟨tail, rfl⟩ := List.head?_eq_some_iff.mp starts
      exact noSlashes tail (slash ▸ rfl)
    · exact .inl slash

theorem isSkipped_upper (text : Text) :
    isSkipped (Text.upper text) = isSkipped text := by
  cases text with
  | nil => rfl
  | cons first rest =>
      by_cases comment : first = ';'
      · rw [comment]
        rfl
      · have upperNoComment : first.toUpper ≠ ';' := fun same =>
          comment ((Text.toUpper_eq_iff (by decide) first).mp same)
        rw [Text.upper_cons, isSkipped_cons comment,
          isSkipped_cons upperNoComment, Bool.eq_iff_iff]
        cases rest <;>
          simp [Text.toUpper_eq_iff (show Text.IsNoLetter '/' by decide)]

theorem head?_trimEnd_takeWhile (text : Text) :
    (Text.trimEnd (text.takeWhile (· != ';'))).head? = some '/' ↔
      text.head? = some '/' := by
  cases text with
  | nil => rfl
  | cons first rest =>
      by_cases slash : first = '/'
      · rw [slash, List.takeWhile_cons_of_pos (by decide),
          Text.trimEnd_cons (by decide), List.head?_cons, List.head?_cons]
      · -- What is left of the text is empty or starts with its first character.
        have whole := (Text.exists_trimEnd_append
          ((first :: rest).takeWhile (· != ';')))
        rcases whole with ⟨blanks, _, wholeEq⟩
        have front : Text.trimEnd ((first :: rest).takeWhile (· != ';')) <+:
            first :: rest :=
          List.IsPrefix.trans ⟨blanks, wholeEq.symm⟩
            (List.takeWhile_prefix _)
        constructor
        · intro starts
          obtain ⟨tail, startsEq⟩ := List.head?_eq_some_iff.mp starts
          rw [startsEq, List.cons_prefix_cons] at front
          exact absurd front.1.symm slash
        · intro starts
          exact absurd (Option.some.inj starts) slash

theorem isSkipped_takeWhile {text : Text}
    (visible : ∀ first, text.head? = some first →
      Text.isWhiteSpace first = false) :
    isSkipped (Text.trimEnd (text.takeWhile (· != ';'))) =
      isSkipped text := by
  cases text with
  | nil => rfl
  | cons first rest =>
      by_cases comment : first = ';'
      · rw [comment]
        rfl
      · rw [List.takeWhile_cons, if_pos (bne_iff_ne.mpr comment),
          Text.trimEnd_cons (visible first rfl), isSkipped_cons comment,
          isSkipped_cons comment, Bool.eq_iff_iff]
        simp only [Bool.and_eq_true, beq_iff_eq, head?_trimEnd_takeWhile]

theorem bne_of_isWhiteSpace (character : Char)
    (white : Text.isWhiteSpace character = true) :
    (character != ';') = true := by
  refine bne_iff_ne.mpr ?_
  rintro rfl
  cases white

/-- The code on a line is all that counts. -/
theorem parse?_eq (text : Text) :
    parse? text =
      if isSkipped (codeOn text) then none else some (ofCode (codeOn text)) := by
  have codeEq := Text.trimEnd_takeWhile_trim bne_of_isWhiteSpace text
  have skippedEq : isSkipped (codeOn text) = isSkipped (Text.trim text) := by
    rw [codeOn, isSkipped_upper, ← codeEq]
    exact isSkipped_takeWhile fun _ => Text.isWhiteSpace_head_trim
  rw [skippedEq, parse?, codeEq]
  rfl

end SourceLine

theorem LineOutput.ofText_of_codeOn {text other : Text}
    (same : SourceLine.codeOn text = SourceLine.codeOn other) :
    ofText text = ofText other := by
  unfold ofText
  rw [SourceLine.parse?_eq, SourceLine.parse?_eq, same]

/-! ### Changes to the surface -/

/-- Whether characters are the same up to the case of an ASCII letter. -/
def SameLetter (character other : Char) : Prop :=
  other = character ∨ other = character.toUpper ∨
    other = character.toLower

theorem SameLetter.toUpper_eq {character other : Char}
    (same : SameLetter character other) :
    other.toUpper = character.toUpper := by
  rcases same with rfl | rfl | rfl
  · rfl
  · exact Char.toUpper_toUpper_eq_toUpper character
  · exact Char.toUpper_toLower_eq_toUpper character

/-- A change to a line that leaves the code on it alone. -/
inductive SurfaceChange : Text → Text → Prop where
  | letterCase {line other : Text}
      (sameLetters : List.Forall₂ SameLetter line other) :
      SurfaceChange line other
  | blanksBefore {line blanks : Text} (blank : IsBlank blanks)
      (oneLine : '\n' ∉ blanks) : SurfaceChange line (blanks ++ line)
  | blanksBehind {line blanks : Text} (blank : IsBlank blanks)
      (oneLine : '\n' ∉ blanks) : SurfaceChange line (line ++ blanks)
  | comment {line remark : Text} (oneLine : '\n' ∉ remark) :
      SurfaceChange line (line ++ ';' :: remark)

theorem upper_eq_of_sameLetters {line other : Text}
    (sameLetters : List.Forall₂ SameLetter line other) :
    Text.upper other = Text.upper line := by
  induction sameLetters with
  | nil => rfl
  | cons same _ inductionHypothesis =>
      rw [Text.upper_cons, Text.upper_cons, same.toUpper_eq,
        inductionHypothesis]

namespace SurfaceChange

variable {line other : Text}

theorem codeOn_eq (change : SurfaceChange line other) :
    SourceLine.codeOn other = SourceLine.codeOn line := by
  cases change with
  | letterCase sameLetters =>
      rw [SourceLine.codeOn_eq, SourceLine.codeOn_eq,
        upper_eq_of_sameLetters sameLetters]
  | blanksBefore blank _ =>
      have kept : ∀ character ∈ _, (character != ';') = true :=
        fun character member =>
          SourceLine.bne_of_isWhiteSpace character (blank character member)
      rw [SourceLine.codeOn, List.takeWhile_append_of_pos kept,
        Text.trim_blanks_append blank, SourceLine.codeOn]
  | blanksBehind blank _ =>
      rw [SourceLine.codeOn, SourceLine.codeOn, List.takeWhile_append]
      split
      · rename_i whole
        rw [Text.trim_append_blanks (blank.takeWhile _),
          (List.takeWhile_prefix _).eq_of_length whole]
      · rfl
  | comment _ =>
      rw [SourceLine.codeOn, SourceLine.codeOn, List.takeWhile_append]
      split
      · rename_i whole
        rw [List.takeWhile_cons_of_neg (by decide), List.append_nil,
          (List.takeWhile_prefix _).eq_of_length whole]
      · rfl

theorem oneLine (change : SurfaceChange line other)
    (lineOneLine : '\n' ∉ line) : '\n' ∉ other := by
  cases change with
  | letterCase sameLetters =>
      intro member
      have upperMember : '\n' ∈ Text.upper line := by
        rw [← upper_eq_of_sameLetters sameLetters]
        exact List.mem_map.mpr ⟨'\n', member, rfl⟩
      obtain ⟨character, characterMember, isLineFeed⟩ :=
        List.mem_map.mp upperMember
      obtain rfl := (Text.toUpper_eq_iff (by decide) character).mp isLineFeed
      exact lineOneLine characterMember
  | blanksBefore _ oneLine | blanksBehind _ oneLine =>
      simp [lineOneLine, oneLine]
  | comment oneLine => simp [lineOneLine, oneLine]

end SurfaceChange

def Resurfaced (line other : Text) : Prop :=
  Relation.ReflTransGen SurfaceChange line other

namespace Resurfaced

variable {line other : Text}

theorem codeOn_eq (resurfaced : Resurfaced line other) :
    SourceLine.codeOn other = SourceLine.codeOn line := by
  induction resurfaced with
  | refl => rfl
  | tail _ change inductionHypothesis =>
      exact change.codeOn_eq.trans inductionHypothesis

theorem oneLine (resurfaced : Resurfaced line other)
    (lineOneLine : '\n' ∉ line) : '\n' ∉ other := by
  induction resurfaced with
  | refl => exact lineOneLine
  | tail _ change inductionHypothesis =>
      exact change.oneLine inductionHypothesis

theorem allOneLine {lines others : List Text}
    (resurfaced : List.Forall₂ Resurfaced lines others)
    (linesOneLine : ∀ line ∈ lines, '\n' ∉ line) :
    ∀ other ∈ others, '\n' ∉ other := by
  induction resurfaced with
  | nil => exact List.forall_mem_nil _
  | cons first _ inductionHypothesis =>
      obtain ⟨firstOneLine, restOneLine⟩ :=
        List.forall_mem_cons.mp linesOneLine
      exact List.forall_mem_cons.mpr
        ⟨first.oneLine firstOneLine, inductionHypothesis restOneLine⟩

end Resurfaced

inductive LineEnding where
  | lineFeed
  | returnLineFeed

namespace LineEnding

def text : LineEnding → Text
  | lineFeed => ['\n']
  | returnLineFeed => ['\r', '\n']

def join (ending : LineEnding) (lines : List Text) : Text :=
  List.intercalate ending.text lines

theorem join_cons (ending : LineEnding) (line : Text) {rest : List Text}
    (more : rest ≠ []) :
    ending.join (line :: rest) = line ++ (ending.text ++ ending.join rest) := by
  rw [join, List.intercalate_cons_of_ne_nil more, List.append_assoc, join]

/-- An ended line is taken off a text, possibly with a carriage return that is
trimmed away. -/
theorem exists_lines_append (ending : LineEnding) {line : Text}
    (oneLine : '\n' ∉ line) (rest : Text) :
    ∃ taken, Text.lines (line ++ (ending.text ++ rest)) =
        taken :: Text.lines rest ∧
      Text.trim taken = Text.trim line := by
  cases ending with
  | lineFeed =>
      exact ⟨_, Text.lines_append_cons oneLine rest,
        Text.trim_withoutReturn line⟩
  | returnLineFeed =>
      have returned : '\n' ∉ line ++ ['\r'] := by simp [oneLine]
      have linesEq := Text.lines_append_cons returned rest
      rw [List.append_assoc] at linesEq
      exact ⟨_, linesEq, (Text.trim_withoutReturn _).trans
        (Text.trim_concat line (by decide))⟩

end LineEnding

namespace Assembly

theorem ofLines_congr {texts others : List Text}
    (same : List.Forall₂ (fun text other =>
      LineOutput.ofText text = LineOutput.ofText other) texts others)
    (line offset : Nat) :
    ofLines line offset texts = ofLines line offset others := by
  induction same generalizing line offset with
  | nil => rfl
  | cons sameOutput _ inductionHypothesis =>
      rw [ofLines, ofLines, sameOutput]
      simp only [inductionHypothesis]

/-- A text assembles as the lines that it was put together from. -/
theorem ofLines_join (ending : LineEnding) {texts : List Text}
    (oneLine : ∀ text ∈ texts, '\n' ∉ text) (line offset : Nat) :
    ofLines line offset (Text.lines (ending.join texts)) =
      ofLines line offset texts := by
  induction texts generalizing line offset with
  | nil => rfl
  | cons text rest inductionHypothesis =>
      obtain ⟨textOneLine, restOneLine⟩ := List.forall_mem_cons.mp oneLine
      by_cases last : rest = []
      · subst last
        rw [LineEnding.join, List.intercalate_singleton]
        -- An empty last line is no line of the text, and holds no code.
        by_cases isEmpty : text = []
        · rw [isEmpty]
          rfl
        · rw [Text.lines_of_one textOneLine isEmpty]
      · obtain ⟨taken, linesEq, trimEq⟩ :=
          ending.exists_lines_append textOneLine (ending.join rest)
        rw [LineEnding.join_cons ending text last, linesEq, ofLines, ofLines,
          LineOutput.ofText_congr trimEq]
        simp only [inductionHypothesis restOneLine]

end Assembly

/-- Changes to the surface of lines, and another way to end them, make no
difference to what a text assembles to: bytes, errors and source map are the
same. -/
theorem assemble_resurfaced {lines others : List Text}
    (oneLine : ∀ line ∈ lines, '\n' ∉ line)
    (resurfaced : List.Forall₂ Resurfaced lines others)
    (ending otherEnding : LineEnding) :
    assemble (otherEnding.join others) = assemble (ending.join lines) := by
  have othersOneLine := Resurfaced.allOneLine resurfaced oneLine
  have sameOutputs : List.Forall₂ (fun text other =>
      LineOutput.ofText text = LineOutput.ofText other) lines others :=
    resurfaced.imp fun _ _ change =>
      LineOutput.ofText_of_codeOn change.codeOn_eq.symm
  have same : Assembly.ofText (otherEnding.join others) =
      Assembly.ofText (ending.join lines) := by
    rw [Assembly.ofText, Assembly.ofText,
      Assembly.ofLines_join otherEnding othersOneLine,
      Assembly.ofLines_join ending oneLine,
      Assembly.ofLines_congr sameOutputs]
  rw [assemble, assemble, same]

/-- A line, a comment and a line that fails, with blanks, remarks and small
letters. -/
theorem assemble_resurfaced_remarks :
    let lines := ["MOV.L #0X1F, R2".toList, "// note".toList,
      "ADD.L R1".toList]
    let others := [" mov.l #0x1f, r2; load".toList,
      "// note;; seen".toList, "add.l r1\t".toList]
    (∀ line ∈ lines, '\n' ∉ line) ∧ List.Forall₂ Resurfaced lines others ∧
      assemble (LineEnding.returnLineFeed.join others) =
        assemble (LineEnding.lineFeed.join lines) := by
  intro lines others
  have oneLine : ∀ line ∈ lines, '\n' ∉ line := by decide
  have smallLetters (line : Text) :
      SurfaceChange line (line.map Char.toLower) :=
    .letterCase (List.forall₂_map_right_iff.mpr
      (List.forall₂_same.mpr fun character _ => .inr (.inr rfl)))
  have moveSmall : Resurfaced "MOV.L #0X1F, R2".toList
      "mov.l #0x1f, r2".toList := .single (smallLetters _)
  have addSmall : Resurfaced "ADD.L R1".toList "add.l r1".toList :=
    .single (smallLetters _)
  have space : SurfaceChange "mov.l #0x1f, r2".toList
      ([' '] ++ "mov.l #0x1f, r2".toList) :=
    .blanksBefore (List.forall_mem_singleton.mpr rfl) (by decide)
  have tab : SurfaceChange "add.l r1".toList ("add.l r1".toList ++ ['\t']) :=
    .blanksBehind (List.forall_mem_singleton.mpr rfl) (by decide)
  have first : Resurfaced "MOV.L #0X1F, R2".toList
      " mov.l #0x1f, r2; load".toList :=
    (moveSmall.tail space).tail
      (.comment (show '\n' ∉ " load".toList by decide))
  have second : Resurfaced "// note".toList "// note;; seen".toList :=
    .single (.comment (show '\n' ∉ "; seen".toList by decide))
  have third : Resurfaced "ADD.L R1".toList "add.l r1\t".toList :=
    addSmall.tail tab
  have resurfaced : List.Forall₂ Resurfaced lines others :=
    .cons first (.cons second (.cons third .nil))
  exact ⟨oneLine, resurfaced,
    assemble_resurfaced oneLine resurfaced .lineFeed .returnLineFeed⟩

end RxBoard
