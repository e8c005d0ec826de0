import RxBoard.Proofs.Text.Lines
import RxBoard.Text.Printed

/-!
Tokens: text that neither trimming nor cutting touches.

A printed line is made of tokens with spaces and commas between them, so what
the rules of source text do to it is known from where its tokens stand.
-/

namespace RxBoard.Text

def isPlain (character : Char) : Bool :=
  !isWhiteSpace character && character != ';' && character != ','

structure IsToken (text : Text) : Prop where
  nonempty : text ≠ []
  plain : ∀ character ∈ text, isPlain character = true

instance (text : Text) : Decidable (IsToken text) :=
  decidable_of_iff ((!text.isEmpty && text.all isPlain) = true) <| by
    rw [Bool.and_eq_true, Bool.not_eq_true', List.isEmpty_eq_false_iff,
      List.all_eq_true]
    exact ⟨fun parts => ⟨parts.1, parts.2⟩,
      fun token => ⟨token.1, token.2⟩⟩

theorem isPlain_iff (character : Char) :
    isPlain character = true ↔
      isWhiteSpace character = false ∧ character ≠ ';' ∧
        character ≠ ',' := by
  simp [isPlain, and_assoc]

theorem isPlain_toUpper {character : Char}
    (plain : isPlain character = true) :
    isPlain character.toUpper = true := by
  by_cases letter : 'a'.val ≤ character.val ∧ character.val ≤ 'z'.val
  · have capitals : ∀ index < 26,
        isPlain (Char.ofNat (97 + index)).toUpper = true := by
      decide
    have low : 97 ≤ character.toNat := letter.1
    have high : character.toNat ≤ 122 := letter.2
    have numbered := capitals (character.toNat - 97) (by omega)
    rw [Nat.add_sub_cancel' low, Char.ofNat_toNat] at numbered
    exact numbered
  · have same : character.toUpper = character := dif_neg letter
    rw [same]
    exact plain

namespace IsToken

variable {token : Text}

theorem not_whiteSpace (isToken : IsToken token) {character : Char}
    (member : character ∈ token) : isWhiteSpace character = false :=
  ((isPlain_iff character).mp (isToken.plain character member)).1

theorem not_mem_of_not_plain (isToken : IsToken token) {character : Char}
    (special : isPlain character = false) : character ∉ token := by
  intro member
  rw [isToken.plain character member] at special
  cases special

theorem reverse (isToken : IsToken token) : IsToken token.reverse :=
  ⟨by simpa using isToken.nonempty, by simpa using isToken.plain⟩

theorem upper (isToken : IsToken token) : IsToken (Text.upper token) := by
  constructor
  · simpa [Text.upper] using isToken.nonempty
  · intro character member
    rcases List.mem_map.mp member with ⟨source, sourceMember, rfl⟩
    exact isPlain_toUpper (isToken.plain source sourceMember)

theorem append {other : Text} (isToken : IsToken token)
    (otherToken : IsToken other) : IsToken (token ++ other) := by
  constructor
  · simp [isToken.nonempty]
  · intro character member
    rcases List.mem_append.mp member with front | back
    · exact isToken.plain character front
    · exact otherToken.plain character back

theorem trimStart_append (isToken : IsToken token) (rest : Text) :
    trimStart (token ++ rest) = token ++ rest := by
  obtain ⟨first, tail, rfl⟩ :=
    List.exists_cons_of_ne_nil isToken.nonempty
  have visible := isToken.not_whiteSpace (.head tail)
  simp [trimStart, visible]

theorem trimEnd_append (isToken : IsToken token) (front : Text) :
    trimEnd (front ++ token) = front ++ token := by
  have kept := isToken.reverse.trimStart_append front.reverse
  rw [← List.reverse_append, trimStart] at kept
  rw [trimEnd, kept, List.reverse_reverse]

theorem trim_eq (isToken : IsToken token) : trim token = token := by
  have start := isToken.trimStart_append []
  have stop := isToken.trimEnd_append []
  rw [List.append_nil] at start
  rw [List.nil_append] at stop
  rw [trim, start, stop]

theorem trim_append (isToken : IsToken token) {last : Text}
    (lastToken : IsToken last) (middle : Text) :
    trim (token ++ middle ++ last) = token ++ middle ++ last := by
  rw [trim, List.append_assoc, isToken.trimStart_append,
    ← List.append_assoc, lastToken.trimEnd_append]

end IsToken

theorem trim_space_cons (text : Text) : trim (' ' :: text) = trim text :=
  rfl

structure IsLine (text : Text) : Prop where
  no_lineFeed : '\n' ∉ text
  no_carriageReturn : '\r' ∉ text

instance (text : Text) : Decidable (IsLine text) :=
  decidable_of_iff ('\n' ∉ text ∧ '\r' ∉ text)
    ⟨fun parts => ⟨parts.1, parts.2⟩, fun line => ⟨line.1, line.2⟩⟩

theorem IsToken.isLine {text : Text} (token : IsToken text) :
    IsLine text :=
  ⟨token.not_mem_of_not_plain (by decide),
    token.not_mem_of_not_plain (by decide)⟩

theorem isLine_space : IsLine [' '] := by decide

theorem IsLine.append {text other : Text} (isLine : IsLine text)
    (otherLine : IsLine other) : IsLine (text ++ other) := by
  rcases isLine with ⟨noLineFeed, noReturn⟩
  rcases otherLine with ⟨otherNoLineFeed, otherNoReturn⟩
  constructor
  · simp [noLineFeed, otherNoLineFeed]
  · simp [noReturn, otherNoReturn]

theorem IsLine.lines_append_cons {text : Text} (isLine : IsLine text)
    (rest : Text) : lines (text ++ '\n' :: rest) = text :: lines rest := by
  rw [Text.lines_append_cons isLine.no_lineFeed,
    withoutReturn_of_not_mem isLine.no_carriageReturn]

theorem lines_joinLines {texts : List Text}
    (separate : ∀ text ∈ texts, IsLine text ∧ text ≠ []) :
    lines (joinLines texts) = texts := by
  induction texts with
  | nil => rfl
  | cons text rest inductionHypothesis =>
      obtain ⟨⟨isLine, nonempty⟩, restSeparate⟩ :=
        List.forall_mem_cons.mp separate
      rw [joinLines]
      by_cases last : rest = []
      · rw [last, List.intercalate_singleton]
        exact lines_of_one isLine.no_lineFeed nonempty
      · rw [List.intercalate_cons_of_ne_nil last, List.append_assoc,
          List.singleton_append, isLine.lines_append_cons]
        exact congrArg (text :: ·) (inductionHypothesis restSeparate)

end RxBoard.Text
