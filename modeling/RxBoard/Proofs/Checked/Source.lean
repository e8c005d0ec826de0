import RxBoard.Assembly.Basic
import RxBoard.Proofs.Assembly.Grammar
import RxBoard.Proofs.Text.Trimming

/-!
Source text, read by accesses that can fail.

Here a comment is found by its place in the UTF-8 of a line, and the line is cut
there, which is possible between characters only (`before?_eq_some_iff`).
Operands are read at their indices, as many as the form has.  Whatever the text
is, the line can be cut and the operands are there, and the outcome is the one
of the library.
-/

namespace RxBoard.Checked

def utf8Length (text : Text) : Nat :=
  (text.map Char.utf8Size).sum

/-- The place in the UTF-8 of a text where a character first starts. -/
def find? (wanted : Char) : Text → Option Nat
  | [] => none
  | first :: rest =>
      if first = wanted then
        some 0
      else
        (find? wanted rest).map (first.utf8Size + ·)

/-- The text in front of a place in its UTF-8.  The place must be one between
characters, or one of the ends. -/
def before? : Text → Nat → Option Text
  | _, 0 => some []
  | [], _ + 1 => none
  | first :: rest, place + 1 =>
      if first.utf8Size ≤ place + 1 then
        (before? rest (place + 1 - first.utf8Size)).map (first :: ·)
      else
        none

theorem before?_utf8Length (front rest : Text) :
    before? (front ++ rest) (utf8Length front) = some front := by
  induction front with
  | nil =>
      change before? rest 0 = some []
      rw [before?]
  | cons first front inductionHypothesis =>
      have positive := first.utf8Size_pos
      have lengthEq : utf8Length (first :: front) =
          first.utf8Size + utf8Length front := rfl
      obtain ⟨place, placeEq⟩ :=
        Nat.exists_eq_succ_of_ne_zero (show utf8Length (first :: front) ≠ 0
          by omega)
      have behind : place + 1 - first.utf8Size = utf8Length front := by
        omega
      rw [placeEq, List.cons_append, before?, if_pos (by omega), behind,
        inductionHypothesis, Option.map_some]

theorem prefix_of_before? {text front : Text} {place : Nat}
    (cut : before? text place = some front) :
    front <+: text ∧ place = utf8Length front := by
  fun_induction before? text place generalizing front with
  | case1 text =>
      cases cut
      exact ⟨List.nil_prefix, rfl⟩
  | case2 place => cases cut
  | case3 first rest place inside inductionHypothesis =>
      obtain ⟨later, laterCut, rfl⟩ := Option.map_eq_some_iff.mp cut
      obtain ⟨isFront, placeEq⟩ := inductionHypothesis laterCut
      refine ⟨List.cons_prefix_cons.mpr ⟨rfl, isFront⟩, ?_⟩
      change place + 1 = first.utf8Size + utf8Length later
      omega
  | case4 first rest place outside => cases cut

/-- A text can be cut exactly at the ends of its fronts in UTF-8. -/
theorem before?_eq_some_iff (text front : Text) (place : Nat) :
    before? text place = some front ↔
      front <+: text ∧ place = utf8Length front := by
  constructor
  · exact prefix_of_before?
  · rintro ⟨⟨rest, rfl⟩, rfl⟩
    exact before?_utf8Length front rest

-- Inside of a character, and past the end, a text cannot be cut.
example : before? ['\u00e9', ';'] 1 = none ∧ before? [';'] 2 = none :=
  ⟨rfl, rfl⟩

/-- A character that is found starts behind the characters before it. -/
theorem find?_eq (wanted : Char) (text : Text) :
    find? wanted text =
      if wanted ∈ text then
        some (utf8Length (text.takeWhile (· != wanted)))
      else
        none := by
  induction text with
  | nil => rfl
  | cons first rest inductionHypothesis =>
      by_cases same : first = wanted
      · simp [find?, same, utf8Length]
      · have other : wanted ≠ first := Ne.symm same
        have kept : (first :: rest).takeWhile (· != wanted) =
            first :: rest.takeWhile (· != wanted) :=
          List.takeWhile_cons_of_pos (bne_iff_ne.mpr same)
        simp only [find?, if_neg same, inductionHypothesis, List.mem_cons,
          other, false_or, kept]
        split <;> rfl

def codeText (trimmed : Text) : Option Text :=
  match find? ';' trimmed with
  | none => some trimmed
  | some place => (before? trimmed place).map Text.trimEnd

theorem codeText_trim (text : Text) :
    codeText (Text.trim text) =
      some (Text.trimEnd ((Text.trim text).takeWhile (· != ';'))) := by
  unfold codeText
  rw [find?_eq]
  by_cases commented : ';' ∈ Text.trim text
  · have cut := (before?_eq_some_iff (Text.trim text) _ _).mpr
      ⟨List.takeWhile_prefix (· != ';'), rfl⟩
    simp only [if_pos commented, cut, Option.map_some]
  · -- Without a comment nothing is cut off, and the line is trimmed already.
    have whole : (Text.trim text).takeWhile (· != ';') = Text.trim text := by
      rw [List.takeWhile_eq_self_iff]
      intro character member
      exact bne_iff_ne.mpr fun same => commented (same ▸ member)
    simp only [if_neg commented, whole]
    rw [Text.trim, Text.trimEnd_trimEnd]

def parseLine (text : Text) : Option (Option SourceLine) :=
  let trimmed := Text.trim text
  if SourceLine.isSkipped trimmed then
    some none
  else
    (codeText trimmed).map fun code =>
      some (SourceLine.ofCode (Text.upper code))

theorem parseLine_eq (text : Text) :
    parseLine text = some (SourceLine.parse? text) := by
  simp only [parseLine, SourceLine.parse?, codeText_trim, Option.map_some]
  split <;> rfl

def readOperands (tokens : List Text) (index : Nat) :
    List OperandKind → Option (Except SourceError (List Operand))
  | [] => some (.ok [])
  | kind :: kinds =>
      match tokens[index]? with
      | none => none
      | some token =>
          match kind.parse token with
          | .error cause => some (.error cause)
          | .ok operand =>
              (readOperands tokens (index + 1) kinds).map fun operands =>
                operands.map (operand :: ·)

theorem readOperands_eq {tokens : List Text} {index : Nat}
    {kinds : List OperandKind}
    (present : index + kinds.length ≤ tokens.length) :
    readOperands tokens index kinds =
      some (SourceLine.parseOperands kinds (tokens.drop index)) := by
  induction kinds generalizing index with
  | nil => rfl
  | cons kind kinds inductionHypothesis =>
      rw [List.length_cons] at present
      have inside : index < tokens.length := by omega
      rw [readOperands, List.getElem?_eq_getElem inside,
        List.drop_eq_getElem_cons inside, SourceLine.parseOperands]
      cases parsed : kind.parse tokens[index] with
      | error cause => simp [parsed, bind, Except.bind]
      | ok operand =>
          simp only [parsed]
          rw [inductionHypothesis (by omega), Option.map_some]
          cases SourceLine.parseOperands kinds (tokens.drop (index + 1)) <;>
            rfl

def instruction (line : SourceLine) :
    Option (Except SourceError Instruction) :=
  match instructionForms.find? line.hasForm with
  | none => some (.error line.unknown)
  | some form =>
      match readOperands line.operands 0 form.signature with
      | none => none
      | some (.error cause) => some (.error cause)
      | some (.ok operands) => (form.build operands).map .ok

theorem instruction_eq (line : SourceLine) :
    instruction line = some line.instruction := by
  unfold instruction SourceLine.instruction
  cases found : instructionForms.find? line.hasForm with
  | none => rfl
  | some form =>
      have member := List.mem_of_find?_eq_some found
      obtain ⟨_, shapesEq⟩ :=
        (SourceLine.hasForm_iff line form).mp (List.find?_some found)
      have lengthEq := congrArg List.length shapesEq
      rw [SourceLine.shapes, List.length_map, List.length_map] at lengthEq
      have present : 0 + form.signature.length ≤ line.operands.length := by
        omega
      simp only [readOperands_eq present, List.drop_zero]
      cases parsed :
          SourceLine.parseOperands form.signature line.operands with
      | error cause => rfl
      | ok operands =>
          obtain ⟨built, builtEq⟩ :=
            SourceLine.exists_build member shapesEq parsed
          simp only [builtEq, bind, Except.bind]
          rfl

def encode (line : SourceLine) : Option (Except SourceError (List UInt8)) :=
  (instruction line).map fun denoted => denoted.map Instruction.encode

theorem encode_eq (line : SourceLine) : encode line = some line.encode := by
  rw [encode, instruction_eq, Option.map_some]
  rfl

def lineOutput (text : Text) : Option LineOutput := do
  match ← parseLine text with
  | none => return .skipped
  | some line =>
      match ← encode line with
      | .ok bytes => return .code bytes
      | .error cause => return .failed cause

theorem lineOutput_eq (text : Text) :
    lineOutput text = some (LineOutput.ofText text) := by
  simp only [lineOutput, LineOutput.ofText, parseLine_eq, encode_eq,
    Option.bind_eq_bind, Option.bind_some]
  cases SourceLine.parse? text with
  | none => rfl
  | some line => cases encoded : line.encode <;> simp only [encoded] <;> rfl

def assembleLines (line offset : Nat) : List Text → Option Assembly
  | [] => some .empty
  | text :: rest => do
      match ← lineOutput text with
      | .skipped => assembleLines (line + 1) offset rest
      | .code bytes =>
          let assembly ←
            assembleLines (line + 1) (offset + bytes.length) rest
          return assembly.consCode line offset bytes
      | .failed cause =>
          let assembly ← assembleLines (line + 1) offset rest
          return assembly.consError line cause

theorem assembleLines_eq (line offset : Nat) (texts : List Text) :
    assembleLines line offset texts =
      some (Assembly.ofLines line offset texts) := by
  induction texts generalizing line offset with
  | nil => rfl
  | cons text rest inductionHypothesis =>
      rw [assembleLines, lineOutput_eq, Assembly.ofLines]
      simp only [Option.bind_eq_bind, Option.bind_some, inductionHypothesis]
      cases LineOutput.ofText text <;> rfl

def assemble (source : Text) : Option Assembly :=
  assembleLines 1 0 (Text.lines source)

theorem assemble_eq (source : Text) :
    assemble source = some (Assembly.ofText source) :=
  assembleLines_eq 1 0 (Text.lines source)

end RxBoard.Checked
