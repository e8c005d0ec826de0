import RxBoard.Proofs.Assembly.Denotation
import RxBoard.Proofs.Text.Case

/-!
The lines that assemble, and the errors of all others.

A line in none of the forms is unknown.  The operands of a line that has a form
are read from left to right, and the first one that denotes nothing gives the
line its error.  So the error of a line is known from its tokens
(`SourceLine.encode_iff_grammar`).
-/

namespace RxBoard

open Text (IsNumeral IsUnsignedNumeral)

theorem isNumeral_upper_iff (radix : Nat) (text : Text) (number : Nat) :
    IsNumeral radix (Text.upper text) number ↔
      IsNumeral radix text number := by
  have sameDigits :
      (Text.upper text).map (Text.digitValue? radix) =
        text.map (Text.digitValue? radix) := by
    simp [Text.upper]
  unfold IsNumeral
  rw [sameDigits]

theorem isUnsignedNumeral_upper_iff (radix : Nat) (text : Text)
    (number : Nat) :
    IsUnsignedNumeral radix (Text.upper text) number ↔
      IsUnsignedNumeral radix text number := by
  constructor
  · intro numeral
    generalize upperEq : Text.upper text = capitals at numeral
    cases numeral with
    | plain numeral =>
        rw [← upperEq, isNumeral_upper_iff] at numeral
        exact .plain numeral
    | plus numeral =>
        obtain ⟨first, rest, rfl, signEq, rfl⟩ :=
          List.map_eq_cons_iff.mp upperEq
        obtain rfl := (Text.toUpper_eq_iff (by decide) first).mp signEq
        exact .plus ((isNumeral_upper_iff ..).mp numeral)
  · intro numeral
    cases numeral with
    | plain numeral => exact .plain ((isNumeral_upper_iff ..).mpr numeral)
    | plus numeral => exact .plus ((isNumeral_upper_iff ..).mpr numeral)

theorem OperandKind.ofToken?_eq_register {token : Text}
    (shape : ofToken? token = some .register) :
    (∃ rest, token = 'R' :: rest) ∨ token = ['S', 'P'] ∨
      token = ['P', 'C'] := by
  unfold ofToken? at shape
  split at shape
  · cases shape
  · exact .inl ⟨_, rfl⟩
  · exact .inr (.inl rfl)
  · exact .inr (.inr rfl)
  · cases shape

/-- The tokens that denote a register are the names of registers, as they
stand. -/
theorem OperandKind.denotes_register_iff (token : Text) (name : UInt8) :
    OperandKind.register.Denotes token (.register name) ↔
      DenotesRegister token name := by
  constructor
  · intro denotes
    cases denotes with
    | register shape named =>
        rcases ofToken?_eq_register shape with ⟨rest, rfl⟩ | rfl | rfl
        · cases named with
          | numbered numeral small =>
              exact .numbered ((isUnsignedNumeral_upper_iff ..).mp numeral)
                small
        · exact named
        · cases named
  · intro named
    cases named with
    | stackPointer => exact .register rfl .stackPointer
    | numbered numeral small =>
        exact .register rfl
          (.numbered ((isUnsignedNumeral_upper_iff ..).mpr numeral) small)

def IsOperand (token : Text) : Prop :=
  ∃ (kind : OperandKind) (operand : Operand), kind.Denotes token operand

/-- The operand that an error is about, if it is about a single one. -/
def SourceError.token? : SourceError → Option Text
  | unknownInstruction _ _ => none
  | invalidRegister token => some token
  | invalidImmediate token => some token
  | immediateOutOfRange token => some token

/-- Whether a cause is the error of the leftmost token that is no operand, and
names this token. -/
inductive LeftmostFault (cause : SourceError) : List Text → Prop where
  | here {kind : OperandKind} {token : Text} {rest : List Text}
      (noOperand : ¬IsOperand token)
      (shape : OperandKind.ofToken? token = some kind)
      (fails : kind.parse token = .error cause)
      (named : cause.token? = some token) :
      LeftmostFault cause (token :: rest)
  | later {token : Text} {rest : List Text} (isOperand : IsOperand token)
      (fault : LeftmostFault cause rest) :
      LeftmostFault cause (token :: rest)

theorem LeftmostFault.token?_ne_none {cause : SourceError}
    {tokens : List Text} (fault : LeftmostFault cause tokens) :
    cause.token? ≠ none := by
  induction fault with
  | here _ _ _ named =>
      rw [named]
      exact Option.some_ne_none _
  | later _ _ inductionHypothesis => exact inductionHypothesis

namespace OperandKind

variable {kind : OperandKind} {token : Text} {cause : SourceError}

/-- The error of an operand carries its token. -/
theorem token?_of_parse (fails : kind.parse token = .error cause) :
    cause.token? = some token := by
  cases kind with
  | immediate =>
      have reads := (Text.map_eq_error_iff ..).mp fails
      unfold parseImmediate at reads
      split at reads
      · cases reads
      · cases reads
        rfl
      · cases reads
        rfl
  | register =>
      have reads := (Text.map_eq_error_iff ..).mp fails
      unfold parseRegister at reads
      split at reads
      · cases reads
      · cases reads
        rfl

theorem not_isOperand_of_parse (shape : ofToken? token = some kind)
    (fails : kind.parse token = .error cause) : ¬IsOperand token := by
  rintro ⟨otherKind, operand, denotes⟩
  obtain rfl := Option.some.inj (shape.symm.trans denotes.shape)
  rw [(parse_eq_ok_iff shape operand).mpr denotes] at fails
  cases fails

theorem leftmostFault_cons_iff (shape : ofToken? token = some kind)
    (rest : List Text) :
    LeftmostFault cause (token :: rest) ↔
      kind.parse token = .error cause ∨
        IsOperand token ∧ LeftmostFault cause rest := by
  constructor
  · intro fault
    cases fault with
    | here _ otherShape fails _ =>
        obtain rfl := Option.some.inj (shape.symm.trans otherShape)
        exact .inl fails
    | later isOperand fault => exact .inr ⟨isOperand, fault⟩
  · rintro (fails | ⟨isOperand, fault⟩)
    · exact .here (not_isOperand_of_parse shape fails) shape fails
        (token?_of_parse fails)
    · exact .later isOperand fault

end OperandKind

namespace SourceLine

/-- Tokens are read up to the first that is no operand. -/
theorem parseOperands_eq_error_iff {kinds : List OperandKind}
    {tokens : List Text} (cause : SourceError)
    (shapesEq : tokens.map OperandKind.ofToken? = kinds.map some) :
    parseOperands kinds tokens = .error cause ↔
      LeftmostFault cause tokens := by
  induction kinds generalizing tokens with
  | nil =>
      obtain rfl := List.map_eq_nil_iff.mp shapesEq
      constructor <;> intro impossible <;> cases impossible
  | cons kind kinds inductionHypothesis =>
      obtain ⟨token, rest, rfl, shape, restShapes⟩ :=
        List.map_eq_cons_iff.mp shapesEq
      rw [OperandKind.leftmostFault_cons_iff shape,
        ← inductionHypothesis restShapes, parseOperands]
      cases parsed : kind.parse token with
      | error fault =>
          have noOperand := OperandKind.not_isOperand_of_parse shape parsed
          simp [bind, Except.bind, noOperand]
      | ok operand =>
          have isOperand : IsOperand token :=
            ⟨kind, operand, (OperandKind.parse_eq_ok_iff shape _).mp parsed⟩
          cases parseOperands kinds rest <;>
            simp [bind, Except.bind, pure, Except.pure, isOperand]

/-- Whether one of the forms has the mnemonic of a line and the kinds of its
operands, in their order. -/
def HasSomeForm (line : SourceLine) : Prop :=
  ∃ form ∈ instructionForms, line.mnemonic = form.mnemonic ∧
    line.shapes = form.signature.map some

theorem find?_hasForm_eq_none_iff (line : SourceLine) :
    instructionForms.find? line.hasForm = none ↔ ¬line.HasSomeForm := by
  simp only [List.find?_eq_none, hasForm_iff, HasSomeForm, not_exists,
    not_and]

/-- An instruction is built from all operands of the kinds of its form. -/
theorem exists_build {form : InstructionForm}
    (member : form ∈ instructionForms) {line : SourceLine}
    (shapesEq : line.shapes = form.signature.map some)
    {operands : List Operand}
    (parsed : parseOperands form.signature line.operands = .ok operands) :
    ∃ instruction, form.build operands = some instruction := by
  simp only [instructionForms, List.mem_cons, List.not_mem_nil, or_false]
    at member
  rcases member with rfl | rfl | rfl | rfl
  · rw [List.map_eq_nil_iff.mp shapesEq] at parsed
    cases parsed
    exact ⟨_, rfl⟩
  all_goals
    obtain ⟨source, target, operandsEq, sourceShape, targetShape⟩ :=
      exists_pair_of_shapes shapesEq
    rw [operandsEq] at parsed
    obtain ⟨left, right, rfl, leftDenotes, rightDenotes⟩ :=
      (parseOperands_pair sourceShape targetShape operands).mp parsed
    cases leftDenotes
    cases rightDenotes
    exact ⟨_, rfl⟩

theorem instruction_eq_error_iff (line : SourceLine)
    (cause : SourceError) :
    line.instruction = .error cause ↔
      ¬line.HasSomeForm ∧ cause = line.unknown ∨
        line.HasSomeForm ∧ LeftmostFault cause line.operands := by
  cases found : instructionForms.find? line.hasForm with
  | none =>
      have noForm := (find?_hasForm_eq_none_iff line).mp found
      simp [instruction, found, noForm, eq_comm]
  | some form =>
      have member := List.mem_of_find?_eq_some found
      obtain ⟨mnemonicEq, shapesEq⟩ :=
        (hasForm_iff line form).mp (List.find?_some found)
      have hasForm : line.HasSomeForm := ⟨form, member, mnemonicEq, shapesEq⟩
      rw [← parseOperands_eq_error_iff cause shapesEq, instruction, found]
      cases parsed : parseOperands form.signature line.operands with
      | error fault => simp [bind, Except.bind, parsed, hasForm]
      | ok operands =>
          obtain ⟨built, buildEq⟩ := exists_build member shapesEq parsed
          simp [bind, Except.bind, pure, Except.pure, parsed, buildEq,
            hasForm]

/-- A line assembles exactly if it denotes an instruction, and to the encoding
of this one.  Any other line is unknown exactly if it has no form, and
otherwise has the error of its leftmost operand that denotes nothing. -/
theorem encode_iff_grammar (line : SourceLine) :
    (∀ bytes, line.encode = .ok bytes ↔
      ∃ instruction, line.Denotes instruction ∧
        bytes = instruction.encode) ∧
    (∀ cause, line.encode = .error cause ↔
      ¬line.HasSomeForm ∧ cause = line.unknown ∨
        line.HasSomeForm ∧ LeftmostFault cause line.operands) ∧
    ((∃ mnemonic signature,
        line.encode = .error (.unknownInstruction mnemonic signature)) ↔
      ¬line.HasSomeForm) ∧
    ∀ token name,
      OperandKind.register.Denotes token (.register name) ↔
        DenotesRegister token name := by
  have errors (cause : SourceError) :
      line.encode = .error cause ↔
        ¬line.HasSomeForm ∧ cause = line.unknown ∨
          line.HasSomeForm ∧ LeftmostFault cause line.operands := by
    rw [← instruction_eq_error_iff, encode]
    cases line.instruction <;> simp [Functor.map, Except.map]
  refine ⟨?_, errors, ?_, OperandKind.denotes_register_iff⟩
  · intro bytes
    simp only [← instruction_eq_ok_iff]
    exact Text.map_eq_ok_iff Instruction.encode line.instruction bytes
  · constructor
    · rintro ⟨mnemonic, signature, fails⟩
      rcases (errors _).mp fails with ⟨noForm, _⟩ | ⟨_, fault⟩
      · exact noForm
      · exact absurd rfl fault.token?_ne_none
    · intro noForm
      exact ⟨_, _, (errors line.unknown).mpr (.inl ⟨noForm, rfl⟩)⟩

example :
    (SourceLine.mk "MOV.L".toList ["R+007".toList, "SP".toList]).encode =
      .ok [0xCF, 0x70] := rfl

end SourceLine

end RxBoard
