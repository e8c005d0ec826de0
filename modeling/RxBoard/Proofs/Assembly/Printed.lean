import RxBoard.Proofs.Assembly.Layout
import RxBoard.Proofs.Text.Hexadecimal

/-!
Printed instructions, read back by the assembler.
-/

namespace RxBoard

open Text (IsToken)

namespace SourceLine

theorem isSkipped_token_append {front : Text} (token : IsToken front)
    (noSlash : front.head? ≠ some '/') (rest : Text) :
    isSkipped (front ++ rest) = false := by
  rcases List.exists_cons_of_ne_nil token.nonempty with ⟨first, tail, rfl⟩
  have plain := (Text.isPlain_iff first).mp (token.plain first (.head _))
  unfold isSkipped
  split
  · contradiction
  · rename_i textEq
    exact absurd (List.cons.inj textEq).1 plain.2.1
  · rename_i textEq
    rw [List.head?_cons, (List.cons.inj textEq).1] at noSlash
    exact absurd rfl noSlash
  · rfl

/-- Code between two tokens is taken as it stands, in capitals. -/
theorem parse?_between {front last : Text} (token : IsToken front)
    (lastToken : IsToken last) (noSlash : front.head? ≠ some '/')
    {middle : Text} (noSemicolon : ';' ∉ middle) :
    parse? (front ++ middle ++ last) =
      some (ofCode (Text.upper (front ++ middle ++ last))) := by
  have code : ∀ character ∈ front ++ middle ++ last,
      (character != ';') = true := by
    intro character member
    refine bne_iff_ne.mpr (ne_of_mem_of_not_mem member ?_)
    simp only [List.mem_append, not_or]
    exact ⟨⟨token.not_mem_of_not_plain rfl, noSemicolon⟩,
      lastToken.not_mem_of_not_plain rfl⟩
  have whole :
      (front ++ middle ++ last).takeWhile (· != ';') =
        front ++ middle ++ last := by
    have kept (rest : Text) :
        (front ++ middle ++ last ++ rest).takeWhile (· != ';') =
          front ++ middle ++ last ++ rest.takeWhile (· != ';') :=
      List.takeWhile_append_of_pos code
    simpa using kept []
  have notSkipped := isSkipped_token_append token noSlash (middle ++ last)
  rw [← List.append_assoc] at notSkipped
  simp only [parse?, token.trim_append lastToken, notSkipped, whole,
    lastToken.trimEnd_append, Bool.false_eq_true, if_false]

theorem ofCode_append {mnemonic rest : Text} (token : IsToken mnemonic)
    (trimmed : Text.trim rest = rest) (nonempty : rest ≠ []) :
    ofCode (mnemonic ++ ' ' :: rest) =
      ⟨mnemonic, (rest.splitOn ',').map Text.trim⟩ := by
  have mnemonicEq :
      (mnemonic ++ ' ' :: rest).takeWhile
        (fun character => !Text.isWhiteSpace character) = mnemonic := by
    rw [List.takeWhile_append_of_pos]
    · simp [show Text.isWhiteSpace ' ' = true by decide]
    · intro character member
      simp [token.not_whiteSpace member]
  simp only [ofCode, mnemonicEq, List.drop_left, Text.trim_space_cons,
    trimmed, List.isEmpty_iff, if_neg nonempty]

theorem parse?_operand {mnemonic operand : Text}
    (token : IsToken mnemonic) (noSlash : mnemonic.head? ≠ some '/')
    (operandToken : IsToken operand) :
    parse? (mnemonic ++ ' ' :: operand) =
      some ⟨Text.upper mnemonic, [Text.upper operand]⟩ := by
  have between := parse?_between token operandToken noSlash
    (show ';' ∉ [' '] by decide)
  rw [List.append_assoc, List.singleton_append] at between
  rw [between]
  have upperEq :
      Text.upper (mnemonic ++ ' ' :: operand) =
        Text.upper mnemonic ++ ' ' :: Text.upper operand := by
    simp [Text.upper]
  rw [upperEq, ofCode_append token.upper operandToken.upper.trim_eq
    operandToken.upper.nonempty,
    List.splitOn_eq_singleton (operandToken.upper.not_mem_of_not_plain rfl),
    List.map_singleton, operandToken.upper.trim_eq]

theorem parse?_operands {mnemonic source target : Text}
    (token : IsToken mnemonic) (noSlash : mnemonic.head? ≠ some '/')
    (sourceToken : IsToken source) (targetToken : IsToken target) :
    parse? (mnemonic ++ ' ' :: source ++ ", ".toList ++ target) =
      some ⟨Text.upper mnemonic,
        [Text.upper source, Text.upper target]⟩ := by
  have noSemicolon : ';' ∉ ' ' :: source ++ ", ".toList := by
    have notInSource := sourceToken.not_mem_of_not_plain
      (show Text.isPlain ';' = false by decide)
    simp [notInSource]
  have between := parse?_between token targetToken noSlash noSemicolon
  rw [← List.append_assoc] at between
  rw [between]
  have upperEq :
      Text.upper (mnemonic ++ ' ' :: source ++ ", ".toList ++ target) =
        Text.upper mnemonic ++ ' ' ::
          (Text.upper source ++ [',', ' '] ++ Text.upper target) := by
    simp [Text.upper]
  rw [upperEq, ofCode_append token.upper
    (sourceToken.upper.trim_append targetToken.upper [',', ' '])
    (by simp)]
  rw [List.append_assoc, List.cons_append,
    List.splitOn_append_cons_self_of_not_mem
      (sourceToken.upper.not_mem_of_not_plain rfl)]
  have noComma : ',' ∉ [' '] ++ Text.upper target := by
    have notInTarget := targetToken.upper.not_mem_of_not_plain
      (show Text.isPlain ',' = false by decide)
    simp [notInTarget]
  rw [List.splitOn_eq_singleton noComma, List.map_cons, List.map_singleton,
    sourceToken.upper.trim_eq, List.singleton_append,
    Text.trim_space_cons, targetToken.upper.trim_eq]

end SourceLine

namespace Instruction

theorem isToken_immediateText (immediate : UInt32) :
    IsToken (immediateText immediate) :=
  (show IsToken "#0x".toList by decide).append
    (Text.isToken_hexadecimal 7 immediate.toNat)

theorem denotes_immediateText (immediate : UInt32) :
    OperandKind.immediate.Denotes (Text.upper (immediateText immediate))
      (.immediate immediate) := by
  have upperEq :
      Text.upper (immediateText immediate) =
        '#' :: '0' :: 'X' :: Text.hexWord immediate := by
    rw [immediateText, Text.upper, List.map_append]
    exact congrArg ("#0X".toList ++ ·) (Text.upper_hexadecimal 8 _)
  have numeralEq :
      Text.upper ('0' :: 'X' :: Text.hexWord immediate) =
        '0' :: 'X' :: Text.hexWord immediate :=
    congrArg ("0X".toList ++ ·) (Text.upper_hexadecimal 8 _)
  rw [upperEq]
  refine .immediate ?_
  rw [numeralEq]
  have word := DenotesWord.hexadecimal
    (.plain (Text.isNumeral_hexWord immediate)) immediate.toNat_lt
  rw [UInt32.ofNat_toNat] at word
  exact word

theorem registerText_cases {register : UInt8}
    (small : register.toNat < 16) :
    IsToken (registerText register) ∧
      OperandKind.ofToken? (Text.upper (registerText register)) =
        some .register ∧
      readRegister? (Text.upper (Text.upper (registerText register))) =
        some register := by
  have registers : ∀ number < 16,
      IsToken (registerText (UInt8.ofNat number)) ∧
        OperandKind.ofToken?
          (Text.upper (registerText (UInt8.ofNat number))) =
          some .register ∧
        readRegister?
          (Text.upper (Text.upper (registerText (UInt8.ofNat number)))) =
          some (UInt8.ofNat number) := by
    decide
  have numbered := registers register.toNat small
  rwa [UInt8.ofNat_toNat] at numbered

theorem denotes_registerText {register : UInt8}
    (small : register.toNat < 16) :
    OperandKind.register.Denotes (Text.upper (registerText register))
      (.register register) := by
  rcases registerText_cases small with ⟨_, shape, read⟩
  exact .register shape ((readRegister?_eq_some_iff ..).mp read)

theorem toNat_lt_of_lowNibble_eq {register : UInt8}
    (reduced : lowNibble register = register) : register.toNat < 16 := by
  rw [← reduced, toNat_lowNibble]
  exact Nat.mod_lt _ (by decide)

/-- A recognized instruction is read back from its text. -/
theorem textDenotes_text {instruction : Instruction}
    (recognized : instruction.isRecognized = true)
    (reduced : instruction.masked = instruction) :
    TextDenotes instruction.text instruction := by
  have moveToken : IsToken "MOV.L".toList := by decide
  have moveFront : "MOV.L".toList.head? ≠ some '/' := by decide
  have addToken : IsToken "ADD.L".toList := by decide
  have addFront : "ADD.L".toList.head? ≠ some '/' := by decide
  cases instruction with
  | nop => exact ⟨_, by decide, .nop⟩
  | moveImmediate destination immediate =>
      injection reduced with destinationEq
      have small := toNat_lt_of_lowNibble_eq destinationEq
      exact ⟨_, SourceLine.parse?_operands moveToken moveFront
          (isToken_immediateText immediate) (registerText_cases small).1,
        .moveImmediate (denotes_immediateText immediate)
          (denotes_registerText small)⟩
  | moveRegister source destination =>
      injection reduced with sourceEq destinationEq
      have sourceSmall := toNat_lt_of_lowNibble_eq sourceEq
      have small := toNat_lt_of_lowNibble_eq destinationEq
      exact ⟨_, SourceLine.parse?_operands moveToken moveFront
          (registerText_cases sourceSmall).1 (registerText_cases small).1,
        .moveRegister (denotes_registerText sourceSmall)
          (denotes_registerText small)⟩
  | addImmediate destination immediate =>
      injection reduced with destinationEq
      have small := toNat_lt_of_lowNibble_eq destinationEq
      exact ⟨_, SourceLine.parse?_operands addToken addFront
          (isToken_immediateText immediate) (registerText_cases small).1,
        .addImmediate (denotes_immediateText immediate)
          (denotes_registerText small)⟩
  | unrecognized opcode => cases recognized

theorem parse?_text_unrecognized (opcode : UInt8) :
    SourceLine.parse? (text (.unrecognized opcode)) =
      some ⟨".BYTE".toList, ["0X".toList ++ Text.hexByte opcode]⟩ := by
  have mnemonicToken : IsToken ".BYTE".toList := by decide
  have prefixToken : IsToken "0x".toList := by decide
  have operandToken : IsToken ("0x".toList ++ Text.hexByte opcode) :=
    prefixToken.append (Text.isToken_hexadecimal 1 opcode.toNat)
  have upperEq :
      Text.upper ("0x".toList ++ Text.hexByte opcode) =
        "0X".toList ++ Text.hexByte opcode := by
    rw [Text.upper, List.map_append]
    exact congrArg ("0X".toList ++ ·) (Text.upper_hexadecimal 2 _)
  have parsed := SourceLine.parse?_operand mnemonicToken (by decide)
    operandToken
  rw [upperEq] at parsed
  exact parsed

theorem ofText_text {instruction : Instruction}
    (reduced : instruction.masked = instruction) :
    LineOutput.ofText instruction.text =
      if instruction.isRecognized then
        .code instruction.encode
      else
        .failed (.unknownInstruction ".BYTE".toList "unknown".toList) := by
  by_cases recognized : instruction.isRecognized = true
  · rw [if_pos recognized, LineOutput.ofText_eq_code_iff]
    exact ⟨instruction, textDenotes_text recognized reduced, rfl⟩
  · rw [if_neg recognized]
    cases instruction with
    | unrecognized opcode =>
        rw [LineOutput.ofText_of_parse? (parse?_text_unrecognized opcode)]
        rfl
    | _ => exact absurd rfl recognized

theorem text_ne_nil (instruction : Instruction) :
    instruction.text ≠ [] := by
  cases instruction <;> exact List.cons_ne_nil _ _

theorem isLine_operands {mnemonic source target : Text}
    (isLine : Text.IsLine mnemonic) (sourceToken : IsToken source)
    (targetToken : IsToken target) :
    Text.IsLine (mnemonic ++ ' ' :: source ++ ", ".toList ++ target) := by
  have separator : Text.IsLine ", ".toList := by decide
  have front := isLine.append (Text.isLine_space.append sourceToken.isLine)
  exact (front.append separator).append targetToken.isLine

theorem isLine_text {instruction : Instruction}
    (reduced : instruction.masked = instruction) :
    Text.IsLine instruction.text := by
  have move : Text.IsLine "MOV.L".toList := by decide
  have add : Text.IsLine "ADD.L".toList := by decide
  have byte : Text.IsLine ".BYTE 0x".toList := by decide
  cases instruction with
  | nop => decide
  | moveImmediate destination immediate =>
      injection reduced with destinationEq
      have small := toNat_lt_of_lowNibble_eq destinationEq
      exact isLine_operands move (isToken_immediateText immediate)
        (registerText_cases small).1
  | moveRegister source destination =>
      injection reduced with sourceEq destinationEq
      have sourceSmall := toNat_lt_of_lowNibble_eq sourceEq
      have small := toNat_lt_of_lowNibble_eq destinationEq
      exact isLine_operands move (registerText_cases sourceSmall).1
        (registerText_cases small).1
  | addImmediate destination immediate =>
      injection reduced with destinationEq
      have small := toNat_lt_of_lowNibble_eq destinationEq
      exact isLine_operands add (isToken_immediateText immediate)
        (registerText_cases small).1
  | unrecognized opcode =>
      exact byte.append (Text.isToken_hexadecimal 1 opcode.toNat).isLine

end Instruction

end RxBoard
