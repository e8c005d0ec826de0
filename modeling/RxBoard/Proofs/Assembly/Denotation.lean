import RxBoard.Assembly.Basic
import RxBoard.Proofs.Instruction.Codec
import RxBoard.Proofs.Text.Numeral

/-!
What source lines denote.

`SourceLine.Denotes` is the grammar of instructions with their meaning, and
`instruction_eq_ok_iff` says that the table of forms takes exactly the lines
of this grammar.
-/

namespace RxBoard

open Text (IsSignedNumeral IsUnsignedNumeral)

inductive DenotesWord : Text → UInt32 → Prop where
  | hexadecimal {digits : Text} {number : Nat}
      (numeral : IsUnsignedNumeral 16 digits number)
      (small : number < 2 ^ 32) :
      DenotesWord ('0' :: 'X' :: digits) (UInt32.ofNat number)
  | decimal {text : Text} {value : Int}
      (numeral : IsSignedNumeral text value)
      (low : -2 ^ 31 ≤ value) (high : value < 2 ^ 32) :
      DenotesWord text (UInt32.ofInt value)

inductive DenotesRegister : Text → UInt8 → Prop where
  | stackPointer : DenotesRegister ['S', 'P'] 0
  | numbered {digits : Text} {number : Nat}
      (numeral : IsUnsignedNumeral 10 digits number)
      (small : number ≤ 15) :
      DenotesRegister ('R' :: digits) (UInt8.ofNat number)

theorem not_isSignedNumeral_hexadecimal (digits : Text) (value : Int) :
    ¬IsSignedNumeral ('0' :: 'X' :: digits) value := by
  intro numeral
  cases numeral with
  | plain numeral =>
      rcases numeral with ⟨values, _, valuesEq, _⟩
      have letter : Text.digitValue? 10 'X' = none := by decide
      rcases values with _ | ⟨first, _ | ⟨second, rest⟩⟩ <;>
        simp [letter] at valuesEq

theorem readImmediate_of_not_prefixed {text : Text}
    (unprefixed : ¬∃ digits, text = '0' :: 'X' :: digits) :
    readImmediate text =
      match Text.readSigned largestDecimal text with
      | .error fault => .error fault
      | .ok value =>
          if -2 ^ 31 ≤ value ∧ value < 2 ^ 32 then
            .ok (UInt32.ofInt value)
          else
            .error .overflow := by
  unfold readImmediate
  split
  · exact absurd ⟨_, rfl⟩ unprefixed
  · cases Text.readSigned largestDecimal text with
    | error fault => rfl
    | ok value =>
        by_cases inside : -2 ^ 31 ≤ value ∧ value < 2 ^ 32
        · simp only [if_pos inside]
          rw [if_neg]
          rw [Bool.or_eq_true, decide_eq_true_eq, decide_eq_true_eq]
          simp only [smallestSignedWord, largestWord]
          omega
        · simp only [if_neg inside]
          rw [if_pos]
          rw [Bool.or_eq_true, decide_eq_true_eq, decide_eq_true_eq]
          simp only [smallestSignedWord, largestWord]
          omega

theorem readImmediate_eq_ok_iff (text : Text) (word : UInt32) :
    readImmediate text = .ok word ↔ DenotesWord text word := by
  by_cases prefixed : ∃ digits, text = '0' :: 'X' :: digits
  · -- The prefix decides: no decimal numeral starts with it.
    rcases prefixed with ⟨digits, rfl⟩
    rw [readImmediate, Text.map_eq_ok_iff]
    simp only [Text.readUnsigned_eq_ok_iff (show 0 < 16 by decide)]
    constructor
    · intro facts
      rcases facts with ⟨number, ⟨numeral, small⟩, rfl⟩
      exact .hexadecimal numeral (Nat.lt_succ_of_le small)
    · intro denotes
      cases denotes with
      | hexadecimal numeral small =>
          exact ⟨_, ⟨numeral, Nat.le_of_lt_succ small⟩, rfl⟩
      | decimal numeral low high =>
          exact (not_isSignedNumeral_hexadecimal _ _ numeral).elim
  · rw [readImmediate_of_not_prefixed prefixed]
    constructor
    · intro read
      cases readEq : Text.readSigned largestDecimal text with
      | error fault =>
          rw [readEq] at read
          cases read
      | ok value =>
          rw [readEq] at read
          have numeral := ((Text.readSigned_eq_ok_iff ..).mp readEq).1
          by_cases inside : -2 ^ 31 ≤ value ∧ value < 2 ^ 32
          · simp only [if_pos inside, Except.ok.injEq] at read
            rw [← read]
            exact .decimal numeral inside.1 inside.2
          · simp only [if_neg inside] at read
            cases read
    · intro denotes
      cases denotes with
      | hexadecimal numeral small => exact absurd ⟨_, rfl⟩ prefixed
      | decimal numeral low high =>
          have readEq :=
            (Text.readSigned_eq_ok_iff largestDecimal ..).mpr
              ⟨numeral, by simp only [largestDecimal]; omega,
                by simp only [largestDecimal]; omega⟩
          simp only [readEq, if_pos (And.intro low high)]

theorem readRegister?_eq_some_iff (text : Text) (name : UInt8) :
    readRegister? text = some name ↔ DenotesRegister text name := by
  have decimal : 0 < 10 := by decide
  by_cases stackPointer : text = ['S', 'P']
  · subst stackPointer
    constructor
    · intro read
      cases read
      exact .stackPointer
    · intro denotes
      cases denotes
      rfl
  · by_cases numbered : ∃ digits, text = 'R' :: digits
    · rcases numbered with ⟨digits, rfl⟩
      constructor
      · intro read
        cases readEq : Text.readUnsigned 10 15 digits with
        | error fault =>
            simp only [readRegister?, readEq] at read
            cases read
        | ok number =>
            simp only [readRegister?, readEq, Option.some.injEq] at read
            have parts := (Text.readUnsigned_eq_ok_iff decimal ..).mp readEq
            rw [← read]
            exact .numbered parts.1 parts.2
      · intro denotes
        cases denotes with
        | numbered numeral small =>
            have readEq :=
              (Text.readUnsigned_eq_ok_iff decimal 15 ..).mpr
                ⟨numeral, small⟩
            simp only [readRegister?, readEq]
    · constructor
      · intro read
        unfold readRegister? at read
        split at read
        · exact absurd rfl stackPointer
        · exact absurd ⟨_, rfl⟩ numbered
        · cases read
      · intro denotes
        cases denotes with
        | stackPointer => exact absurd rfl stackPointer
        | numbered numeral small => exact absurd ⟨_, rfl⟩ numbered

inductive OperandKind.Denotes : OperandKind → Text → Operand → Prop where
  | immediate {numeral : Text} {value : UInt32}
      (word : DenotesWord (Text.upper numeral) value) :
      Denotes .immediate ('#' :: numeral) (.immediate value)
  | register {token : Text} {name : UInt8}
      (shape : OperandKind.ofToken? token = some .register)
      (named : DenotesRegister (Text.upper token) name) :
      Denotes .register token (.register name)

namespace OperandKind

theorem ofToken?_eq_immediate_iff (token : Text) :
    ofToken? token = some .immediate ↔ ∃ numeral, token = '#' :: numeral := by
  constructor
  · intro shape
    unfold ofToken? at shape
    split at shape
    · exact ⟨_, rfl⟩
    all_goals cases shape
  · intro facts
    rcases facts with ⟨numeral, rfl⟩
    rfl

theorem Denotes.shape {kind : OperandKind} {token : Text}
    {operand : Operand} (denotes : kind.Denotes token operand) :
    ofToken? token = some kind := by
  cases denotes with
  | immediate word => rfl
  | register shape named => exact shape

theorem parseImmediate_eq_ok_iff (token : Text) (value : UInt32) :
    parseImmediate token = .ok value ↔
      DenotesWord (Text.upper (withoutNumberSign token)) value := by
  rw [← readImmediate_eq_ok_iff, parseImmediate]
  cases readImmediate (Text.upper (withoutNumberSign token)) with
  | ok read => simp
  | error fault => cases fault <;> simp

theorem parseRegister_eq_ok_iff (token : Text) (name : UInt8) :
    parseRegister token = .ok name ↔
      DenotesRegister (Text.upper token) name := by
  rw [← readRegister?_eq_some_iff, parseRegister]
  cases readRegister? (Text.upper token) <;> simp

/-- The reader of a kind reads exactly what tokens of this kind denote. -/
theorem parse_eq_ok_iff {kind : OperandKind} {token : Text}
    (shape : ofToken? token = some kind) (operand : Operand) :
    kind.parse token = .ok operand ↔ kind.Denotes token operand := by
  cases kind with
  | immediate =>
      rcases (ofToken?_eq_immediate_iff token).mp shape with ⟨numeral, rfl⟩
      rw [parse, Text.map_eq_ok_iff]
      simp only [parseImmediate_eq_ok_iff, withoutNumberSign]
      constructor
      · intro facts
        rcases facts with ⟨value, word, rfl⟩
        exact .immediate word
      · intro denotes
        cases denotes with
        | immediate word => exact ⟨_, word, rfl⟩
  | register =>
      rw [parse, Text.map_eq_ok_iff]
      simp only [parseRegister_eq_ok_iff]
      constructor
      · intro facts
        rcases facts with ⟨name, named, rfl⟩
        exact .register shape named
      · intro denotes
        cases denotes with
        | register _ named => exact ⟨_, named, rfl⟩

end OperandKind

/-! ### Lines -/

namespace SourceLine

inductive Denotes : SourceLine → Instruction → Prop where
  | nop : Denotes ⟨"NOP".toList, []⟩ .nop
  | moveImmediate {source target : Text} {value : UInt32} {name : UInt8}
      (word : OperandKind.immediate.Denotes source (.immediate value))
      (named : OperandKind.register.Denotes target (.register name)) :
      Denotes ⟨"MOV.L".toList, [source, target]⟩ (.moveImmediate name value)
  | moveRegister {source target : Text} {sourceName name : UInt8}
      (sourceNamed :
        OperandKind.register.Denotes source (.register sourceName))
      (named : OperandKind.register.Denotes target (.register name)) :
      Denotes ⟨"MOV.L".toList, [source, target]⟩
        (.moveRegister sourceName name)
  | addImmediate {source target : Text} {value : UInt32} {name : UInt8}
      (word : OperandKind.immediate.Denotes source (.immediate value))
      (named : OperandKind.register.Denotes target (.register name)) :
      Denotes ⟨"ADD.L".toList, [source, target]⟩ (.addImmediate name value)

theorem hasForm_iff (line : SourceLine) (form : InstructionForm) :
    line.hasForm form = true ↔
      line.mnemonic = form.mnemonic ∧
        line.shapes = form.signature.map some := by
  rw [hasForm, Bool.and_eq_true, beq_iff_eq, beq_iff_eq]
  constructor
  · intro facts
    rcases facts with ⟨mnemonicEq, shapesEq⟩
    exact ⟨mnemonicEq.symm, shapesEq.symm⟩
  · intro facts
    rcases facts with ⟨mnemonicEq, shapesEq⟩
    exact ⟨mnemonicEq.symm, shapesEq.symm⟩

theorem exists_pair_of_shapes {line : SourceLine}
    {first second : OperandKind}
    (shapesEq : line.shapes = [some first, some second]) :
    ∃ source target, line.operands = [source, target] ∧
      OperandKind.ofToken? source = some first ∧
        OperandKind.ofToken? target = some second := by
  unfold shapes at shapesEq
  obtain ⟨source, rest, operandsEq, sourceShape, restEq⟩ :=
    List.map_eq_cons_iff.mp shapesEq
  obtain ⟨target, tail, rfl, targetShape, tailEq⟩ :=
    List.map_eq_cons_iff.mp restEq
  obtain rfl := List.map_eq_nil_iff.mp tailEq
  exact ⟨source, target, operandsEq, sourceShape, targetShape⟩

theorem parseOperands_pair {first second : OperandKind}
    {source target : Text}
    (sourceShape : OperandKind.ofToken? source = some first)
    (targetShape : OperandKind.ofToken? target = some second)
    (operands : List Operand) :
    parseOperands [first, second] [source, target] = .ok operands ↔
      ∃ left right, operands = [left, right] ∧
        first.Denotes source left ∧ second.Denotes target right := by
  simp only [← OperandKind.parse_eq_ok_iff sourceShape,
    ← OperandKind.parse_eq_ok_iff targetShape]
  simp only [parseOperands]
  cases first.parse source with
  | error cause => simp [bind, Except.bind]
  | ok left =>
      cases second.parse target with
      | error cause => simp [bind, Except.bind]
      | ok right =>
          simp [bind, Except.bind, pure, Except.pure, eq_comm]

theorem instruction_of_hasForm {line : SourceLine} {form : InstructionForm}
    (found : instructionForms.find? line.hasForm = some form)
    (instruction : Instruction) :
    line.instruction = .ok instruction ↔
      ∃ operands,
        parseOperands form.signature line.operands = .ok operands ∧
          form.build operands = some instruction := by
  rw [SourceLine.instruction, found]
  dsimp only
  cases parseOperands form.signature line.operands with
  | error cause => simp [bind, Except.bind]
  | ok operands =>
      simp only [bind, Except.bind, Except.ok.injEq, exists_eq_left']
      cases form.build operands with
      | none => simp [throw, throwThe, MonadExceptOf.throw]
      | some built => simp [pure, Except.pure]

theorem find?_hasForm {line : SourceLine} {form : InstructionForm}
    (member : form ∈ instructionForms)
    (written : line.hasForm form = true) :
    instructionForms.find? line.hasForm = some form := by
  rcases (hasForm_iff line form).mp written with ⟨mnemonicEq, shapesEq⟩
  simp only [instructionForms, List.mem_cons, List.not_mem_nil,
    or_false] at member
  rcases member with rfl | rfl | rfl | rfl
  all_goals
    simp only [instructionForms, List.find?, hasForm, mnemonicEq, shapesEq]
    rfl

theorem instruction_of_pair {form : InstructionForm}
    (member : form ∈ instructionForms) {first second : OperandKind}
    (signatureEq : form.signature = [first, second])
    {source target : Text} {left right : Operand}
    (leftDenotes : first.Denotes source left)
    (rightDenotes : second.Denotes target right)
    {instruction : Instruction}
    (built : form.build [left, right] = some instruction) :
    (SourceLine.mk form.mnemonic [source, target]).instruction =
      .ok instruction := by
  have written :
      (SourceLine.mk form.mnemonic [source, target]).hasForm form = true := by
    rw [hasForm_iff]
    simp [shapes, signatureEq, leftDenotes.shape, rightDenotes.shape]
  have found := find?_hasForm member written
  rw [instruction_of_hasForm found, signatureEq]
  exact ⟨_, (parseOperands_pair leftDenotes.shape rightDenotes.shape _).mpr
    ⟨_, _, rfl, leftDenotes, rightDenotes⟩, built⟩

/-- The table of forms takes exactly the lines that denote an instruction. -/
theorem instruction_eq_ok_iff (line : SourceLine)
    (instruction : Instruction) :
    line.instruction = .ok instruction ↔ line.Denotes instruction := by
  rcases line with ⟨mnemonic, operands⟩
  constructor
  · intro assembled
    cases found : instructionForms.find?
        (SourceLine.mk mnemonic operands).hasForm with
    | none =>
        rw [SourceLine.instruction, found] at assembled
        cases assembled
    | some form =>
        obtain ⟨values, parsed, built⟩ :=
          (instruction_of_hasForm found instruction).mp assembled
        obtain ⟨mnemonicEq, shapesEq⟩ :=
          (hasForm_iff _ form).mp (List.find?_some found)
        have member := List.mem_of_find?_eq_some found
        simp only [instructionForms, List.mem_cons, List.not_mem_nil,
          or_false] at member
        rcases member with rfl | rfl | rfl | rfl
        · obtain rfl : operands = [] := List.map_eq_nil_iff.mp shapesEq
          cases parsed
          cases built
          cases mnemonicEq
          exact .nop
        all_goals
          obtain ⟨source, target, rfl, sourceShape, targetShape⟩ :=
            exists_pair_of_shapes shapesEq
          obtain ⟨left, right, rfl, leftDenotes, rightDenotes⟩ :=
            (parseOperands_pair sourceShape targetShape values).mp parsed
          cases mnemonicEq
          cases leftDenotes
          cases rightDenotes
          cases built
        · exact .moveImmediate (.immediate ‹_›) (.register ‹_› ‹_›)
        · exact .moveRegister (.register ‹_› ‹_›) (.register ‹_› ‹_›)
        · exact .addImmediate (.immediate ‹_›) (.register ‹_› ‹_›)
  · intro denotes
    cases denotes with
    | nop => rfl
    | moveImmediate word named =>
        exact instruction_of_pair
          (List.getElem_mem (show 1 < instructionForms.length by decide))
          rfl word named rfl
    | moveRegister sourceNamed named =>
        exact instruction_of_pair
          (List.getElem_mem (show 2 < instructionForms.length by decide))
          rfl sourceNamed named rfl
    | addImmediate word named =>
        exact instruction_of_pair
          (List.getElem_mem (show 3 < instructionForms.length by decide))
          rfl word named rfl

theorem Denotes.isRecognized {line : SourceLine}
    {instruction : Instruction} (denotes : line.Denotes instruction) :
    instruction.isRecognized = true := by
  cases denotes <;> rfl

theorem Denotes.unique {line : SourceLine}
    {instruction other : Instruction} (denotes : line.Denotes instruction)
    (otherDenotes : line.Denotes other) : instruction = other := by
  have assembled := (instruction_eq_ok_iff line instruction).mpr denotes
  rw [(instruction_eq_ok_iff line other).mpr otherDenotes] at assembled
  exact (Except.ok.inj assembled).symm

end SourceLine

theorem DenotesRegister.toNat_le {text : Text} {name : UInt8}
    (denotes : DenotesRegister text name) : name.toNat ≤ 15 := by
  cases denotes with
  | stackPointer => decide
  | numbered numeral small =>
      have fits : _ < UInt8.size := Nat.lt_of_le_of_lt small (by decide)
      rw [UInt8.toNat_ofNat_of_lt' fits]
      exact small

theorem OperandKind.Denotes.lowNibble {token : Text} {name : UInt8}
    (denotes : OperandKind.register.Denotes token (.register name)) :
    RxBoard.lowNibble name = name := by
  cases denotes with
  | register shape named =>
      have small := named.toNat_le
      exact lowNibble_of_lt name (by omega)

/-- Registers are four bits wide in the grammar already. -/
theorem SourceLine.Denotes.masked {line : SourceLine}
    {instruction : Instruction} (denotes : line.Denotes instruction) :
    instruction.masked = instruction := by
  cases denotes with
  | nop => rfl
  | moveImmediate word named => rw [Instruction.masked, named.lowNibble]
  | moveRegister sourceNamed named =>
      rw [Instruction.masked, sourceNamed.lowNibble, named.lowNibble]
  | addImmediate word named => rw [Instruction.masked, named.lowNibble]

end RxBoard
