import Mathlib.Data.List.Basic
import Mathlib.Logic.Function.Basic
import RxBoard.Event
import RxBoard.Proofs.Text.Hexadecimal

/-!
The records of execution, and what can be told from them.

Three kinds of records come from execution: of a read from an address that
leads nowhere, of an instruction, and of a breakpoint.  Only those of
instructions are tagged with the program counter (`Record.taggedPc?`), and they
name what was executed: no two instructions and no two addresses have the same
record (`executionRecord_injective`).
-/

namespace RxBoard

namespace Text

theorem takeWhile_decimal_append (number : Nat) {rest : Text}
    (ends : rest.takeWhile Char.isDigit = []) :
    (decimal number ++ rest).takeWhile Char.isDigit = decimal number := by
  have digits : ∀ character ∈ decimal number,
      character.isDigit = true := by
    intro character member
    exact Nat.isDigit_of_mem_toDigits (by decide) (by decide) member
  rw [List.takeWhile_append_of_pos digits, ends, List.append_nil]

theorem decimal_injective : Function.Injective decimal := by
  intro number other same
  have sameNumber := congrArg (Nat.ofDigitChars 10 · 0) same
  unfold decimal at sameNumber
  simp only [Nat.ofDigitChars_toDigits (show 1 < 10 by decide)
    (Nat.le_refl 10)] at sameNumber
  exact sameNumber

/-- A number in text ends where the digits end. -/
theorem decimal_append_inj {number other : Nat} {rest otherRest : Text}
    (ends : rest.takeWhile Char.isDigit = [])
    (otherEnds : otherRest.takeWhile Char.isDigit = [])
    (same : decimal number ++ rest = decimal other ++ otherRest) :
    number = other ∧ rest = otherRest := by
  have sameDigits := congrArg (List.takeWhile Char.isDigit) same
  rw [takeWhile_decimal_append number ends,
    takeWhile_decimal_append other otherEnds] at sameDigits
  have sameNumber := decimal_injective sameDigits
  rw [sameNumber] at same
  exact ⟨sameNumber, List.append_cancel_left same⟩

end Text

namespace Instruction

theorem toList_number (front back : String) (number : Nat) :
    (front ++ toString number ++ back).toList =
      front.toList ++ (Text.decimal number ++ back.toList) := by
  simp only [String.toList_append, List.append_assoc,
    Nat.toString_eq_repr, Nat.toList_repr, Text.decimal]

theorem toList_numbers (front middle back : String)
    (first second : Nat) :
    (front ++ toString first ++ middle ++ toString second ++ back).toList =
      front.toList ++ (Text.decimal first ++
        (middle.toList ++ (Text.decimal second ++ back.toList))) := by
  simp only [String.toList_append, List.append_assoc,
    Nat.toString_eq_repr, Nat.toList_repr, Text.decimal]

theorem number_inj {front back : String} {number other : Nat}
    (ends : back.toList.takeWhile Char.isDigit = [])
    (same : front ++ toString number ++ back =
      front ++ toString other ++ back) :
    number = other := by
  have sameText := congrArg String.toList same
  rw [toList_number, toList_number] at sameText
  exact (Text.decimal_append_inj ends ends
    (List.append_cancel_left sameText)).1

theorem numbers_inj {front middle back : String}
    {first second otherFirst otherSecond : Nat}
    (firstEnds : ∀ rest,
      (middle.toList ++ rest).takeWhile Char.isDigit = [])
    (secondEnds : back.toList.takeWhile Char.isDigit = [])
    (same :
      front ++ toString first ++ middle ++ toString second ++ back =
        front ++ toString otherFirst ++ middle ++ toString otherSecond ++
          back) :
    first = otherFirst ∧ second = otherSecond := by
  have sameText := congrArg String.toList same
  rw [toList_numbers, toList_numbers] at sameText
  obtain ⟨firstEq, sameRest⟩ := Text.decimal_append_inj (firstEnds _)
    (firstEnds _) (List.append_cancel_left sameText)
  obtain ⟨secondEq, _⟩ := Text.decimal_append_inj secondEnds secondEnds
    (List.append_cancel_left sameRest)
  exact ⟨firstEq, secondEq⟩

def initials : Instruction → Text
  | nop => ['N', 'o', 'p']
  | moveImmediate _ _ => ['M', 'o', 'v', 'I']
  | moveRegister _ _ => ['M', 'o', 'v', 'R']
  | addImmediate _ _ => ['A', 'd', 'd', 'I']
  | unrecognized _ => ['U', 'n', 'r', 'e']

theorem take_description (instruction : Instruction) :
    instruction.description.toList.take 4 = instruction.initials := by
  cases instruction with
  | nop => rfl
  | unrecognized opcode =>
      exact congrArg (List.take 4) (toList_number ..)
  | _ => exact congrArg (List.take 4) (toList_numbers ..)

theorem description_injective : Function.Injective description := by
  intro instruction other same
  -- The initials settle the kind, and within a kind the numbers settle the
  -- operands.
  have sameInitials : instruction.initials = other.initials := by
    rw [← take_description, ← take_description, same]
  cases instruction with
  | nop =>
      cases other with
      | nop => rfl
      | _ => cases sameInitials
  | moveImmediate destination immediate =>
      cases other with
      | moveImmediate otherDestination otherImmediate =>
          obtain ⟨destinationEq, immediateEq⟩ :=
            numbers_inj (fun _ => rfl) rfl same
          rw [UInt8.toNat_inj.mp destinationEq,
            UInt32.toNat_inj.mp immediateEq]
      | _ => cases sameInitials
  | moveRegister source destination =>
      cases other with
      | moveRegister otherSource otherDestination =>
          obtain ⟨sourceEq, destinationEq⟩ :=
            numbers_inj (fun _ => rfl) rfl same
          rw [UInt8.toNat_inj.mp sourceEq,
            UInt8.toNat_inj.mp destinationEq]
      | _ => cases sameInitials
  | addImmediate destination immediate =>
      cases other with
      | addImmediate otherDestination otherImmediate =>
          obtain ⟨destinationEq, immediateEq⟩ :=
            numbers_inj (fun _ => rfl) rfl same
          rw [UInt8.toNat_inj.mp destinationEq,
            UInt32.toNat_inj.mp immediateEq]
      | _ => cases sameInitials
  | unrecognized opcode =>
      cases other with
      | unrecognized otherOpcode =>
          have opcodeEq := number_inj rfl same
          rw [UInt8.toNat_inj.mp opcodeEq]
      | _ => cases sameInitials

end Instruction

/-! ### The records of execution -/

def unmappedRecord (address : UInt32) : Record :=
  ⟨.trace, "read from unmapped address " ++ addressText address⟩

def breakpointRecord (pc : UInt32) : Record :=
  ⟨.debug, "breakpoint at " ++ addressText pc⟩

/-- The record of an instruction that is met at an address: a warning with the
text of the fault, or a trace of the address and the instruction. -/
def executionRecord (pc : UInt32) (instruction : Instruction) : Record :=
  match instruction with
  | .unrecognized opcode => ⟨.warn, Fault.message ⟨opcode, pc⟩⟩
  | recognized => ⟨.trace, addressText pc ++ ": " ++ recognized.description⟩

def Text.leadingAddress? (text : Text) : Option UInt32 :=
  if columns 0 1 text = ['0', 'x'] ∧ columns 10 11 text = [':', ' '] then
    readWord? (columns 2 9 text)
  else
    none

def Text.faultAddress? (text : Text) : Option UInt32 :=
  if columns 24 32 text = " at PC=0x".toList then
    readWord? (columns 33 40 text)
  else
    none

/-- The program counter that a record is tagged with.  Records of reads and of
breakpoints have addresses in other places, and no tag. -/
def Record.taggedPc? (record : Record) : Option UInt32 :=
  match record.level with
  | .trace => Text.leadingAddress? record.message.toList
  | .warn => Text.faultAddress? record.message.toList
  | .debug => none

def Record.isTagged (record : Record) : Bool :=
  record.taggedPc?.isSome

def Record.isWarning (record : Record) : Bool :=
  record.level = .warn

theorem toList_addressText (address : UInt32) :
    (addressText address).toList = "0x".toList ++ Text.hexWord address :=
  String.toList_append.trans
    (congrArg ("0x".toList ++ ·) String.toList_ofList)

theorem toList_byteText (byte : UInt8) :
    (byteText byte).toList = "0x".toList ++ Text.hexByte byte :=
  String.toList_append.trans
    (congrArg ("0x".toList ++ ·) String.toList_ofList)

namespace Text

theorem leadingAddress?_hexWord (address : UInt32) (back : Text) :
    leadingAddress?
        ("0x".toList ++ hexWord address ++ ": ".toList ++ back) =
      some address := by
  have lengthEq : (hexWord address).length = 8 :=
    length_hexadecimal 8 address.toNat
  have mark : columns 10 11
      ("0x".toList ++ hexWord address ++ ": ".toList ++ back) =
        [':', ' '] := by
    refine columns_append ?_ ?_ back
    · rw [List.length_append, lengthEq]
      rfl
    · rw [List.length_append, List.length_append, lengthEq]
      rfl
  have digits : columns 2 9
      ("0x".toList ++ hexWord address ++ ": ".toList ++ back) =
        hexWord address := by
    rw [List.append_assoc]
    refine columns_append (by decide) ?_ _
    rw [List.length_append, lengthEq]
    rfl
  rw [leadingAddress?, mark, digits, readWord?_hexWord]
  exact if_pos ⟨rfl, rfl⟩

theorem faultAddress?_hexWord (opcode : UInt8) (address : UInt32) :
    faultAddress?
        ("unrecognized opcode ".toList ++ ("0x".toList ++ hexByte opcode) ++
          " at PC=".toList ++ ("0x".toList ++ hexWord address)) =
      some address := by
  have byteLength : (hexByte opcode).length = 2 :=
    length_hexadecimal 2 opcode.toNat
  have wordLength : (hexWord address).length = 8 :=
    length_hexadecimal 8 address.toNat
  let front := "unrecognized opcode ".toList ++
    ("0x".toList ++ hexByte opcode)
  have frontLength : front.length = 24 := by
    rw [List.length_append, List.length_append, byteLength]
    rfl
  have textEq : front ++ " at PC=".toList ++
      ("0x".toList ++ hexWord address) =
        front ++ " at PC=0x".toList ++ hexWord address := by
    rw [List.append_assoc, List.append_assoc]
    rfl
  have mark : columns 24 32
      (front ++ " at PC=0x".toList ++ hexWord address) =
        " at PC=0x".toList := by
    refine columns_append frontLength ?_ _
    rw [List.length_append, frontLength]
    rfl
  have digits : columns 33 40
      (front ++ " at PC=0x".toList ++ hexWord address) =
        hexWord address := by
    rw [← List.append_nil (front ++ " at PC=0x".toList ++ hexWord address)]
    refine columns_append ?_ ?_ []
    · rw [List.length_append, frontLength]
      rfl
    · rw [List.length_append, List.length_append, frontLength, wordLength]
      rfl
  rw [textEq, faultAddress?, mark, digits, readWord?_hexWord]
  exact if_pos rfl

theorem hexByte_injective : Function.Injective hexByte := by
  intro byte other same
  have sameBytes := congrArg readBytes? same
  rw [readBytes?_hexByte, readBytes?_hexByte] at sameBytes
  exact List.singleton_inj.mp (Option.some.inj sameBytes)

end Text

theorem Fault.toList_message (fault : Fault) :
    fault.message.toList =
      "unrecognized opcode ".toList ++
          ("0x".toList ++ Text.hexByte fault.opcode) ++
        " at PC=".toList ++ ("0x".toList ++ Text.hexWord fault.pc) := by
  unfold message
  rw [String.toList_append, String.toList_append, String.toList_append,
    toList_byteText, toList_addressText]

theorem Fault.opcode_eq_of_message {pc : UInt32} {opcode other : UInt8}
    (same : message ⟨opcode, pc⟩ = message ⟨other, pc⟩) :
    opcode = other := by
  have sameText := congrArg String.toList same
  rw [toList_message, toList_message] at sameText
  have sameByte := List.append_cancel_right
    (List.append_cancel_right sameText)
  exact Text.hexByte_injective
    (List.append_cancel_left (List.append_cancel_left sameByte))

theorem taggedPc?_unmappedRecord (address : UInt32) :
    (unmappedRecord address).taggedPc? = none := by
  have textEq : (unmappedRecord address).message.toList =
      "read from unmapped address ".toList ++
        (addressText address).toList :=
    String.toList_append
  have front : Text.columns 0 1
      ("read from unmapped address ".toList ++
        (addressText address).toList) = ['r', 'e'] :=
    rfl
  change Text.leadingAddress? _ = none
  rw [textEq, Text.leadingAddress?, front]
  exact if_neg fun tagged => absurd tagged.1 (by decide)

theorem isTagged_unmappedRecord (address : UInt32) :
    (unmappedRecord address).isTagged = false := by
  rw [Record.isTagged, taggedPc?_unmappedRecord]
  rfl

theorem taggedPc?_executionRecord (pc : UInt32)
    (instruction : Instruction) :
    (executionRecord pc instruction).taggedPc? = some pc := by
  have traced (description : String) :
      Text.leadingAddress?
          (addressText pc ++ ": " ++ description).toList = some pc := by
    rw [String.toList_append, String.toList_append, toList_addressText]
    exact Text.leadingAddress?_hexWord pc description.toList
  cases instruction with
  | unrecognized opcode =>
      change Text.faultAddress? (Fault.message ⟨opcode, pc⟩).toList = _
      rw [Fault.toList_message]
      exact Text.faultAddress?_hexWord opcode pc
  | _ => exact traced _

theorem isTagged_executionRecord (pc : UInt32)
    (instruction : Instruction) :
    (executionRecord pc instruction).isTagged = true := by
  rw [Record.isTagged, taggedPc?_executionRecord]
  rfl

/-- The tags of a log are those of its tagged records. -/
theorem filterMap_taggedPc? (log : List Record) :
    log.filterMap Record.taggedPc? =
      (log.filter Record.isTagged).filterMap Record.taggedPc? := by
  rw [List.filterMap_filter]
  refine List.filterMap_congr fun record _ => ?_
  unfold Record.isTagged
  cases record.taggedPc? <;> rfl

theorem executionRecord_injective :
    Function.Injective2 executionRecord := by
  intro pc otherPc instruction other same
  have pcEq : pc = otherPc := by
    have samePc := congrArg Record.taggedPc? same
    rw [taggedPc?_executionRecord, taggedPc?_executionRecord] at samePc
    exact Option.some.inj samePc
  refine ⟨pcEq, ?_⟩
  rw [pcEq] at same
  have sameMessage := congrArg Record.message same
  cases instruction with
  | unrecognized opcode =>
      cases other with
      | unrecognized otherOpcode =>
          have opcodeEq := Fault.opcode_eq_of_message sameMessage
          exact congrArg Instruction.unrecognized opcodeEq
      | _ => cases congrArg Record.level same
  | _ =>
      cases other with
      | unrecognized otherOpcode => cases congrArg Record.level same
      | _ =>
          exact Instruction.description_injective
            ((String.append_right_inj _).mp sameMessage)

end RxBoard
