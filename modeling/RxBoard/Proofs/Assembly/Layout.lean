import RxBoard.Proofs.Assembly.Denotation

/-!
Layout of an assembled text.

The lines that emit code are kept with the instructions that they denote.  The
output is the encodings of these instructions one after another, whatever
stands on the lines in between, and the source map holds the range of each.
-/

namespace RxBoard

/-- Whether a source line, cut into tokens, stands for an instruction. -/
def TextDenotes (text : Text) (instruction : Instruction) : Prop :=
  ∃ tokens, SourceLine.parse? text = some tokens ∧
    tokens.Denotes instruction

structure EmittingLine where
  text : Text
  line : Nat
  instruction : Instruction
  denotes : TextDenotes text instruction

namespace EmittingLine

/-- The line with a text and a number, if it emits code. -/
def ofText? (text : Text) (line : Nat) : Option EmittingLine :=
  match parsed : SourceLine.parse? text with
  | none => none
  | some tokens =>
      match assembled : tokens.instruction with
      | .error _ => none
      | .ok instruction =>
          some ⟨text, line, instruction, tokens, parsed,
            (tokens.instruction_eq_ok_iff instruction).mp assembled⟩

def code (emitting : List EmittingLine) : List UInt8 :=
  emitting.flatMap fun entry => entry.instruction.encode

/-- The offset of an emitting line in the code, by its position. -/
def offset (emitting : List EmittingLine) (index : Nat) : Nat :=
  (code (emitting.take index)).length

end EmittingLine

def emittingFrom (line : Nat) (texts : List Text) : List EmittingLine :=
  (texts.zipIdx line).filterMap fun entry =>
    EmittingLine.ofText? entry.1 entry.2

def emittingLines (source : Text) : List EmittingLine :=
  emittingFrom 1 (Text.lines source)

theorem LineOutput.ofText_of_parse? {text : Text} {tokens : SourceLine}
    (parsed : SourceLine.parse? text = some tokens) :
    LineOutput.ofText text =
      match tokens.instruction with
      | .ok instruction => .code instruction.encode
      | .error cause => .failed cause := by
  simp only [LineOutput.ofText, parsed, SourceLine.encode]
  cases tokens.instruction <;> rfl

/-- A line emits code if it denotes an instruction, and only then. -/
theorem LineOutput.ofText_eq_code_iff (text : Text)
    (bytes : List UInt8) :
    LineOutput.ofText text = .code bytes ↔
      ∃ instruction, TextDenotes text instruction ∧
        instruction.encode = bytes := by
  constructor
  · intro emits
    cases parsed : SourceLine.parse? text with
    | none =>
        rw [LineOutput.ofText, parsed] at emits
        cases emits
    | some tokens =>
        rw [LineOutput.ofText_of_parse? parsed] at emits
        cases assembled : tokens.instruction with
        | error cause =>
            rw [assembled] at emits
            cases emits
        | ok instruction =>
            rw [assembled] at emits
            have denotes :=
              (tokens.instruction_eq_ok_iff instruction).mp assembled
            exact ⟨instruction, ⟨tokens, parsed, denotes⟩,
              LineOutput.code.inj emits⟩
  · intro facts
    rcases facts with ⟨instruction, ⟨tokens, parsed, denotes⟩, rfl⟩
    rw [LineOutput.ofText_of_parse? parsed,
      (tokens.instruction_eq_ok_iff instruction).mpr denotes]

theorem EmittingLine.ofText?_eq_some_iff (text : Text) (line : Nat)
    (entry : EmittingLine) :
    EmittingLine.ofText? text line = some entry ↔
      entry.text = text ∧ entry.line = line := by
  constructor
  · intro found
    unfold EmittingLine.ofText? at found
    split at found
    · cases found
    · split at found
      · cases found
      · cases found
        exact ⟨rfl, rfl⟩
  · intro facts
    rcases facts with ⟨rfl, rfl⟩
    rcases entry with ⟨text, line, instruction, tokens, parsed, denotes⟩
    have assembled :=
      (tokens.instruction_eq_ok_iff instruction).mpr denotes
    unfold EmittingLine.ofText?
    split
    · rename_i skipped
      cases skipped.symm.trans parsed
    · rename_i other otherParsed
      cases otherParsed.symm.trans parsed
      split
      · rename_i cause failed
        cases failed.symm.trans assembled
      · rename_i otherInstruction otherAssembled
        cases otherAssembled.symm.trans assembled
        rfl

theorem EmittingLine.ofText?_eq_none {text : Text} (line : Nat)
    (silent : ∀ bytes, LineOutput.ofText text ≠ .code bytes) :
    EmittingLine.ofText? text line = none := by
  cases found : EmittingLine.ofText? text line with
  | none => rfl
  | some entry =>
      rcases (ofText?_eq_some_iff text line entry).mp found with ⟨rfl, _⟩
      have emits := (LineOutput.ofText_eq_code_iff entry.text _).mpr
        ⟨entry.instruction, entry.denotes, rfl⟩
      exact absurd emits (silent _)

theorem EmittingLine.exists_ofText? {text : Text} (line : Nat)
    {bytes : List UInt8} (emits : LineOutput.ofText text = .code bytes) :
    ∃ entry, EmittingLine.ofText? text line = some entry ∧
      entry.line = line ∧ entry.instruction.encode = bytes := by
  obtain ⟨instruction, denotes, encodeEq⟩ :=
    (LineOutput.ofText_eq_code_iff text bytes).mp emits
  exact ⟨⟨text, line, instruction, denotes⟩,
    (ofText?_eq_some_iff text line _).mpr ⟨rfl, rfl⟩, rfl, encodeEq⟩

def LineOutput.bytes : LineOutput → List UInt8
  | code bytes => bytes
  | _ => []

def LineOutput.cause? : LineOutput → Option SourceError
  | failed cause => some cause
  | _ => none

theorem Assembly.bytes_ofLines (texts : List Text) (line offset : Nat) :
    (Assembly.ofLines line offset texts).bytes =
      texts.flatMap fun text => (LineOutput.ofText text).bytes := by
  induction texts generalizing line offset with
  | nil => rfl
  | cons text rest inductionHypothesis =>
      rw [Assembly.ofLines, List.flatMap_cons]
      cases LineOutput.ofText text with
      | skipped => exact inductionHypothesis (line + 1) offset
      | failed cause => exact inductionHypothesis (line + 1) offset
      | code bytes =>
          exact congrArg (bytes ++ ·)
            (inductionHypothesis (line + 1) (offset + bytes.length))

/-- Each line that fails leaves its error, whatever the other lines do. -/
theorem Assembly.errors_ofLines (texts : List Text) (line offset : Nat) :
    (Assembly.ofLines line offset texts).errors =
      (texts.zipIdx line).filterMap fun entry =>
        (LineOutput.ofText entry.1).cause?.map (LineError.mk entry.2) := by
  induction texts generalizing line offset with
  | nil => rfl
  | cons text rest inductionHypothesis =>
      rw [Assembly.ofLines, List.zipIdx_cons, List.filterMap_cons]
      cases LineOutput.ofText text with
      | skipped => exact inductionHypothesis (line + 1) offset
      | failed cause =>
          exact congrArg (LineError.mk line cause :: ·)
            (inductionHypothesis (line + 1) offset)
      | code bytes =>
          exact inductionHypothesis (line + 1) (offset + bytes.length)

theorem emittingFrom_cons (line : Nat) (text : Text) (rest : List Text) :
    emittingFrom line (text :: rest) =
      match EmittingLine.ofText? text line with
      | none => emittingFrom (line + 1) rest
      | some entry => entry :: emittingFrom (line + 1) rest := by
  rw [emittingFrom, List.zipIdx_cons, List.filterMap_cons]
  cases EmittingLine.ofText? text line <;> rfl

/-- The source map of emitting lines whose code starts at an offset. -/
def EmittingLine.mapFrom (offset : Nat) :
    List EmittingLine → List SourceMapEntry
  | [] => []
  | entry :: rest =>
      let stop := offset + entry.instruction.encode.length
      ⟨⟨offset, stop⟩, entry.line⟩ :: mapFrom stop rest

/-- Only emitting lines matter for code and source map. -/
theorem Assembly.ofLines_eq (texts : List Text) (line offset : Nat) :
    (Assembly.ofLines line offset texts).bytes =
        EmittingLine.code (emittingFrom line texts) ∧
      (Assembly.ofLines line offset texts).sourceMap.entries =
        EmittingLine.mapFrom offset (emittingFrom line texts) := by
  induction texts generalizing line offset with
  | nil => exact ⟨rfl, rfl⟩
  | cons text rest inductionHypothesis =>
      rw [emittingFrom_cons, Assembly.ofLines]
      cases output : LineOutput.ofText text with
      | skipped =>
          rw [EmittingLine.ofText?_eq_none line (by simp [output])]
          exact inductionHypothesis (line + 1) offset
      | failed cause =>
          rw [EmittingLine.ofText?_eq_none line (by simp [output])]
          exact inductionHypothesis (line + 1) offset
      | code bytes =>
          -- The only case in which the offset moves.
          obtain ⟨entry, entryEq, lineEq, bytesEq⟩ :=
            EmittingLine.exists_ofText? line output
          obtain ⟨restBytes, restMap⟩ :=
            inductionHypothesis (line + 1) (offset + bytes.length)
          rw [entryEq]
          constructor
          · simp [Assembly.consCode, EmittingLine.code, bytesEq, restBytes]
          · simp [Assembly.consCode, EmittingLine.mapFrom, bytesEq, lineEq,
              restMap]

theorem mem_emittingFrom_iff (texts : List Text) (line : Nat)
    (entry : EmittingLine) :
    entry ∈ emittingFrom line texts ↔
      line ≤ entry.line ∧
        texts[entry.line - line]? = some entry.text := by
  unfold emittingFrom
  simp only [List.mem_filterMap, EmittingLine.ofText?_eq_some_iff,
    List.mem_zipIdx_iff_le_and_getElem?_sub]
  constructor
  · intro facts
    rcases facts with ⟨⟨text, number⟩, numbered, rfl, rfl⟩
    exact numbered
  · intro numbered
    exact ⟨(entry.text, entry.line), numbered, rfl, rfl⟩

/-- The lines that emit code are those of the source that denote an
instruction. -/
theorem mem_emittingLines_iff (source : Text) (entry : EmittingLine) :
    entry ∈ emittingLines source ↔
      1 ≤ entry.line ∧
        (Text.lines source)[entry.line - 1]? = some entry.text :=
  mem_emittingFrom_iff (Text.lines source) 1 entry

theorem pairwise_line_emittingFrom (texts : List Text) (line : Nat) :
    (emittingFrom line texts).Pairwise fun earlier later =>
      earlier.line < later.line := by
  induction texts generalizing line with
  | nil => exact .nil
  | cons text rest inductionHypothesis =>
      rw [emittingFrom_cons]
      cases emits : EmittingLine.ofText? text line with
      | none => exact inductionHypothesis (line + 1)
      | some entry =>
          refine .cons ?_ (inductionHypothesis (line + 1))
          intro later member
          rw [((EmittingLine.ofText?_eq_some_iff ..).mp emits).2]
          exact ((mem_emittingFrom_iff ..).mp member).1

namespace EmittingLine

theorem code_append (first second : List EmittingLine) :
    code (first ++ second) = code first ++ code second :=
  List.flatMap_append

theorem code_of_getElem? {emitting : List EmittingLine} {index : Nat}
    {entry : EmittingLine} (found : emitting[index]? = some entry) :
    code emitting =
      code (emitting.take index) ++
        (entry.instruction.encode ++ code (emitting.drop (index + 1))) := by
  rcases List.getElem?_eq_some_iff.mp found with ⟨inside, rfl⟩
  conv_lhs => rw [← List.take_append_drop index emitting]
  rw [code_append, List.drop_eq_getElem_cons inside]
  rfl

theorem flatMap_encode_instructions (emitting : List EmittingLine) :
    (emitting.map instruction).flatMap Instruction.encode =
      code emitting := by
  rw [List.flatMap_map, code]

theorem offset_cons_succ (entry : EmittingLine) (rest : List EmittingLine)
    (index : Nat) :
    offset (entry :: rest) (index + 1) =
      entry.instruction.encode.length + offset rest index := by
  simp [offset, code]

theorem offset_mono (emitting : List EmittingLine) {earlier later : Nat}
    (ordered : earlier ≤ later) :
    offset emitting earlier ≤ offset emitting later := by
  rcases Nat.exists_eq_add_of_le ordered with ⟨distance, rfl⟩
  rw [offset, offset, List.take_add, code_append, List.length_append]
  exact Nat.le_add_right _ _

theorem offset_succ {emitting : List EmittingLine} {index : Nat}
    {entry : EmittingLine} (found : emitting[index]? = some entry) :
    offset emitting (index + 1) =
      offset emitting index + entry.instruction.encode.length := by
  rw [offset, List.take_add_one, found, code_append, List.length_append]
  simp [offset, code]

theorem offset_lt_succ {emitting : List EmittingLine} {index : Nat}
    {entry : EmittingLine} (found : emitting[index]? = some entry) :
    offset emitting index < offset emitting (index + 1) := by
  have sizePositive :=
    List.length_pos_iff.mpr entry.instruction.encode_ne_nil
  rw [offset_succ found]
  exact Nat.lt_add_of_pos_right sizePositive

theorem offset_le_length (emitting : List EmittingLine) (index : Nat) :
    offset emitting index ≤ (code emitting).length := by
  have parts := code_append (emitting.take index) (emitting.drop index)
  rw [List.take_append_drop] at parts
  rw [parts, List.length_append]
  exact Nat.le_add_right _ _

theorem length_mapFrom (emitting : List EmittingLine) (start : Nat) :
    (mapFrom start emitting).length = emitting.length := by
  induction emitting generalizing start with
  | nil => rfl
  | cons entry rest inductionHypothesis =>
      simp [mapFrom, inductionHypothesis]

theorem getElem?_mapFrom (emitting : List EmittingLine) (start index : Nat) :
    (mapFrom start emitting)[index]? =
      emitting[index]?.map fun entry =>
        ⟨⟨start + offset emitting index,
          start + offset emitting (index + 1)⟩, entry.line⟩ := by
  induction emitting generalizing start index with
  | nil => rfl
  | cons entry rest inductionHypothesis =>
      cases index with
      | zero => simp [mapFrom, offset, code]
      | succ index =>
          simp only [mapFrom, List.getElem?_cons_succ, offset_cons_succ,
            inductionHypothesis, Nat.add_assoc]

end EmittingLine

/-! ### Looking up the source map -/

theorem find?_of_getElem? {α : Type} {items : List α} {index : Nat}
    {item : α} (test : α → Bool) (found : items[index]? = some item)
    (hit : test item = true)
    (misses : ∀ earlier other, earlier < index →
      items[earlier]? = some other → test other = false) :
    items.find? test = some item := by
  rcases List.getElem?_eq_some_iff.mp found with ⟨inside, rfl⟩
  refine List.find?_eq_some_iff_getElem.mpr
    ⟨hit, index, inside, rfl, ?_⟩
  intro earlier before
  rw [misses earlier _ before (List.getElem?_eq_getElem _)]
  rfl

namespace Assembly

theorem bytes_ofText (source : Text) :
    (ofText source).bytes = EmittingLine.code (emittingLines source) :=
  (ofLines_eq (Text.lines source) 1 0).1

theorem getElem?_sourceMap_ofText (source : Text) (index : Nat) :
    (ofText source).sourceMap.entries[index]? =
      (emittingLines source)[index]?.map fun entry =>
        ⟨⟨EmittingLine.offset (emittingLines source) index,
          EmittingLine.offset (emittingLines source) (index + 1)⟩,
          entry.line⟩ := by
  unfold ofText
  rw [(ofLines_eq (Text.lines source) 1 0).2,
    EmittingLine.getElem?_mapFrom]
  simp [emittingLines]

theorem size_sourceMap_ofText (source : Text) :
    (ofText source).sourceMap.size = (emittingLines source).length := by
  rw [SourceMap.size, ofText, (ofLines_eq (Text.lines source) 1 0).2,
    EmittingLine.length_mapFrom]
  rfl

theorem rangeOf?_ofText {source : Text} {index : Nat}
    {entry : EmittingLine}
    (found : (emittingLines source)[index]? = some entry) :
    (ofText source).sourceMap.rangeOf? entry.line =
      some ⟨EmittingLine.offset (emittingLines source) index,
        EmittingLine.offset (emittingLines source) (index + 1)⟩ := by
  have entryAt := getElem?_sourceMap_ofText source index
  rw [found, Option.map_some] at entryAt
  rw [SourceMap.rangeOf?, find?_of_getElem? _ entryAt]
  · rfl
  · simp
  · intro earlier other before otherAt
    rw [getElem?_sourceMap_ofText, Option.map_eq_some_iff] at otherAt
    rcases otherAt with ⟨earlierEntry, earlierAt, rfl⟩
    rcases List.getElem?_eq_some_iff.mp earlierAt with ⟨earlierInside, rfl⟩
    rcases List.getElem?_eq_some_iff.mp found with ⟨inside, rfl⟩
    have ascending := List.pairwise_iff_getElem.mp
      (pairwise_line_emittingFrom (Text.lines source) 1)
      earlier index earlierInside inside before
    exact beq_false_of_ne (Nat.ne_of_lt ascending)

theorem lineAt?_ofText {source : Text} {index position : Nat}
    {entry : EmittingLine}
    (found : (emittingLines source)[index]? = some entry)
    (low : EmittingLine.offset (emittingLines source) index ≤ position)
    (high : position <
      EmittingLine.offset (emittingLines source) (index + 1)) :
    (ofText source).sourceMap.lineAt? position = some entry.line := by
  have entryAt := getElem?_sourceMap_ofText source index
  rw [found, Option.map_some] at entryAt
  rw [SourceMap.lineAt?, find?_of_getElem? _ entryAt]
  · rfl
  · simp [OffsetRange.contains, low, high]
  · intro earlier other before otherAt
    rw [getElem?_sourceMap_ofText, Option.map_eq_some_iff] at otherAt
    rcases otherAt with ⟨_, _, rfl⟩
    have past := EmittingLine.offset_mono (emittingLines source)
      (show earlier + 1 ≤ index from before)
    simp only [OffsetRange.contains, Bool.and_eq_false_iff,
      decide_eq_false_iff_not]
    omega

end Assembly

end RxBoard
