import Mathlib.Data.List.Nodup
import RxBoard.Proofs.Assembly.Lookup

/-!
An assembled text, accounted for byte by byte and line by line.

Every byte of the output lies in the range of one line, and the bytes of a range
are the encoding of its line.  Every line has a range, or has one error, or
holds no instruction (`Assembly.LineFate`); nothing is kept under other numbers.
-/

namespace RxBoard

/-- Whether ranges lead from one offset to another: none is empty, and each
starts where the one in front of it stops. -/
inductive OffsetRange.Tiles : Nat → List OffsetRange → Nat → Prop where
  | nil (offset : Nat) : Tiles offset [] offset
  | cons {start middle stop : Nat} {rest : List OffsetRange}
      (nonempty : start < middle) (tiles : Tiles middle rest stop) :
      Tiles start (⟨start, middle⟩ :: rest) stop

namespace OffsetRange.Tiles

variable {start stop : Nat} {ranges : List OffsetRange}

theorem start_le_stop (tiles : Tiles start ranges stop) :
    start ≤ stop := by
  induction tiles with
  | nil offset => exact Nat.le_refl offset
  | cons nonempty tiles inductionHypothesis => omega

theorem bounds (tiles : Tiles start ranges stop) :
    ∀ range ∈ ranges,
      start ≤ range.start ∧ range.start < range.stop ∧
        range.stop ≤ stop := by
  induction tiles with
  | nil offset => simp
  | cons nonempty tiles inductionHypothesis =>
      refine List.forall_mem_cons.mpr
        ⟨⟨Nat.le_refl _, nonempty, tiles.start_le_stop⟩, ?_⟩
      intro range member
      have behind := inductionHypothesis range member
      omega

theorem pairwise (tiles : Tiles start ranges stop) :
    ranges.Pairwise fun earlier later => earlier.stop ≤ later.start := by
  induction tiles with
  | nil offset => exact .nil
  | cons nonempty tiles inductionHypothesis =>
      refine .cons ?_ inductionHypothesis
      intro later member
      exact (tiles.bounds later member).1

theorem exists_contains (tiles : Tiles start ranges stop) {offset : Nat}
    (low : start ≤ offset) (high : offset < stop) :
    ∃ range ∈ ranges, range.contains offset = true := by
  induction tiles with
  | nil offset => omega
  | @cons start middle stop rest nonempty tiles inductionHypothesis =>
      by_cases inFirst : offset < middle
      · refine ⟨_, .head _, ?_⟩
        simp [contains, low, inFirst]
      · rcases inductionHypothesis (by omega) high with
          ⟨range, member, inside⟩
        exact ⟨range, .tail _ member, inside⟩

end OffsetRange.Tiles

open OffsetRange (Tiles)

/-- The line of a source text with a number, counted from one. -/
def numberedLine? (source : Text) : Nat → Option Text
  | 0 => none
  | index + 1 => (Text.lines source)[index]?

theorem numberedLine?_eq_some_iff (source : Text) (number : Nat)
    (text : Text) :
    numberedLine? source number = some text ↔
      1 ≤ number ∧ (Text.lines source)[number - 1]? = some text := by
  cases number with
  | zero => simp [numberedLine?]
  | succ index => simp [numberedLine?]

theorem numberedLine?_eq_none {source : Text} {number : Nat}
    (outside : number < 1 ∨ (Text.lines source).length < number) :
    numberedLine? source number = none := by
  cases number with
  | zero => rfl
  | succ index =>
      apply List.getElem?_eq_none
      omega

namespace EmittingLine

theorem tiles_mapFrom (emitting : List EmittingLine) (start : Nat) :
    Tiles start ((mapFrom start emitting).map SourceMapEntry.range)
      (start + (code emitting).length) := by
  induction emitting generalizing start with
  | nil => exact .nil start
  | cons entry rest inductionHypothesis =>
      have sizePositive :=
        List.length_pos_iff.mpr entry.instruction.encode_ne_nil
      have behind :=
        inductionHypothesis (start + entry.instruction.encode.length)
      rw [Nat.add_assoc, ← List.length_append] at behind
      exact .cons (Nat.lt_add_of_pos_right sizePositive) behind

theorem map_line_mapFrom (emitting : List EmittingLine) (start : Nat) :
    (mapFrom start emitting).map SourceMapEntry.line =
      emitting.map line := by
  induction emitting generalizing start with
  | nil => rfl
  | cons entry rest inductionHypothesis =>
      exact congrArg (entry.line :: ·) (inductionHypothesis _)

end EmittingLine

namespace Assembly

theorem tiles_sourceMap_ofText (source : Text) :
    Tiles 0
      ((ofText source).sourceMap.entries.map SourceMapEntry.range)
      (ofText source).bytes.length := by
  have tiles := EmittingLine.tiles_mapFrom (emittingLines source) 0
  rw [Nat.zero_add] at tiles
  rw [bytes_ofText, ofText, (ofLines_eq (Text.lines source) 1 0).2]
  exact tiles

theorem ordered_sourceMap_ofText (source : Text) :
    (ofText source).sourceMap.Ordered := by
  have tiles := tiles_sourceMap_ofText source
  constructor
  · intro entry member
    exact (tiles.bounds _ (List.mem_map_of_mem member)).2.1
  · exact List.pairwise_map.mp tiles.pairwise
  · have ascending :
        ((emittingLines source).map EmittingLine.line).Pairwise (· < ·) :=
      List.pairwise_map.mpr
        (pairwise_line_emittingFrom (Text.lines source) 1)
    rw [emittingLines, ← EmittingLine.map_line_mapFrom _ 0,
      ← (ofLines_eq (Text.lines source) 1 0).2] at ascending
    exact List.pairwise_map.mp ascending

def slice (assembly : Assembly) (range : OffsetRange) : List UInt8 :=
  (assembly.bytes.drop range.start).take (range.stop - range.start)

/-- Whether a source line encodes to the bytes in a range. -/
def Emits (assembly : Assembly) (text : Text) (range : OffsetRange) :
    Prop :=
  ∃ tokens, SourceLine.parse? text = some tokens ∧
    tokens.encode = .ok (assembly.slice range)

variable {source : Text} {index : Nat} {emitting : EmittingLine}

theorem slice_ofText
    (found : (emittingLines source)[index]? = some emitting) :
    (ofText source).slice
      ⟨EmittingLine.offset (emittingLines source) index,
        EmittingLine.offset (emittingLines source) (index + 1)⟩ =
      emitting.instruction.encode := by
  rw [slice, bytes_ofText, EmittingLine.code_of_getElem? found,
    EmittingLine.offset_succ found,
    Nat.add_sub_cancel_left, EmittingLine.offset, List.drop_left,
    List.take_left]

theorem emits_ofText
    (found : (emittingLines source)[index]? = some emitting) :
    (ofText source).Emits emitting.text
      ⟨EmittingLine.offset (emittingLines source) index,
        EmittingLine.offset (emittingLines source) (index + 1)⟩ := by
  rcases emitting.denotes with ⟨tokens, parsed, denotes⟩
  refine ⟨tokens, parsed, ?_⟩
  rw [slice_ofText found, SourceLine.encode,
    (tokens.instruction_eq_ok_iff _).mpr denotes]
  rfl

theorem exists_emitting_of_mem {entry : SourceMapEntry}
    (member : entry ∈ (ofText source).sourceMap.entries) :
    ∃ index emitting, (emittingLines source)[index]? = some emitting ∧
      entry = ⟨⟨EmittingLine.offset (emittingLines source) index,
        EmittingLine.offset (emittingLines source) (index + 1)⟩,
        emitting.line⟩ := by
  rcases List.getElem?_of_mem member with ⟨index, entryAt⟩
  rw [getElem?_sourceMap_ofText, Option.map_eq_some_iff] at entryAt
  rcases entryAt with ⟨emitting, found, rfl⟩
  exact ⟨index, emitting, found, rfl⟩

theorem exists_emitting_of_offset {offset : Nat}
    (inside : offset < (ofText source).bytes.length) :
    ∃ index emitting, (emittingLines source)[index]? = some emitting ∧
      EmittingLine.offset (emittingLines source) index ≤ offset ∧
      offset < EmittingLine.offset (emittingLines source) (index + 1) := by
  rcases (tiles_sourceMap_ofText source).exists_contains
    (Nat.zero_le offset) inside with ⟨range, rangeMember, contains⟩
  rcases List.mem_map.mp rangeMember with ⟨entry, member, rfl⟩
  rcases exists_emitting_of_mem member with
    ⟨index, emitting, found, rfl⟩
  simp only [OffsetRange.contains, Bool.and_eq_true, decide_eq_true_eq]
    at contains
  exact ⟨index, emitting, found, contains⟩

theorem searchLine?_eq_none_of_le {offset : Nat}
    (past : (ofText source).bytes.length ≤ offset) :
    (ofText source).sourceMap.searchLine? offset = none := by
  rw [(ordered_sourceMap_ofText source).searchLine?_eq_lineAt?,
    SourceMap.lineAt?, Option.map_eq_none_iff, List.find?_eq_none]
  intro entry member
  have bounds := (tiles_sourceMap_ofText source).bounds entry.range
    (List.mem_map_of_mem member)
  simp only [OffsetRange.contains, Bool.and_eq_true, decide_eq_true_eq]
  omega

theorem searchLine?_of_emits {offset : Nat}
    (found : (emittingLines source)[index]? = some emitting)
    (low : EmittingLine.offset (emittingLines source) index ≤ offset)
    (high : offset <
      EmittingLine.offset (emittingLines source) (index + 1)) :
    (ofText source).sourceMap.searchLine? offset = some emitting.line := by
  rw [(ordered_sourceMap_ofText source).searchLine?_eq_lineAt?]
  exact lineAt?_ofText found low high

theorem searchRange?_of_emits
    (found : (emittingLines source)[index]? = some emitting) :
    (ofText source).sourceMap.searchRange? emitting.line =
      some ⟨EmittingLine.offset (emittingLines source) index,
        EmittingLine.offset (emittingLines source) (index + 1)⟩ := by
  rw [(ordered_sourceMap_ofText source).searchRange?_eq_rangeOf?]
  exact rangeOf?_ofText found

theorem searchRange?_eq_none {number : Nat}
    (silent : ∀ text, numberedLine? source number = some text →
      ∀ instruction, ¬TextDenotes text instruction) :
    (ofText source).sourceMap.searchRange? number = none := by
  rw [(ordered_sourceMap_ofText source).searchRange?_eq_rangeOf?,
    SourceMap.rangeOf?, Option.map_eq_none_iff, List.find?_eq_none]
  intro entry member same
  rcases exists_emitting_of_mem member with
    ⟨index, emitting, found, rfl⟩
  have textAt := (mem_emittingLines_iff source emitting).mp
    (List.mem_of_getElem? found)
  obtain rfl : emitting.line = number := eq_of_beq same
  rw [← numberedLine?_eq_some_iff] at textAt
  exact silent emitting.text textAt emitting.instruction emitting.denotes

theorem mem_errors_ofText_iff (source : Text) (error : LineError) :
    error ∈ (ofText source).errors ↔
      ∃ text, numberedLine? source error.line = some text ∧
        (LineOutput.ofText text).cause? = some error.cause := by
  simp only [ofText, errors_ofLines, List.mem_filterMap,
    Option.map_eq_some_iff, List.mem_zipIdx_iff_le_and_getElem?_sub,
    numberedLine?_eq_some_iff]
  constructor
  · intro facts
    rcases facts with ⟨⟨text, number⟩, textAt, cause, fails, rfl⟩
    exact ⟨text, textAt, fails⟩
  · intro facts
    rcases facts with ⟨text, textAt, fails⟩
    exact ⟨(text, error.line), textAt, error.cause, fails, rfl⟩

theorem pairwise_line_errors (source : Text) :
    (ofText source).errors.Pairwise fun earlier later =>
      earlier.line < later.line := by
  have numbered : ((Text.lines source).zipIdx 1).Pairwise
      fun earlier later => earlier.2 < later.2 := by
    rw [← List.pairwise_map, List.zipIdx_map_snd]
    exact List.pairwise_lt_range'
  rw [ofText, errors_ofLines, List.pairwise_filterMap]
  apply numbered.imp
  intro earlier later ascending first firstEq second secondEq
  rcases Option.map_eq_some_iff.mp firstEq with ⟨_, _, rfl⟩
  rcases Option.map_eq_some_iff.mp secondEq with ⟨_, _, rfl⟩
  exact ascending

def errorsOn (assembly : Assembly) (line : Nat) : List LineError :=
  assembly.errors.filter fun error => error.line == line

theorem errorsOn_eq_nil {number : Nat}
    (sound : ∀ text, numberedLine? source number = some text →
      (LineOutput.ofText text).cause? = none) :
    (ofText source).errorsOn number = [] := by
  apply List.filter_eq_nil_iff.mpr
  intro error member same
  rcases (mem_errors_ofText_iff source error).mp member with
    ⟨text, textAt, fails⟩
  rw [eq_of_beq same] at textAt
  rw [sound text textAt] at fails
  cases fails

theorem errorsOn_eq_singleton {number : Nat} {text : Text}
    {cause : SourceError}
    (textAt : numberedLine? source number = some text)
    (fails : (LineOutput.ofText text).cause? = some cause) :
    (ofText source).errorsOn number = [⟨number, cause⟩] := by
  have member : (⟨number, cause⟩ : LineError) ∈ (ofText source).errors :=
    (mem_errors_ofText_iff source _).mpr ⟨text, textAt, fails⟩
  have nodup : (ofText source).errors.Nodup := by
    apply (pairwise_line_errors source).imp
    rintro earlier later ascending rfl
    exact Nat.lt_irrefl _ ascending
  -- On one line only one error can be listed, so the line selects it.
  have selects : ∀ error ∈ (ofText source).errors,
      (error.line == number) = (error == ⟨number, cause⟩) := by
    rintro ⟨line, other⟩ otherMember
    rcases (mem_errors_ofText_iff source _).mp otherMember with
      ⟨otherText, otherAt, otherFails⟩
    rw [Bool.eq_iff_iff, beq_iff_eq, beq_iff_eq]
    constructor
    · rintro rfl
      obtain rfl : otherText = text :=
        Option.some.inj (otherAt.symm.trans textAt)
      obtain rfl : other = cause :=
        Option.some.inj (otherFails.symm.trans fails)
      rfl
    · intro same
      exact congrArg LineError.line same
  rw [errorsOn, List.filter_congr selects, List.filter_beq,
    List.count_eq_one_of_mem nodup member]
  rfl

/-! ### Every line -/

inductive LineFate (assembly : Assembly) (number : Nat) (text : Text) :
    Prop where
  /-- A blank line or a comment. -/
  | skipped
      (blank : SourceLine.parse? text = none)
      (noRange : assembly.sourceMap.searchRange? number = none)
      (noErrors : assembly.errorsOn number = [])
  | emitted (range : OffsetRange)
      (rangeFound : assembly.sourceMap.searchRange? number = some range)
      (emits : assembly.Emits text range)
      (noErrors : assembly.errorsOn number = [])
  | failed (tokens : SourceLine) (cause : SourceError)
      (parsed : SourceLine.parse? text = some tokens)
      (fails : tokens.encode = .error cause)
      (noRange : assembly.sourceMap.searchRange? number = none)
      (oneError : assembly.errorsOn number = [⟨number, cause⟩])

section

variable {number : Nat} {text : Text}
  (textAt : numberedLine? source number = some text)

include textAt

theorem searchRange?_eq_none_of_silent
    (silent : ∀ instruction, ¬TextDenotes text instruction) :
    (ofText source).sourceMap.searchRange? number = none := by
  apply searchRange?_eq_none
  intro other otherAt
  obtain rfl := Option.some.inj (otherAt.symm.trans textAt)
  exact silent

theorem errorsOn_eq_nil_of_sound
    (sound : (LineOutput.ofText text).cause? = none) :
    (ofText source).errorsOn number = [] := by
  apply errorsOn_eq_nil
  intro other otherAt
  obtain rfl := Option.some.inj (otherAt.symm.trans textAt)
  exact sound

theorem lineFate_of_blank (blank : SourceLine.parse? text = none) :
    LineFate (ofText source) number text := by
  apply LineFate.skipped blank
  · apply searchRange?_eq_none_of_silent textAt
    rintro instruction ⟨tokens, parsed, -⟩
    cases blank.symm.trans parsed
  · apply errorsOn_eq_nil_of_sound textAt
    rw [LineOutput.ofText, blank]
    rfl

theorem lineFate_of_fails {tokens : SourceLine} {cause : SourceError}
    (parsed : SourceLine.parse? text = some tokens)
    (fails : tokens.instruction = .error cause) :
    LineFate (ofText source) number text := by
  apply LineFate.failed tokens cause parsed
  · rw [SourceLine.encode, fails]
    rfl
  · apply searchRange?_eq_none_of_silent textAt
    rintro instruction ⟨otherTokens, otherParsed, denotes⟩
    cases parsed.symm.trans otherParsed
    have denoted := (tokens.instruction_eq_ok_iff instruction).mpr denotes
    cases fails.symm.trans denoted
  · apply errorsOn_eq_singleton textAt
    rw [LineOutput.ofText_of_parse? parsed, fails]
    rfl

theorem lineFate_of_denotes {tokens : SourceLine}
    {instruction : Instruction}
    (parsed : SourceLine.parse? text = some tokens)
    (denotes : tokens.Denotes instruction) :
    LineFate (ofText source) number text := by
  have member :=
    (mem_emittingLines_iff source
      ⟨text, number, instruction, tokens, parsed, denotes⟩).mpr
      ((numberedLine?_eq_some_iff ..).mp textAt)
  rcases List.getElem?_of_mem member with ⟨index, found⟩
  apply LineFate.emitted _ (searchRange?_of_emits found)
    (emits_ofText found)
  apply errorsOn_eq_nil_of_sound textAt
  rw [LineOutput.ofText_of_parse? parsed,
    (tokens.instruction_eq_ok_iff instruction).mpr denotes]
  rfl

theorem lineFate_ofText : LineFate (ofText source) number text := by
  cases parsed : SourceLine.parse? text with
  | none => exact lineFate_of_blank textAt parsed
  | some tokens =>
      cases assembled : tokens.instruction with
      | error cause => exact lineFate_of_fails textAt parsed assembled
      | ok instruction =>
          apply lineFate_of_denotes textAt parsed
          exact (tokens.instruction_eq_ok_iff instruction).mp assembled

end

structure AccountsFor (assembly : Assembly) (source : Text) : Prop where
  tiles :
    Tiles 0 (assembly.sourceMap.entries.map SourceMapEntry.range)
      assembly.bytes.length
  offsets : ∀ offset, offset < assembly.bytes.length →
    ∃ line range text,
      assembly.sourceMap.searchLine? offset = some line ∧
        assembly.sourceMap.searchRange? line = some range ∧
        range.contains offset = true ∧
        numberedLine? source line = some text ∧
        assembly.Emits text range
  past : ∀ offset, assembly.bytes.length ≤ offset →
    assembly.sourceMap.searchLine? offset = none
  lines : ∀ number, 1 ≤ number → number ≤ (Text.lines source).length →
    ∃ text, numberedLine? source number = some text ∧
      LineFate assembly number text
  outside : ∀ number,
    number < 1 ∨ (Text.lines source).length < number →
      assembly.sourceMap.searchRange? number = none ∧
        assembly.errorsOn number = []
  ascending : assembly.errors.Pairwise fun earlier later =>
    earlier.line < later.line

theorem accountsFor_ofText (source : Text) :
    (ofText source).AccountsFor source where
  tiles := tiles_sourceMap_ofText source
  offsets := by
    intro offset inside
    rcases exists_emitting_of_offset inside with
      ⟨index, emitting, found, low, high⟩
    have textAt := (mem_emittingLines_iff source emitting).mp
      (List.mem_of_getElem? found)
    refine ⟨emitting.line, _, emitting.text,
      searchLine?_of_emits found low high, searchRange?_of_emits found, ?_,
      (numberedLine?_eq_some_iff ..).mpr textAt, emits_ofText found⟩
    simp [OffsetRange.contains, low, high]
  past := by
    intro offset past
    exact searchLine?_eq_none_of_le past
  lines := by
    intro number positive inside
    have textAt : numberedLine? source number =
        some (Text.lines source)[number - 1] :=
      (numberedLine?_eq_some_iff ..).mpr
        ⟨positive, List.getElem?_eq_getElem (by omega)⟩
    exact ⟨_, textAt, lineFate_ofText textAt⟩
  outside := by
    intro number outside
    have noLine := numberedLine?_eq_none outside
    constructor
    · apply searchRange?_eq_none
      intro text textAt
      cases noLine.symm.trans textAt
    · apply errorsOn_eq_nil
      intro text textAt
      cases noLine.symm.trans textAt
  ascending := pairwise_line_errors source

end Assembly

end RxBoard
