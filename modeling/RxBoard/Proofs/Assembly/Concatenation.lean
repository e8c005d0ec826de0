import RxBoard.Assembly.Basic
import RxBoard.Proofs.Text.Lines

/-!
Texts put one below the other.

Each line is assembled on its own, so two texts with a line feed between them
assemble to what both assemble to: the second part only stands further on, in
lines and in bytes.
-/

namespace RxBoard

def LineError.below (lines : Nat) (error : LineError) : LineError :=
  { error with line := error.line + lines }

def OffsetRange.behind (bytes : Nat) (range : OffsetRange) : OffsetRange :=
  ⟨range.start + bytes, range.stop + bytes⟩

def SourceMapEntry.further (lines bytes : Nat) (entry : SourceMapEntry) :
    SourceMapEntry :=
  ⟨entry.range.behind bytes, entry.line + lines⟩

/-- White space around a line makes no difference. -/
theorem LineOutput.ofText_congr {text other : Text}
    (same : Text.trim text = Text.trim other) :
    ofText text = ofText other := by
  unfold ofText SourceLine.parse?
  rw [same]

namespace Assembly

/-- The assembly of a text that stands some lines and bytes further on. -/
def further (lines bytes : Nat) (assembly : Assembly) : Assembly where
  bytes := assembly.bytes
  errors := assembly.errors.map (LineError.below lines)
  sourceMap :=
    ⟨assembly.sourceMap.entries.map (SourceMapEntry.further lines bytes)⟩

protected def append (first second : Assembly) : Assembly where
  bytes := first.bytes ++ second.bytes
  errors := first.errors ++ second.errors
  sourceMap := ⟨first.sourceMap.entries ++ second.sourceMap.entries⟩

theorem ofLines_further (texts : List Text) (line offset lines bytes : Nat) :
    ofLines (line + lines) (offset + bytes) texts =
      (ofLines line offset texts).further lines bytes := by
  induction texts generalizing line offset with
  | nil => rfl
  | cons text rest inductionHypothesis =>
      have nextLine : line + lines + 1 = line + 1 + lines := by omega
      rw [ofLines, ofLines, nextLine]
      cases LineOutput.ofText text with
      | skipped => exact inductionHypothesis (line + 1) offset
      | failed cause =>
          dsimp only
          rw [inductionHypothesis (line + 1) offset]
          rfl
      | code code =>
          have nextOffset : offset + bytes + code.length =
              offset + code.length + bytes := by
            omega
          dsimp only
          rw [nextOffset, inductionHypothesis (line + 1)
            (offset + code.length), consCode, nextOffset]
          rfl

theorem ofLines_append (texts others : List Text) (line offset : Nat) :
    ofLines line offset (texts ++ others) =
      let earlier := ofLines line offset texts
      earlier.append (ofLines (line + texts.length)
        (offset + earlier.bytes.length) others) := by
  induction texts generalizing line offset with
  | nil => rfl
  | cons text rest inductionHypothesis =>
      have behind : line + (rest.length + 1) = line + 1 + rest.length := by
        omega
      rw [List.cons_append, ofLines, ofLines, List.length_cons, behind]
      cases LineOutput.ofText text with
      | skipped => exact inductionHypothesis (line + 1) offset
      | failed cause =>
          dsimp only
          rw [inductionHypothesis (line + 1) offset]
          rfl
      | code code =>
          dsimp only
          rw [inductionHypothesis (line + 1) (offset + code.length)]
          simp only [consCode, Assembly.append, List.length_append,
            List.append_assoc, List.cons_append, Nat.add_assoc]

/-- A line feed at the end of a text adds nothing to its assembly: it takes a
carriage return off the last line, or puts an empty line behind it. -/
theorem ofLines_lineFeed (text : Text) (line offset : Nat) :
    ofLines line offset (Text.lines (text ++ ['\n'])) =
      ofLines line offset (Text.lines text) := by
  induction text using Text.line_induction generalizing line offset with
  | last single oneLine =>
      rw [Text.lines_append_cons oneLine]
      -- Without the line feed, an empty text has no line at all.
      by_cases isEmpty : single = []
      · rw [isEmpty]
        rfl
      · have same := LineOutput.ofText_congr (Text.trim_withoutReturn single)
        rw [Text.lines_of_one oneLine isEmpty, ofLines, ofLines, same]
        rfl
  | more single rest oneLine inductionHypothesis =>
      rw [List.append_assoc, List.cons_append,
        Text.lines_append_cons oneLine, Text.lines_append_cons oneLine,
        ofLines, ofLines]
      simp only [inductionHypothesis]

/-- Two texts with a line feed between them assemble to the bytes, errors and
source map of the first, followed by those of the second: its lines count on
from those of the first, and its offsets from the bytes of the first. -/
theorem ofText_append_lineFeed (first second : Text) :
    let earlier := ofText first
    let later := ofText second
    let joined := ofText (first ++ '\n' :: second)
    let lines := first.count '\n' + 1
    joined.bytes = earlier.bytes ++ later.bytes ∧
      joined.errors =
        earlier.errors ++ later.errors.map (LineError.below lines) ∧
      joined.sourceMap.entries =
        earlier.sourceMap.entries ++
          later.sourceMap.entries.map
            (SourceMapEntry.further lines earlier.bytes.length) := by
  intro earlier later joined lines
  have joinedEq :
      joined = earlier.append (later.further lines earlier.bytes.length) := by
    have split := ofLines_append (Text.lines (first ++ ['\n']))
      (Text.lines second) 1 0
    rw [← Text.lines_append_lineFeed, ofLines_lineFeed,
      Text.length_lines_lineFeed] at split
    exact split.trans (congrArg earlier.append
      (ofLines_further (Text.lines second) 1 0 lines earlier.bytes.length))
  rw [joinedEq]
  exact ⟨rfl, rfl, rfl⟩

end Assembly

end RxBoard
