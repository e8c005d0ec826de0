/-!
Which source line each byte of the output came from.

Ranges stand in the order of their offsets and do not overlap, and the numbers
of their lines ascend.  So an entry can be found by halving; `lineAt?` and
`rangeOf?` say which entry it is.

Offsets are natural numbers for 32-bit words: a map is meant for an output of
less than 2 ^ 32 bytes.
-/

namespace RxBoard

structure OffsetRange where
  start : Nat
  /-- The first offset after the range. -/
  stop : Nat
  deriving DecidableEq

def OffsetRange.contains (range : OffsetRange) (offset : Nat) : Bool :=
  range.start ≤ offset && offset < range.stop

structure SourceMapEntry where
  range : OffsetRange
  line : Nat
  deriving DecidableEq

structure SourceMap where
  entries : List SourceMapEntry
  deriving DecidableEq

namespace SourceMap

def lineAt? (map : SourceMap) (offset : Nat) : Option Nat :=
  (map.entries.find? fun entry => entry.range.contains offset).map
    SourceMapEntry.line

def rangeOf? (map : SourceMap) (line : Nat) : Option OffsetRange :=
  (map.entries.find? fun entry => entry.line == line).map
    SourceMapEntry.range

/-- The first position from `low` on, or else `high`, at which a test fails that
fails from there on. -/
def partitionPoint (before : Nat → Bool) (low high : Nat) : Nat :=
  if low < high then
    let middle := low + (high - low) / 2
    if before middle then
      partitionPoint before (middle + 1) high
    else
      partitionPoint before low middle
  else
    low
termination_by high - low

/-- The first entry that fails a test which the entries in front of it pass. -/
def firstPast? (map : SourceMap) (before : SourceMapEntry → Bool) :
    Option SourceMapEntry :=
  let entries := map.entries.toArray
  entries[partitionPoint (fun index => entries[index]?.any before) 0
    entries.size]?

/-- The line that the byte at an offset came from, by halving. -/
def searchLine? (map : SourceMap) (offset : Nat) : Option Nat :=
  ((map.firstPast? fun entry => entry.range.stop ≤ offset).filter
    fun entry => entry.range.contains offset).map SourceMapEntry.line

/-- The range of the output that came from a line, by halving. -/
def searchRange? (map : SourceMap) (line : Nat) : Option OffsetRange :=
  ((map.firstPast? fun entry => entry.line < line).filter
    fun entry => entry.line == line).map SourceMapEntry.range

def size (map : SourceMap) : Nat :=
  map.entries.length

def isEmpty (map : SourceMap) : Bool :=
  map.entries.isEmpty

end SourceMap

end RxBoard
