import RxBoard.Proofs.Assembly.Layout

/-!
Looking up a source map by halving.

Halving finds the first entry past those that pass a test, if these are in
front.  So on a map whose entries are in order the lookups by halving find what
a lookup entry by entry finds.
-/

namespace RxBoard

theorem partitionPoint_bounds (before : Nat → Bool) {low high : Nat}
    (ordered : low ≤ high) :
    low ≤ SourceMap.partitionPoint before low high ∧
      SourceMap.partitionPoint before low high ≤ high := by
  fun_induction SourceMap.partitionPoint before low high with
  | case1 low high unsettled middle passes inductionHypothesis =>
      have bounds := inductionHypothesis (by omega)
      omega
  | case2 low high unsettled middle fails inductionHypothesis =>
      have bounds := inductionHypothesis (by omega)
      omega
  | case3 low high settled => exact ⟨Nat.le_refl low, ordered⟩

/-- A test that fails from some position on fails from the partition point
on. -/
theorem lt_partitionPoint_iff {before : Nat → Bool}
    (downward : ∀ earlier later, earlier ≤ later →
      before later = true → before earlier = true)
    {low high index : Nat} (fromLow : low ≤ index)
    (belowHigh : index < high) :
    index < SourceMap.partitionPoint before low high ↔
      before index = true := by
  fun_induction SourceMap.partitionPoint before low high with
  | case1 low high unsettled middle passes inductionHypothesis =>
      by_cases inUpper : middle + 1 ≤ index
      · exact inductionHypothesis inUpper belowHigh
      · have bounds := partitionPoint_bounds before
          (show middle + 1 ≤ high by omega)
        have passed := downward index middle (by omega) passes
        constructor
        · intro _
          exact passed
        · intro _
          omega
  | case2 low high unsettled middle fails inductionHypothesis =>
      by_cases inLower : index < middle
      · exact inductionHypothesis fromLow inLower
      · have bounds := partitionPoint_bounds before
          (show low ≤ middle by omega)
        constructor
        · intro inside
          omega
        · intro passes
          exact absurd (downward middle index (by omega) passes) fails
  | case3 low high settled => omega

namespace SourceMap

/-- Where the entries that pass a test are in front, the first entry past them
is the first that fails it. -/
theorem firstPast?_eq_find? {map : SourceMap}
    {before : SourceMapEntry → Bool}
    (downward : map.entries.Pairwise fun earlier later =>
      before later = true → before earlier = true) :
    map.firstPast? before =
      map.entries.find? fun entry => !before entry := by
  have positions (earlier later : Nat) (ordered : earlier ≤ later)
      (passes : map.entries[later]?.any before = true) :
      map.entries[earlier]?.any before = true := by
    rw [Option.any_eq_true] at passes ⊢
    rcases passes with ⟨entry, entryAt, passes⟩
    rcases List.getElem?_eq_some_iff.mp entryAt with ⟨inside, rfl⟩
    have earlierInside := Nat.lt_of_le_of_lt ordered inside
    refine ⟨_, List.getElem?_eq_getElem earlierInside, ?_⟩
    rcases Nat.lt_or_eq_of_le ordered with earlierLess | rfl
    · exact List.pairwise_iff_getElem.mp downward _ _ earlierInside inside
        earlierLess passes
    · exact passes
  have found (index : Nat) (inside : index < map.entries.length) :=
    lt_partitionPoint_iff positions (Nat.zero_le index) inside
  simp only [firstPast?, List.getElem?_toArray, List.size_toArray]
  cases pastAt : map.entries[partitionPoint
      (fun index => map.entries[index]?.any before) 0
      map.entries.length]? with
  | none =>
      symm
      rw [List.find?_eq_none]
      intro entry member
      rcases List.getElem_of_mem member with ⟨index, inside, rfl⟩
      have reached := List.getElem?_eq_none_iff.mp pastAt
      have passes := (found index inside).mp
        (Nat.lt_of_lt_of_le inside reached)
      rw [List.getElem?_eq_getElem inside] at passes
      simpa using passes
  | some entry =>
      symm
      apply find?_of_getElem? _ pastAt
      · have fails := (found _ (List.getElem?_eq_some_iff.mp pastAt).1).not.mp
          (Nat.lt_irrefl _)
        rw [pastAt] at fails
        simpa using fails
      · intro earlier other earlierLess otherAt
        have passes :=
          (found earlier (List.getElem?_eq_some_iff.mp otherAt).1).mp
            earlierLess
        rw [otherAt] at passes
        simpa using passes

structure Ordered (map : SourceMap) : Prop where
  nonempty : ∀ entry ∈ map.entries, entry.range.start < entry.range.stop
  ranges : map.entries.Pairwise fun earlier later =>
    earlier.range.stop ≤ later.range.start
  lines : map.entries.Pairwise fun earlier later =>
    earlier.line < later.line

/-- If a hit is reached, and nothing behind the first item that is reached is a
hit, then only this item can be one. -/
theorem find?_eq_filter {α : Type} {items : List α} {reached hit : α → Bool}
    (hitReached : ∀ item, hit item = true → reached item = true)
    (single : items.Pairwise fun earlier later =>
      reached earlier = true → hit later = false) :
    items.find? hit = (items.find? reached).filter hit := by
  induction items with
  | nil => rfl
  | cons first rest inductionHypothesis =>
      obtain ⟨behind, restSingle⟩ := List.pairwise_cons.mp single
      cases isReached : reached first with
      | false =>
          have noHit : hit first = false := by
            rw [← Bool.not_eq_true]
            intro isHit
            rw [hitReached first isHit] at isReached
            cases isReached
          rw [List.find?_cons_of_neg (by simp [noHit]),
            List.find?_cons_of_neg (by simp [isReached])]
          exact inductionHypothesis restSingle
      | true =>
          rw [List.find?_cons_of_pos isReached, Option.filter_some]
          cases isHit : hit first with
          | false =>
              rw [List.find?_cons_of_neg (by simp [isHit])]
              apply List.find?_eq_none.mpr
              intro later member
              simp [behind later member isReached]
          | true => exact List.find?_cons_of_pos isHit

namespace Ordered

variable {map : SourceMap}

theorem searchLine?_eq_lineAt? (ordered : map.Ordered) (offset : Nat) :
    map.searchLine? offset = map.lineAt? offset := by
  have downward : map.entries.Pairwise fun earlier later =>
      decide (later.range.stop ≤ offset) = true →
        decide (earlier.range.stop ≤ offset) = true := by
    apply ordered.ranges.imp_of_mem
    intro earlier later _ laterMember apart
    have laterNonempty := ordered.nonempty later laterMember
    simp only [decide_eq_true_eq]
    omega
  rw [searchLine?, firstPast?_eq_find? downward, lineAt?]
  apply congrArg (Option.map SourceMapEntry.line)
  symm
  apply find?_eq_filter
  · intro entry inside
    simp only [OffsetRange.contains, Bool.and_eq_true, decide_eq_true_eq,
      Bool.not_eq_true', decide_eq_false_iff_not] at inside ⊢
    omega
  · apply ordered.ranges.imp
    intro earlier later apart past
    simp only [OffsetRange.contains, Bool.and_eq_false_iff,
      Bool.not_eq_true', decide_eq_false_iff_not] at past ⊢
    omega

theorem searchRange?_eq_rangeOf? (ordered : map.Ordered) (line : Nat) :
    map.searchRange? line = map.rangeOf? line := by
  have downward : map.entries.Pairwise fun earlier later =>
      decide (later.line < line) = true →
        decide (earlier.line < line) = true := by
    apply ordered.lines.imp
    intro earlier later ascending
    simp only [decide_eq_true_eq]
    omega
  rw [searchRange?, firstPast?_eq_find? downward, rangeOf?]
  apply congrArg (Option.map SourceMapEntry.range)
  symm
  apply find?_eq_filter
  · intro entry same
    simp only [beq_iff_eq, Bool.not_eq_true', decide_eq_false_iff_not]
      at same ⊢
    omega
  · apply ordered.lines.imp
    intro earlier later ascending past
    simp only [beq_eq_false_iff_ne, Bool.not_eq_true',
      decide_eq_false_iff_not] at past ⊢
    omega

end Ordered

end SourceMap

end RxBoard
