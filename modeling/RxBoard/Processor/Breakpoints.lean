/-!
Sets of breakpoint addresses, kept in ascending order without repetition, so
that two sets with the same members are equal.
-/

namespace RxBoard

/-- A set of addresses. -/
@[ext] structure Breakpoints where
  /-- The members in ascending order. -/
  addresses : List UInt32
  ascending : addresses.Pairwise (· < ·)
  deriving DecidableEq

namespace Breakpoints

def insertAscending (address : UInt32) : List UInt32 → List UInt32
  | [] => [address]
  | first :: rest =>
      if address < first then
        address :: first :: rest
      else if address = first then
        first :: rest
      else
        first :: insertAscending address rest

theorem mem_insertAscending (address candidate : UInt32)
    (addresses : List UInt32) :
    candidate ∈ insertAscending address addresses ↔
      candidate = address ∨ candidate ∈ addresses := by
  induction addresses with
  | nil => simp [insertAscending]
  | cons first rest inductionHypothesis =>
      by_cases before : address < first
      · simp [insertAscending, before]
      · by_cases same : address = first
        · subst same
          simp [insertAscending]
        · simp only [insertAscending, before, same, if_false,
            List.mem_cons, inductionHypothesis]
          exact or_left_comm

theorem pairwise_insertAscending (address : UInt32)
    {addresses : List UInt32}
    (ascending : addresses.Pairwise (· < ·)) :
    (insertAscending address addresses).Pairwise (· < ·) := by
  induction addresses with
  | nil => simp [insertAscending]
  | cons first rest inductionHypothesis =>
      have restAscending := List.pairwise_cons.mp ascending
      by_cases before : address < first
      · simp only [insertAscending, before, if_true]
        refine List.pairwise_cons.mpr ⟨?_, ascending⟩
        intro candidate member
        cases List.mem_cons.mp member with
        | inl atFront => exact atFront ▸ before
        | inr inRest =>
            exact UInt32.lt_trans before
              (restAscending.1 candidate inRest)
      · by_cases same : address = first
        · subst same
          simpa [insertAscending] using ascending
        · simp only [insertAscending, before, same, if_false]
          refine List.pairwise_cons.mpr
            ⟨?_, inductionHypothesis restAscending.2⟩
          intro candidate member
          cases (mem_insertAscending address candidate rest).mp
              member with
          | inl isAddress =>
              have notBefore := UInt32.not_lt.mp before
              exact isAddress ▸ UInt32.lt_of_le_of_ne notBefore
                (Ne.symm same)
          | inr inRest => exact restAscending.1 candidate inRest

def empty : Breakpoints :=
  ⟨[], List.Pairwise.nil⟩

def contains (breakpoints : Breakpoints) (address : UInt32) : Bool :=
  breakpoints.addresses.contains address

def insert (breakpoints : Breakpoints) (address : UInt32) :
    Breakpoints :=
  ⟨insertAscending address breakpoints.addresses,
    pairwise_insertAscending address breakpoints.ascending⟩

def erase (breakpoints : Breakpoints) (address : UInt32) :
    Breakpoints :=
  ⟨breakpoints.addresses.filter (· != address),
    breakpoints.ascending.filter (· != address)⟩

def toggle (breakpoints : Breakpoints) (address : UInt32) :
    Breakpoints :=
  if breakpoints.contains address then
    breakpoints.erase address
  else
    breakpoints.insert address

@[simp] theorem contains_empty (candidate : UInt32) :
    empty.contains candidate = false := rfl

@[simp] theorem contains_insert (breakpoints : Breakpoints)
    (address candidate : UInt32) :
    (breakpoints.insert address).contains candidate =
      (candidate == address || breakpoints.contains candidate) := by
  apply Bool.eq_iff_iff.mpr
  simp [contains, insert, mem_insertAscending]

@[simp] theorem contains_erase (breakpoints : Breakpoints)
    (address candidate : UInt32) :
    (breakpoints.erase address).contains candidate =
      (candidate != address && breakpoints.contains candidate) := by
  apply Bool.eq_iff_iff.mpr
  simp [contains, erase, and_comm]

end Breakpoints

end RxBoard
