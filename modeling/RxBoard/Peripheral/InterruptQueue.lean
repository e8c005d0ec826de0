import RxBoard.Logged

/-!
Pending interrupts in the order in which they are served: higher priority
first, and within a priority in the order of arrival.
-/

namespace RxBoard

structure InterruptRequest where
  vector : UInt32
  /-- Larger values are served first. -/
  priority : UInt8
  source : String
  deriving DecidableEq

/-- Pending requests in the order of service. -/
@[ext] structure InterruptQueue where
  pending : List InterruptRequest
  ordered :
    pending.Pairwise fun earlier later =>
      later.priority ≤ earlier.priority
  deriving DecidableEq

namespace InterruptQueue

/-- Puts a request behind those of its own or a higher priority and before all
others. -/
def insertByPriority (request : InterruptRequest) :
    List InterruptRequest → List InterruptRequest
  | [] => [request]
  | first :: rest =>
      if request.priority ≤ first.priority then
        first :: insertByPriority request rest
      else
        request :: first :: rest

theorem mem_insertByPriority (request candidate : InterruptRequest)
    (pending : List InterruptRequest) :
    candidate ∈ insertByPriority request pending ↔
      candidate = request ∨ candidate ∈ pending := by
  induction pending with
  | nil => simp [insertByPriority]
  | cons first rest inductionHypothesis =>
      by_cases behind : request.priority ≤ first.priority
      · simp only [insertByPriority, behind, if_true, List.mem_cons,
          inductionHypothesis]
        exact or_left_comm
      · simp [insertByPriority, behind]

theorem insertByPriority_perm (request : InterruptRequest)
    (pending : List InterruptRequest) :
    (insertByPriority request pending).Perm (request :: pending) := by
  induction pending with
  | nil => exact List.Perm.refl _
  | cons first rest inductionHypothesis =>
      by_cases behind : request.priority ≤ first.priority
      · rw [insertByPriority, if_pos behind]
        exact (inductionHypothesis.cons first).trans (List.Perm.swap ..)
      · rw [insertByPriority, if_neg behind]

theorem pairwise_insertByPriority (request : InterruptRequest)
    {pending : List InterruptRequest}
    (ordered : pending.Pairwise fun earlier later =>
      later.priority ≤ earlier.priority) :
    (insertByPriority request pending).Pairwise
      fun earlier later => later.priority ≤ earlier.priority := by
  induction pending with
  | nil => simp [insertByPriority]
  | cons first rest inductionHypothesis =>
      have restOrdered := List.pairwise_cons.mp ordered
      by_cases behind : request.priority ≤ first.priority
      · simp only [insertByPriority, behind, if_true]
        refine List.pairwise_cons.mpr
          ⟨?_, inductionHypothesis restOrdered.2⟩
        intro candidate member
        cases (mem_insertByPriority request candidate rest).mp
            member with
        | inl isRequest => exact isRequest ▸ behind
        | inr inRest => exact restOrdered.1 candidate inRest
      · simp only [insertByPriority, behind, if_false]
        have before : first.priority ≤ request.priority :=
          UInt8.le_of_lt (UInt8.not_le.mp behind)
        refine List.pairwise_cons.mpr ⟨?_, ordered⟩
        intro candidate member
        cases List.mem_cons.mp member with
        | inl isFirst => exact isFirst ▸ before
        | inr inRest =>
            exact UInt8.le_trans (restOrdered.1 candidate inRest) before

def empty : InterruptQueue :=
  ⟨[], List.Pairwise.nil⟩

def request (queue : InterruptQueue) (vector : UInt32)
    (priority : UInt8) (source : String) : Logged InterruptQueue := do
  Logged.report (.interruptRequested vector priority source)
  return ⟨insertByPriority ⟨vector, priority, source⟩ queue.pending,
    pairwise_insertByPriority ⟨vector, priority, source⟩ queue.ordered⟩

def pop? (queue : InterruptQueue) :
    Logged (Option InterruptRequest × InterruptQueue) :=
  match queue with
  | ⟨[], _⟩ => pure (none, empty)
  | ⟨first :: rest, ordered⟩ => do
      Logged.report (.interruptTaken first.vector first.priority)
      return (some first, ⟨rest, (List.pairwise_cons.mp ordered).2⟩)

def size (queue : InterruptQueue) : Nat :=
  queue.pending.length

def isEmpty (queue : InterruptQueue) : Bool :=
  queue.pending.isEmpty

def hasPending (queue : InterruptQueue) : Bool :=
  !queue.isEmpty

end InterruptQueue

end RxBoard
