import RxBoard.Peripheral.InterruptQueue

/-!
The order in which interrupt requests are served.

A request is inserted where a stable sort by priority puts it when it is added
at the end (`pending_request`).

A ledger numbers requests as they are made and keeps those that wait in the
order of their arrival.  It says which request may be served, not how to find
it.  Every run of the queue is a run of the ledger (`runs_performAll`), so the
queue serves the earliest request of the highest priority, and none is lost or
served twice.
-/

namespace RxBoard

namespace InterruptQueue

def ranksBefore (first second : InterruptRequest) : Bool :=
  second.priority ≤ first.priority

theorem ranksBefore_iff (first second : InterruptRequest) :
    ranksBefore first second = true ↔
      second.priority ≤ first.priority :=
  decide_eq_true_iff

theorem ranksBefore_trans (first second third : InterruptRequest)
    (ahead : ranksBefore first second = true)
    (behind : ranksBefore second third = true) :
    ranksBefore first third = true := by
  rw [ranksBefore_iff] at ahead behind ⊢
  exact UInt8.le_trans behind ahead

theorem ranksBefore_total (first second : InterruptRequest) :
    (ranksBefore first second || ranksBefore second first) = true := by
  rw [Bool.or_eq_true, ranksBefore_iff, ranksBefore_iff]
  exact UInt8.le_total ..

theorem insertByPriority_of_above {request : InterruptRequest}
    {pending : List InterruptRequest}
    (above : ∀ other ∈ pending, other.priority < request.priority) :
    insertByPriority request pending = request :: pending := by
  cases pending with
  | nil => rfl
  | cons first rest =>
      rw [insertByPriority,
        if_neg (UInt8.not_le.mpr (above first (List.mem_cons_self ..)))]

/-- Insertion puts a request where a stable sort puts it if it comes last. -/
theorem insertByPriority_eq_mergeSort (request : InterruptRequest)
    {pending : List InterruptRequest}
    (ordered : pending.Pairwise fun earlier later =>
      later.priority ≤ earlier.priority) :
    insertByPriority request pending =
      (pending ++ [request]).mergeSort ranksBefore := by
  induction pending with
  | nil => exact (List.mergeSort_singleton request).symm
  | cons first rest inductionHypothesis =>
      rcases List.pairwise_cons.mp ordered with ⟨firstLeads, restOrdered⟩
      obtain ⟨front, back, sorted, others, passed⟩ :=
        List.mergeSort_cons ranksBefore_trans ranksBefore_total first
          (rest ++ [request])
      have sortedOrdered := List.pairwise_mergeSort ranksBefore_trans
        ranksBefore_total (first :: (rest ++ [request]))
      rw [← inductionHypothesis restOrdered] at others
      rw [sorted] at sortedOrdered
      rw [List.cons_append, sorted]
      -- What is sorted ahead of the first ranks above it.
      have above : ∀ other ∈ front, first.priority < other.priority := by
        intro other member
        have notBehind := passed other member
        rw [Bool.not_eq_true', ranksBefore, decide_eq_false_iff_not,
          UInt8.not_le] at notBehind
        exact notBehind
      have notInRest : ∀ other ∈ front, other ∉ rest := by
        intro other member inRest
        exact UInt8.not_le.mpr (above other member)
          (firstLeads other inRest)
      by_cases behind : request.priority ≤ first.priority
      · have frontEmpty : front = [] := by
          refine List.eq_nil_iff_forall_not_mem.mpr (fun other member => ?_)
          have inserted : other ∈ insertByPriority request rest :=
            others ▸ List.mem_append_left back member
          rcases (mem_insertByPriority ..).mp inserted with rfl | inRest
          · exact UInt8.not_le.mpr (above other member) behind
          · exact notInRest other member inRest
        rw [insertByPriority, if_pos behind, others, frontEmpty]
        rfl
      · have requestAbove := UInt8.not_le.mp behind
        rw [insertByPriority, if_neg behind]
        rw [insertByPriority_of_above (fun other inRest =>
          UInt8.lt_of_le_of_lt (firstLeads other inRest) requestAbove)]
          at others
        cases front with
        | nil =>
            have nextIn : request ∈ back := by
              rw [← List.nil_append back, ← others]
              exact List.mem_cons_self ..
            have firstBefore :=
              List.rel_of_pairwise_cons sortedOrdered nextIn
            exact absurd ((ranksBefore_iff ..).mp firstBefore) behind
        | cons second third =>
            rw [List.cons_append] at others
            obtain ⟨rfl, restEq⟩ := List.cons.inj others
            have thirdEmpty : third = [] := by
              refine List.eq_nil_iff_forall_not_mem.mpr
                (fun other member => ?_)
              refine notInRest other (List.mem_cons_of_mem _ member) ?_
              exact restEq ▸ List.mem_append_left back member
            rw [restEq, thirdEmpty]
            rfl

theorem pending_request (queue : InterruptQueue) (vector : UInt32)
    (priority : UInt8) (source : String) :
    (queue.request vector priority source).value.pending =
      (queue.pending ++ [InterruptRequest.mk vector priority source]).mergeSort
        ranksBefore :=
  insertByPriority_eq_mergeSort ⟨vector, priority, source⟩ queue.ordered

end InterruptQueue

structure Ticket where
  number : Nat
  request : InterruptRequest
  deriving DecidableEq

/-- Higher priorities come first, and earlier arrivals within a priority. -/
def Ticket.Precedes (first second : Ticket) : Prop :=
  second.request.priority < first.request.priority ∨
    first.request.priority = second.request.priority ∧
      first.number < second.number

inductive QueueOperation where
  | request (vector : UInt32) (priority : UInt8) (source : String)
  | pop
  | clear

namespace InterruptQueue

def perform (queue : InterruptQueue) :
    QueueOperation → Option InterruptRequest × InterruptQueue
  | .request vector priority source =>
      (none, (queue.request vector priority source).value)
  | .pop => queue.pop?.value
  | .clear => (none, empty)

def performAll (queue : InterruptQueue) :
    List QueueOperation → List (Option InterruptRequest) × InterruptQueue
  | [] => ([], queue)
  | operation :: rest =>
      let performed := queue.perform operation
      let remaining := performed.2.performAll rest
      (performed.1 :: remaining.1, remaining.2)

end InterruptQueue

/-! ### The ledger -/

structure Ledger where
  issued : List Ticket := []
  waiting : List Ticket := []
  served : List Ticket := []
  dropped : List Ticket := []

namespace Ledger

def nextTicket (ledger : Ledger) (request : InterruptRequest) : Ticket :=
  ⟨ledger.issued.length, request⟩

inductive Step : Ledger → QueueOperation → Option InterruptRequest →
    Ledger → Prop
  | request (ledger : Ledger) (vector : UInt32) (priority : UInt8)
      (source : String) :
      Step ledger (.request vector priority source) none
        { ledger with
          issued := ledger.issued ++
            [ledger.nextTicket ⟨vector, priority, source⟩]
          waiting := ledger.waiting ++
            [ledger.nextTicket ⟨vector, priority, source⟩] }
  | serve (ledger : Ledger) (ticket : Ticket)
      (waits : ticket ∈ ledger.waiting)
      (first : ∀ other ∈ ledger.waiting, other ≠ ticket →
        ticket.Precedes other) :
      Step ledger .pop (some ticket.request)
        { ledger with
          waiting := ledger.waiting.erase ticket
          served := ledger.served ++ [ticket] }
  | idle (ledger : Ledger) (nothing : ledger.waiting = []) :
      Step ledger .pop none ledger
  | clear (ledger : Ledger) :
      Step ledger .clear none
        { ledger with
          waiting := []
          dropped := ledger.dropped ++ ledger.waiting }

inductive Runs : Ledger → List QueueOperation →
    List (Option InterruptRequest) → Ledger → Prop
  | nil (ledger : Ledger) : Runs ledger [] [] ledger
  | cons {ledger next last : Ledger} {operation : QueueOperation}
      {answer : Option InterruptRequest} {rest : List QueueOperation}
      {answers : List (Option InterruptRequest)}
      (step : Step ledger operation answer next)
      (runs : Runs next rest answers last) :
      Runs ledger (operation :: rest) (answer :: answers) last

structure Balanced (ledger : Ledger) : Prop where
  numbered : ledger.issued.map Ticket.number =
    List.range ledger.issued.length
  accounted : (ledger.served ++ ledger.dropped ++ ledger.waiting).Perm
    ledger.issued

theorem balanced_empty : Balanced {} where
  numbered := rfl
  accounted := List.Perm.refl []

theorem Balanced.number_lt {ledger : Ledger} (balanced : ledger.Balanced)
    {ticket : Ticket} (waits : ticket ∈ ledger.waiting) :
    ticket.number < ledger.issued.length := by
  have issued : ticket ∈ ledger.issued :=
    balanced.accounted.mem_iff.mp (List.mem_append_right _ waits)
  have numberIn := List.mem_map_of_mem (f := Ticket.number) issued
  rw [balanced.numbered] at numberIn
  exact List.mem_range.mp numberIn

theorem Step.balanced {ledger next : Ledger} {operation : QueueOperation}
    {answer : Option InterruptRequest}
    (step : Step ledger operation answer next)
    (balanced : ledger.Balanced) : next.Balanced := by
  cases step with
  | request vector priority source =>
      constructor
      · rw [List.map_append, balanced.numbered, List.length_append,
          List.length_singleton, List.range_succ]
        rfl
      · rw [← List.append_assoc]
        exact balanced.accounted.append_right _
  | serve ticket waits first =>
      constructor
      · exact balanced.numbered
      · refine List.Perm.trans ?_ balanced.accounted
        rw [List.perm_iff_count]
        intro counted
        have taken :=
          (List.perm_cons_erase waits).count_eq counted
        simp only [List.count_append, List.count_cons, List.count_nil]
          at taken ⊢
        omega
  | idle nothing => exact balanced
  | clear =>
      constructor
      · exact balanced.numbered
      · rw [List.append_nil, ← List.append_assoc]
        exact balanced.accounted

/-- Whether requests are those that wait, each once and in the order of
service. -/
def Lists (ledger : Ledger) (pending : List InterruptRequest) : Prop :=
  ∃ order : List Ticket, order.Perm ledger.waiting ∧
    order.Pairwise Ticket.Precedes ∧
    order.map Ticket.request = pending

theorem exists_inserted {order : List Ticket} {latest : Ticket}
    (ordered : order.Pairwise Ticket.Precedes)
    (later : ∀ ticket ∈ order, ticket.number < latest.number) :
    ∃ inserted : List Ticket, inserted.Perm (latest :: order) ∧
      inserted.Pairwise Ticket.Precedes ∧
      inserted.map Ticket.request =
        InterruptQueue.insertByPriority latest.request
          (order.map Ticket.request) := by
  induction order with
  | nil => exact ⟨[latest], List.Perm.refl _, List.pairwise_singleton .., rfl⟩
  | cons first rest inductionHypothesis =>
      rcases List.pairwise_cons.mp ordered with ⟨firstBefore, restOrdered⟩
      rcases List.forall_mem_cons.mp later with ⟨firstLater, restLater⟩
      by_cases behind :
          latest.request.priority ≤ first.request.priority
      · obtain ⟨inserted, sameTickets, insertedOrdered, sameRequests⟩ :=
          inductionHypothesis restOrdered restLater
        refine ⟨first :: inserted, ?_, ?_, ?_⟩
        · exact (sameTickets.cons first).trans (List.Perm.swap ..)
        · refine List.pairwise_cons.mpr ⟨?_, insertedOrdered⟩
          intro ticket member
          rcases List.mem_cons.mp (sameTickets.mem_iff.mp member) with
            rfl | inRest
          · rcases UInt8.lt_or_eq_of_le behind with below | same
            · exact Or.inl below
            · exact Or.inr ⟨same.symm, firstLater⟩
          · exact firstBefore ticket inRest
        · rw [List.map_cons, List.map_cons, sameRequests,
            InterruptQueue.insertByPriority, if_pos behind]
      · have above := UInt8.not_le.mp behind
        refine ⟨latest :: first :: rest, List.Perm.refl _, ?_, ?_⟩
        · refine List.pairwise_cons.mpr ⟨?_, ordered⟩
          intro ticket member
          rcases List.mem_cons.mp member with rfl | inRest
          · exact Or.inl above
          · rcases firstBefore ticket inRest with below | ⟨same, _⟩
            · exact Or.inl (UInt8.lt_trans below above)
            · exact Or.inl (same ▸ above)
        · rw [List.map_cons, List.map_cons,
            InterruptQueue.insertByPriority, if_neg behind]

/-- What the queue does and returns, the ledger may do and return. -/
theorem Lists.exists_step {ledger : Ledger} {queue : InterruptQueue}
    (lists : ledger.Lists queue.pending) (balanced : ledger.Balanced)
    (operation : QueueOperation) :
    ∃ next : Ledger,
      Step ledger operation (queue.perform operation).1 next ∧
        next.Lists (queue.perform operation).2.pending := by
  obtain ⟨order, sameTickets, ordered, sameRequests⟩ := lists
  cases operation with
  | request vector priority source =>
      have later : ∀ ticket ∈ order, ticket.number <
          (ledger.nextTicket ⟨vector, priority, source⟩).number := by
        intro ticket member
        exact balanced.number_lt (sameTickets.mem_iff.mp member)
      obtain ⟨inserted, insertedTickets, insertedOrdered,
          insertedRequests⟩ := exists_inserted ordered later
      refine ⟨_, .request ledger vector priority source, inserted, ?_,
        insertedOrdered, ?_⟩
      · exact insertedTickets.trans
          ((sameTickets.cons _).trans (List.perm_append_singleton ..).symm)
      · rw [insertedRequests, sameRequests]
        rfl
  | pop =>
      rcases queue with ⟨pending, pendingOrdered⟩
      cases order with
      | nil =>
          cases sameRequests
          refine ⟨ledger, .idle ledger ?_, [], sameTickets, ordered, rfl⟩
          exact List.nil_perm.mp sameTickets
      | cons ticket rest =>
          cases sameRequests
          have waits : ticket ∈ ledger.waiting :=
            sameTickets.mem_iff.mp (List.mem_cons_self ..)
          rcases List.pairwise_cons.mp ordered with
            ⟨ticketBefore, restOrdered⟩
          refine ⟨_, .serve ledger ticket waits ?_, rest, ?_, restOrdered,
            rfl⟩
          · intro other member different
            have inOrder := sameTickets.mem_iff.mpr member
            exact ticketBefore other
              ((List.mem_cons.mp inOrder).resolve_left different)
          · have erased := sameTickets.erase ticket
            rw [List.erase_cons_head] at erased
            exact erased
  | clear => exact ⟨_, .clear ledger, [], List.Perm.refl [], .nil, rfl⟩

theorem Lists.exists_runs {ledger : Ledger} {queue : InterruptQueue}
    (lists : ledger.Lists queue.pending) (balanced : ledger.Balanced)
    (operations : List QueueOperation) :
    ∃ last : Ledger,
      Runs ledger operations (queue.performAll operations).1 last ∧
        last.Lists (queue.performAll operations).2.pending ∧
        last.Balanced := by
  induction operations generalizing ledger queue with
  | nil => exact ⟨ledger, .nil ledger, lists, balanced⟩
  | cons operation rest inductionHypothesis =>
      obtain ⟨next, step, nextLists⟩ := lists.exists_step balanced operation
      obtain ⟨last, runs, lastLists, lastBalanced⟩ :=
        inductionHypothesis nextLists (step.balanced balanced)
      exact ⟨last, .cons step runs, lastLists, lastBalanced⟩

end Ledger

/-- Whatever requests are made, served and cleared, a new queue returns what
the ledger returns, and lists what waits there in the order of service; no
request of the ledger is lost, and none is accounted for twice. -/
theorem InterruptQueue.runs_performAll (operations : List QueueOperation) :
    let outcome := empty.performAll operations
    ∃ ledger : Ledger,
      Ledger.Runs {} operations outcome.1 ledger ∧
        ledger.Lists outcome.2.pending ∧
        ledger.Balanced := by
  apply Ledger.Lists.exists_runs
  · exact ⟨[], List.Perm.refl [], .nil, rfl⟩
  · exact Ledger.balanced_empty

end RxBoard
