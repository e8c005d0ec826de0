import RxBoard.Proofs.Processor.Counters
import RxBoard.Proofs.Processor.Records

/-!
The log as a trace of execution.

A step reports the reads of its fetch that lead nowhere, lowest address first,
and then the instruction; a run reports its steps and the breakpoint that stops
it.  So the records of any number of steps and runs can be written down from the
states in which their steps are made (`recordsForAll`), and what was executed,
how many faults there were and which was the last can be read from the log.
-/

namespace RxBoard

theorem recordsAtLeast_trace (events : List Event) :
    recordsAtLeast .trace events = events.filterMap Event.record? :=
  List.filter_eq_self.mpr fun _ _ => decide_eq_true (Nat.zero_le _)

theorem recordsAtLeast_append (minimum : Level) (front back : List Event) :
    recordsAtLeast minimum (front ++ back) =
      recordsAtLeast minimum front ++ recordsAtLeast minimum back := by
  rw [recordsAtLeast, List.filterMap_append, List.filter_append]
  rfl

/-- The addresses that a fetch reads and that lead nowhere, in the order in
which they are read. -/
def unmappedAhead (pc : UInt32) : List UInt32 :=
  ((List.range longestEncoding).filterMap (advance? pc)).filter
    fun address => !decide (IsMapped address)

theorem mem_unmappedAhead_iff (pc address : UInt32) :
    address ∈ unmappedAhead pc ↔
      pc.toNat ≤ address.toNat ∧ address.toNat ≤ pc.toNat + 6 ∧
        ¬IsMapped address := by
  have reached : address ∈
      (List.range longestEncoding).filterMap (advance? pc) ↔
        pc.toNat ≤ address.toNat ∧ address.toNat ≤ pc.toNat + 6 := by
    simp only [List.mem_filterMap, List.mem_range, advance?_eq_some_iff,
      longestEncoding]
    constructor
    · rintro ⟨distance, near, addressEq⟩
      omega
    · rintro ⟨low, high⟩
      exact ⟨address.toNat - pc.toNat, by omega, by omega⟩
  rw [unmappedAhead, List.mem_filter, reached, Bool.not_eq_true',
    decide_eq_false_iff_not, and_assoc]

example : unmappedAhead 0x0003FFFC = [0x00040000, 0x00040001, 0x00040002] := by
  decide

theorem pairwise_unmappedAhead (pc : UInt32) :
    (unmappedAhead pc).Pairwise (· < ·) := by
  refine (List.pairwise_lt_range.filterMap (advance? pc) ?_).filter _
  intro distance other further address reached otherAddress otherReached
  rw [advance?_eq_some_iff] at reached otherReached
  rw [UInt32.lt_iff_toNat_lt, reached, otherReached]
  exact Nat.add_lt_add_left further _

namespace Memory

theorem events_read8 (memory : Memory) (address : UInt32) :
    (memory.read8 address).events =
      ([address].filter fun address => !decide (IsMapped address)).map
        .unmappedRead := by
  unfold read8 IsMapped
  cases locationEq : Location.ofAddress? address <;>
    simp [locationEq]

theorem events_readPast (memory : Memory) (address : UInt32)
    (distance : Nat) :
    (memory.readPast address distance).events =
      ((advance? address distance).toList.filter
        fun address => !decide (IsMapped address)).map .unmappedRead := by
  unfold readPast
  cases advance? address distance with
  | none => rfl
  | some target => exact events_read8 memory target

end Memory

namespace Processor

theorem events_fetch (memory : Memory) (pc : UInt32) :
    (fetch memory pc).events = (unmappedAhead pc).map .unmappedRead := by
  unfold fetch Memory.dump unmappedAhead
  rw [Logged.events_map, Logged.events_forEach,
    List.filterMap_eq_flatMap_toList, List.filter_flatMap,
    List.map_flatMap]
  exact List.flatMap_congr fun distance _ =>
    memory.events_readPast pc distance

def closingRecord (processor : Processor) : Record :=
  executionRecord processor.pc processor.fetched.instruction

def stepRecords (processor : Processor) : List Record :=
  (unmappedAhead processor.pc).map unmappedRecord ++
    [processor.closingRecord]

theorem records_perform (processor : Processor)
    (instruction : Instruction) :
    (processor.perform instruction).events.filterMap Event.record? =
      [executionRecord processor.pc instruction] := by
  cases instruction <;> rfl

theorem records_step (processor : Processor) :
    recordsAtLeast .trace processor.step.events = processor.stepRecords := by
  have eventsEq : processor.step.events =
      (fetch processor.memory processor.pc).events ++
        ((processor.perform processor.fetched.instruction).events ++ []) :=
    rfl
  have unmapped (addresses : List UInt32) :
      (addresses.map Event.unmappedRead).filterMap Event.record? =
        addresses.map unmappedRecord := by
    rw [List.filterMap_map]
    exact congrFun (List.filterMap_eq_map (f := unmappedRecord)) addresses
  rw [recordsAtLeast_trace, eventsEq, List.append_nil,
    List.filterMap_append, events_fetch, unmapped, records_perform]
  rfl

theorem records_steps (steps : List Processor) :
    recordsAtLeast .trace (steps.flatMap fun step => step.step.events) =
      steps.flatMap stepRecords := by
  rw [recordsAtLeast_trace, List.filterMap_flatMap]
  refine List.flatMap_congr fun step _ => ?_
  rw [← recordsAtLeast_trace, records_step]

theorem endsAfter_zero (budget consumed : Nat) (processor : Processor) :
    EndsAfter budget consumed processor 0 ↔
      budget ≤ consumed ∨ (0 < consumed &&
        processor.breakpoints.contains processor.pc) = true := by
  rw [Bool.and_eq_true, decide_eq_true_eq]
  exact Iff.rfl

/-- With an observer that reports nothing, a run reports its steps and then the
breakpoint that stopped it. -/
theorem events_runFrom {σ : Type} {observe : Nat → σ → Logged σ}
    (silent : ∀ cost state, (observe cost state).events = [])
    {budget consumed : Nat} {processor : Processor} {count : Nat}
    (ends : EndsAfter budget consumed processor count)
    (least : ∀ fewer, fewer < count →
      ¬EndsAfter budget consumed processor fewer) (observed : σ) :
    (runFrom observe budget consumed processor observed #[]).events =
      ((processor.stepStates count).flatMap fun step => step.step.events) ++
        (hitAfter budget consumed processor count).toList.map
          .breakpointReached := by
  induction count generalizing consumed processor observed with
  | zero =>
      by_cases unspent : consumed < budget
      · have stops := ((endsAfter_zero ..).mp ends).resolve_left
          (Nat.not_le.mpr unspent)
        have hitEq : hitAfter budget consumed processor 0 =
            some processor.pc := if_pos unspent
        rw [runFrom_breakpoint observe _ _ _ unspent stops, hitEq]
        rfl
      · have hitEq : hitAfter budget consumed processor 0 = none :=
          if_neg unspent
        rw [runFrom_spent observe _ _ _ unspent, hitEq]
        rfl
  | succ count inductionHypothesis =>
      -- The run does not end before its first step, and what it reports after
      -- that step is what the rest of it reports.
      have goesOn := least 0 (Nat.succ_pos count)
      rw [endsAfter_zero, not_or, Nat.not_le] at goesOn
      have restEvents := inductionHypothesis ((endsAfter_succ ..).mp ends)
        (fun fewer fewerLess restEnds =>
          least (fewer + 1) (Nat.succ_lt_succ fewerLess)
            ((endsAfter_succ ..).mpr restEnds))
        (observe processor.step.value.1 observed).value
      rw [runFrom_step observe _ _ _ goesOn.1 goesOn.2, runFrom_reported,
        silent, restEvents, hitAfter_succ]
      simp [stepStates]

theorem events_run (processor : Processor) (budget : Nat) :
    (processor.run budget).events =
      ((processor.stepsFor (.execute (.run budget))).flatMap
          fun step => step.step.events) ++
        (processor.run budget).value.2.breakpointHit.toList.map
          .breakpointReached := by
  obtain ⟨_, ends, least⟩ := processor.endsAfter_runCosts budget
  have hitEq : (processor.run budget).value.2.breakpointHit =
      hitAfter budget 0 (processor.withHit none)
        (processor.runCosts budget).length :=
    congrArg (fun ran => ran.processor.breakpointHit)
      (value_runWith processor budget (fun _ _ => pure ()) ())
  rw [hitEq]
  exact (Logged.events_map ..).trans
    (events_runFrom (fun _ _ => rfl) ends least ())

/-! ### Any number of executions -/

def traced (processor : Processor) : Execution → Logged Processor
  | .step => Prod.snd <$> processor.step
  | .run budget => Prod.snd <$> processor.run budget

def tracedAll (processor : Processor) :
    List Execution → Logged Processor
  | [] => pure processor
  | execution :: rest => do
      let reached ← processor.traced execution
      reached.tracedAll rest

def stopRecords (processor : Processor) : Execution → List Record
  | .step => []
  | .run budget =>
      (processor.run budget).value.2.breakpointHit.toList.map
        breakpointRecord

def recordsFor (processor : Processor) (execution : Execution) :
    List Record :=
  (processor.stepsFor (.execute execution)).flatMap stepRecords ++
    processor.stopRecords execution

def recordsForAll (processor : Processor) :
    List Execution → List Record
  | [] => []
  | execution :: rest =>
      processor.recordsFor execution ++
        (processor.executed execution).recordsForAll rest

theorem value_traced (processor : Processor) (execution : Execution) :
    (processor.traced execution).value = processor.executed execution := by
  cases execution <;> rfl

theorem value_tracedAll (processor : Processor)
    (executions : List Execution) :
    (processor.tracedAll executions).value =
      processor.obeyAll (executions.map .execute) := by
  induction executions generalizing processor with
  | nil => rfl
  | cons execution rest inductionHypothesis =>
      rw [tracedAll, Logged.value_bind, inductionHypothesis, value_traced]
      rfl

theorem records_traced (processor : Processor) (execution : Execution) :
    recordsAtLeast .trace (processor.traced execution).events =
      processor.recordsFor execution := by
  cases execution with
  | step =>
      rw [traced, Logged.events_map, records_step, recordsFor, stepsFor,
        List.flatMap_singleton, stopRecords, List.append_nil]
  | run budget =>
      have stops (hit : Option UInt32) :
          recordsAtLeast .trace (hit.toList.map .breakpointReached) =
            hit.toList.map breakpointRecord := by
        cases hit <;> rfl
      rw [traced, Logged.events_map, events_run, recordsAtLeast_append,
        records_steps, stops]
      rfl

theorem records_tracedAll (processor : Processor)
    (executions : List Execution) :
    recordsAtLeast .trace (processor.tracedAll executions).events =
      processor.recordsForAll executions := by
  induction executions generalizing processor with
  | nil => rfl
  | cons execution rest inductionHypothesis =>
      rw [tracedAll, Logged.events_bind, recordsAtLeast_append,
        records_traced, inductionHypothesis, value_traced]
      rfl

/-! ### Reading the log -/

-- Whatever is read from the log drops some records and keeps others.  A test
-- that drops those of reads and breakpoints sees one record for each step.
section

variable {keep : Record → Bool}
  (dropsReads : ∀ address, keep (unmappedRecord address) = false)

include dropsReads

theorem filter_stepRecords (processor : Processor) :
    processor.stepRecords.filter keep =
      [processor.closingRecord].filter keep := by
  have reads : ((unmappedAhead processor.pc).map unmappedRecord).filter
      keep = [] := by
    rw [List.filter_eq_nil_iff]
    intro record member
    obtain ⟨address, _, rfl⟩ := List.mem_map.mp member
    rw [dropsReads]
    exact Bool.false_ne_true
  rw [stepRecords, List.filter_append, reads, List.nil_append]

theorem filter_recordsFor
    (dropsStops : ∀ pc, keep (breakpointRecord pc) = false)
    (processor : Processor) (execution : Execution) :
    (processor.recordsFor execution).filter keep =
      ((processor.stepsFor (.execute execution)).map
        closingRecord).filter keep := by
  have stops : (processor.stopRecords execution).filter keep = [] := by
    rw [List.filter_eq_nil_iff]
    intro record member
    cases execution with
    | step => cases member
    | run budget =>
        obtain ⟨address, _, rfl⟩ := List.mem_map.mp member
        rw [dropsStops]
        exact Bool.false_ne_true
  rw [recordsFor, List.filter_append, stops, List.append_nil,
    List.filter_flatMap, List.map_eq_flatMap, List.filter_flatMap]
  exact List.flatMap_congr fun step _ =>
    filter_stepRecords dropsReads step

/-- What is neither the record of a read nor that of a breakpoint is the record
of an instruction. -/
theorem filter_recordsForAll
    (dropsStops : ∀ pc, keep (breakpointRecord pc) = false)
    (processor : Processor) (executions : List Execution) :
    (processor.recordsForAll executions).filter keep =
      ((processor.stepsForAll (executions.map .execute)).map
        closingRecord).filter keep := by
  induction executions generalizing processor with
  | nil => rfl
  | cons execution rest inductionHypothesis =>
      rw [recordsForAll, List.filter_append,
        filter_recordsFor dropsReads dropsStops, inductionHypothesis,
        List.map_cons, stepsForAll, List.map_append, List.filter_append]
      rfl

end

theorem closingRecord_of_faults {processor : Processor}
    (faulty : processor.faults = true) :
    processor.closingRecord = ⟨.warn, processor.byteAtPc.message⟩ := by
  rw [closingRecord, instruction_of_faults faulty]
  rfl

theorem isWarning_closingRecord (processor : Processor) :
    processor.closingRecord.isWarning = processor.faults := by
  unfold closingRecord faults
  cases processor.fetched.instruction <;> rfl

theorem filter_isWarning_closingRecord (steps : List Processor) :
    (steps.map closingRecord).filter Record.isWarning =
      (steps.filter faults).map fun step =>
        ⟨.warn, step.byteAtPc.message⟩ := by
  have faultsEq : Record.isWarning ∘ closingRecord = faults :=
    funext isWarning_closingRecord
  rw [List.filter_map, faultsEq]
  refine List.map_congr_left fun step member => ?_
  exact closingRecord_of_faults (List.mem_filter.mp member).2

structure FaultsSince (before : Processor) (steps : List Processor)
    (reached : Processor) : Prop where
  faultCount :
    reached.faultCount = before.faultCount + (steps.filter faults).length
  lastFault :
    reached.lastFault =
      ((steps.filter faults).getLast?.map byteAtPc).or before.lastFault

namespace FaultsSince

variable {before : Processor}

theorem refl (before : Processor) : FaultsSince before [] before :=
  ⟨rfl, rfl⟩

theorem step {steps : List Processor} {processor : Processor}
    (since : FaultsSince before steps processor) :
    FaultsSince before (steps ++ [processor]) processor.step.value.2 := by
  obtain ⟨faultCountEq, lastFaultEq⟩ := faults_step processor
  constructor
  · rw [faultCountEq, since.faultCount, List.filter_append,
      List.length_append, Nat.add_assoc]
  · rw [lastFaultEq, since.lastFault, List.filter_append,
      List.getLast?_append, Option.map_or, Option.or_assoc]

theorem kept (before : Processor) :
    KeptByExecution (FaultsSince before) where
  step _ _ since := since.step
  stop _ _ _ since := { since with }

end FaultsSince

theorem filter_isTagged_closingRecord (steps : List Processor) :
    (steps.map closingRecord).filter Record.isTagged =
      steps.map closingRecord := by
  rw [List.filter_eq_self]
  intro record member
  obtain ⟨step, _, rfl⟩ := List.mem_map.mp member
  exact isTagged_executionRecord step.pc step.fetched.instruction

theorem filterMap_taggedPc?_closingRecord (steps : List Processor) :
    (steps.map closingRecord).filterMap Record.taggedPc? =
      steps.map pc := by
  have pcEq : Record.taggedPc? ∘ closingRecord = some ∘ pc :=
    funext fun step => taggedPc?_executionRecord step.pc _
  rw [List.filterMap_map, pcEq, List.filterMap_eq_map]

structure Traces (log : List Record) (before : Processor)
    (steps : List Processor) (reached : Processor) : Prop where
  tagged :
    log.filter Record.isTagged =
      steps.map fun step =>
        executionRecord step.pc step.fetched.instruction
  addresses : log.filterMap Record.taggedPc? = steps.map pc
  warnings :
    log.filter Record.isWarning =
      (steps.filter faults).map fun step =>
        ⟨.warn, step.byteAtPc.message⟩
  faultCount :
    reached.faultCount =
      before.faultCount + (log.filter Record.isWarning).length
  /-- Without a warning the last fault is still the one from before. -/
  lastFault :
    reached.lastFault.map Fault.message =
      ((log.filter Record.isWarning).getLast?.map Record.message).or
        (before.lastFault.map Fault.message)

theorem traces_recordsForAll (before : Processor)
    (executions : List Execution) :
    Traces (before.recordsForAll executions) before
      (before.stepsForAll (executions.map .execute))
      (before.obeyAll (executions.map .execute)) := by
  have noAdjustment (adjustment : Adjustment) :
      Request.adjust adjustment ∉ executions.map .execute := by
    simp
  have since := (FaultsSince.kept before).obeyAll
    (fun adjustment member => absurd member (noAdjustment adjustment))
    (FaultsSince.refl before)
  have tagged :
      (before.recordsForAll executions).filter Record.isTagged = _ :=
    (filter_recordsForAll isTagged_unmappedRecord (fun _ => rfl) ..).trans
      (filter_isTagged_closingRecord _)
  have warnings :
      (before.recordsForAll executions).filter Record.isWarning = _ :=
    (filter_recordsForAll (fun _ => rfl) (fun _ => rfl) ..).trans
      (filter_isWarning_closingRecord _)
  constructor
  · exact tagged
  · rw [filterMap_taggedPc?, tagged]
    exact filterMap_taggedPc?_closingRecord _
  · exact warnings
  · rw [warnings, List.length_map]
    exact since.faultCount
  · rw [warnings, List.getLast?_map, Option.map_map]
    refine (congrArg _ since.lastFault).trans ?_
    rw [Option.map_or, Option.map_map]
    rfl

/-- The log of any steps and runs is a trace of what was executed.  Each
instruction makes one record for each address that its fetch reads and that
leads nowhere, lowest first, and then its own: a warning with the text of the
fault, or a trace that names the address and the instruction.  So the records
that are tagged with an address list the executed instructions in order, there
are as many warnings as faults, and the last one has the text of the last
fault. -/
theorem log_traces_executions (before : Processor)
    (executions : List Execution) :
    let ran := before.tracedAll executions
    let log := recordsAtLeast .trace ran.events
    let steps := before.stepsForAll (executions.map .execute)
    (∀ processor : Processor,
        recordsAtLeast .trace processor.step.events =
          (unmappedAhead processor.pc).map unmappedRecord ++
            [executionRecord processor.pc
              processor.fetched.instruction]) ∧
      (∀ pc, (unmappedAhead pc).Pairwise (· < ·) ∧
        ∀ address, address ∈ unmappedAhead pc ↔
          pc.toNat ≤ address.toNat ∧ address.toNat ≤ pc.toNat + 6 ∧
            ¬IsMapped address) ∧
      log = before.recordsForAll executions ∧
      Traces log before steps ran.value ∧
      Function.Injective2 executionRecord := by
  intro ran log steps
  have logEq : log = before.recordsForAll executions :=
    records_tracedAll before executions
  refine ⟨records_step, ?_, logEq, ?_, executionRecord_injective⟩
  · exact fun pc => ⟨pairwise_unmappedAhead pc, mem_unmappedAhead_iff pc⟩
  · rw [logEq, value_tracedAll]
    exact traces_recordsForAll before executions

end Processor

end RxBoard
