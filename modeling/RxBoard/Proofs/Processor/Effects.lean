import RxBoard.Proofs.Processor.Requests

/-!
What execution changes.

The instructions that are fetched say which registers are written and with what
(`written?`).  Besides these writes, and the zero and sign flags of the last of
them, execution changes only the program counter, the counters, the record of
the last fault and where a run stopped.
-/

namespace RxBoard.Processor

def written? (processor : Processor) : Option (Fin 16 × UInt32) :=
  match processor.fetched.instruction with
  | .nop => none
  | .moveImmediate destination immediate =>
      some (registerIndex destination, immediate)
  | .moveRegister source destination =>
      some (registerIndex destination, processor.register source)
  | .addImmediate destination immediate =>
      some (registerIndex destination,
        processor.register destination + immediate)
  | .unrecognized _ => none

def valueAfter (writes : List (Fin 16 × UInt32)) (index : Fin 16)
    (old : UInt32) : UInt32 :=
  writes.foldl
    (fun value write => if write.1 = index then write.2 else value) old

/-- Flags whose zero and sign are those of the last value written. -/
def flagsAfter (writes : List (Fin 16 × UInt32)) (old : StatusWord) :
    StatusWord :=
  match writes.getLast? with
  | none => old
  | some (_, value) =>
      { old with
        zero := decide (value = 0)
        sign := value.toNat.testBit 31 }

/-- Whether two states differ by writes to registers and the flags that follow
from them only, apart from the program counter, the counters and the records of
faults and runs. -/
structure ChangedBy (writes : List (Fin 16 × UInt32))
    (before after : Processor) : Prop where
  memory : ∀ address,
    after.memory.byteAt address = before.memory.byteAt address
  userStack : after.userStack = before.userStack
  interruptStack : after.interruptStack = before.interruptStack
  accumulator : after.accumulator = before.accumulator
  breakpoints : after.breakpoints = before.breakpoints
  registers : ∀ index : Fin 16,
    after.registers.get index =
      valueAfter writes index (before.registers.get index)
  status : after.status = flagsAfter writes before.status

theorem valueAfter_append (writes more : List (Fin 16 × UInt32))
    (index : Fin 16) (old : UInt32) :
    valueAfter (writes ++ more) index old =
      valueAfter more index (valueAfter writes index old) :=
  List.foldl_append

theorem valueAfter_of_not_mem {writes : List (Fin 16 × UInt32)}
    {index : Fin 16}
    (unwritten : ∀ write ∈ writes, write.1 ≠ index) (old : UInt32) :
    valueAfter writes index old = old := by
  induction writes generalizing old with
  | nil => rfl
  | cons write rest inductionHypothesis =>
      obtain ⟨otherRegister, restUnwritten⟩ :=
        List.forall_mem_cons.mp unwritten
      rw [valueAfter, List.foldl_cons, if_neg otherRegister]
      exact inductionHypothesis restUnwritten old

theorem flagsAfter_append (writes more : List (Fin 16 × UInt32))
    (old : StatusWord) :
    flagsAfter (writes ++ more) old =
      flagsAfter more (flagsAfter writes old) := by
  unfold flagsAfter
  rw [List.getLast?_append]
  cases more.getLast? with
  | none => rfl
  | some last => cases writes.getLast? <;> rfl

namespace ChangedBy

variable {before between after : Processor}
  {writes more : List (Fin 16 × UInt32)}

theorem refl (processor : Processor) : ChangedBy [] processor processor :=
  ⟨fun _ => rfl, rfl, rfl, rfl, rfl, fun _ => rfl, rfl⟩

theorem trans (first : ChangedBy writes before between)
    (second : ChangedBy more between after) :
    ChangedBy (writes ++ more) before after where
  memory address := (second.memory address).trans (first.memory address)
  userStack := second.userStack.trans first.userStack
  interruptStack := second.interruptStack.trans first.interruptStack
  accumulator := second.accumulator.trans first.accumulator
  breakpoints := second.breakpoints.trans first.breakpoints
  registers index := by
    rw [second.registers, first.registers, valueAfter_append]
  status := by rw [second.status, first.status, flagsAfter_append]

/-- Putting a result into a register is one write. -/
theorem writeResult (processor : Processor) (name : UInt8)
    (value : UInt32) :
    ChangedBy [(registerIndex name, value)] processor
      (processor.writeResult name value) where
  memory _ := rfl
  userStack := rfl
  interruptStack := rfl
  accumulator := rfl
  breakpoints := rfl
  registers index := by
    refine (Vector.getElem_set (registerIndex name).isLt index.isLt).trans ?_
    simp only [valueAfter, List.foldl_cons, List.foldl_nil, Fin.ext_iff]
    rfl
  status := rfl

/-- An instruction changes what its write says.  A move of a register onto
itself is a write too, for the flags follow from it. -/
theorem perform (processor : Processor) :
    ChangedBy processor.written?.toList processor
      (processor.perform processor.fetched.instruction).value := by
  unfold written?
  cases processor.fetched.instruction with
  | nop => exact refl processor
  | moveImmediate destination immediate =>
      exact writeResult processor destination immediate
  | moveRegister source destination =>
      exact writeResult processor destination (processor.register source)
  | addImmediate destination immediate =>
      exact writeResult processor destination
        (processor.register destination + immediate)
  | unrecognized opcode => exact { refl processor with }

theorem step (processor : Processor) :
    ChangedBy processor.written?.toList processor
      processor.step.value.2 := by
  -- Moving on touches the program counter and the counters only.
  exact { perform processor with }

end ChangedBy

theorem written?_of_idle {processor : Processor}
    (idle : processor.fetched.instruction = .nop ∨
      processor.fetched.instruction.isRecognized = false) :
    processor.written? = none := by
  unfold written?
  cases fetchedEq : processor.fetched.instruction with
  | nop => rfl
  | unrecognized opcode => rfl
  | _ => simp [fetchedEq, Instruction.isRecognized] at idle

theorem changedBy_kept (before : Processor) :
    KeptByExecution fun steps reached =>
      ChangedBy (steps.filterMap written?) before reached where
  step steps processor changed := by
    rw [List.filterMap_append]
    exact changed.trans (ChangedBy.step processor)
  stop steps processor hit changed := { changed with }

/-- Execution changes the registers by the writes of the instructions that are
executed, and the flags by the last of them.  A register that none of them
writes stays, and where they are all `NOP` or unrecognized, every register and
flag does. -/
theorem changedBy_executions (before : Processor)
    (executions : List Execution) :
    let requests := executions.map Request.execute
    let after := before.obeyAll requests
    let steps := before.stepsForAll requests
    ChangedBy (steps.filterMap written?) before after ∧
      (∀ index : Fin 16,
        (∀ step ∈ steps, step.written?.map Prod.fst ≠ some index) →
          after.registers.get index = before.registers.get index) ∧
      ((∀ step ∈ steps, step.fetched.instruction = .nop ∨
          step.fetched.instruction.isRecognized = false) →
        after.registers = before.registers ∧
          after.status = before.status) := by
  intro requests after steps
  have noAdjustment (adjustment : Adjustment) :
      Request.adjust adjustment ∉ requests := by
    simp [requests]
  have unchanged : ChangedBy (([] : List Processor).filterMap written?)
      before before := ChangedBy.refl before
  have changed : ChangedBy (steps.filterMap written?) before after :=
    (changedBy_kept before).obeyAll
      (fun adjustment member => absurd member (noAdjustment adjustment))
      unchanged
  have untouched (index : Fin 16)
      (unwritten : ∀ step ∈ steps,
        step.written?.map Prod.fst ≠ some index) :
      after.registers.get index = before.registers.get index := by
    rw [changed.registers]
    apply valueAfter_of_not_mem
    intro write member sameRegister
    obtain ⟨step, stepMember, writtenEq⟩ := List.mem_filterMap.mp member
    apply unwritten step stepMember
    rw [writtenEq, Option.map_some, sameRegister]
  refine ⟨changed, untouched, ?_⟩
  intro idle
  have noWrites : steps.filterMap written? = [] := by
    rw [List.filterMap_eq_nil_iff]
    intro step member
    exact written?_of_idle (idle step member)
  constructor
  · apply Vector.ext
    intro index inside
    refine untouched ⟨index, inside⟩ ?_
    intro step member
    rw [written?_of_idle (idle step member)]
    exact nofun
  · rw [changed.status, noWrites]
    rfl

end RxBoard.Processor
