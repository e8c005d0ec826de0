import Mathlib.Data.List.DropRight
import RxBoard.Peripheral.RegisterBlock

/-!
Peripherals as register files.

A register file remembers the last byte written to each of its offsets.  Wide
writes are histories of several bytes; what a register file holds follows from
what one byte write does to it (`HoldsLast.write`), and what it holds after any
sequence of operations from what it does for one (`holds_performAll`).
-/

namespace RxBoard

inductive BusWrite where
  | byte (offset : UInt32) (number : UInt8)
  | halfword (offset : UInt32) (number : UInt16)
  | word (offset number : UInt32)

/-- The bytes of a write with the offsets they go to, least significant byte
first. -/
def BusWrite.bytes : BusWrite → List (UInt32 × UInt8)
  | .byte offset number => [(offset, number)]
  | .halfword offset number =>
      [(offset, number.toUInt8),
        (offset + 1, (number >>> 8).toUInt8)]
  | .word offset number =>
      [(offset, number.toUInt8),
        (offset + 1, (number >>> 8).toUInt8),
        (offset + 2, (number >>> 16).toUInt8),
        (offset + 3, (number >>> 24).toUInt8)]

namespace RegisterBlock

variable {δ : Type} [RegisterBlock δ]

def write (block : δ) : BusWrite → Logged δ
  | .byte offset number => write8 block offset number
  | .halfword offset number => write16 block offset number
  | .word offset number => write32 block offset number

def writeEach (block : δ) : List (UInt32 × UInt8) → Logged δ
  | [] => pure block
  | byte :: rest => do
      let written ← write8 block byte.1 byte.2
      writeEach written rest

/-- A write is byte writes to its offsets. -/
theorem write_eq_writeEach (block : δ) (access : BusWrite) :
    write block access = writeEach block access.bytes := by
  cases access with
  | byte offset number =>
      change _ = Logged.mk _ (_ ++ [])
      rw [List.append_nil]
      rfl
  | halfword offset number =>
      rw [write, write16, LittleEndian.halfwordBytes_eq]
      rfl
  | word offset number =>
      have second : offset + 1 + 1 = offset + 2 :=
        UInt32.add_assoc offset 1 1
      have third : offset + 2 + 1 = offset + 3 :=
        UInt32.add_assoc offset 2 1
      rw [write, write32, LittleEndian.wordBytes_eq]
      simp only [writeBytes, second, third]
      rfl

theorem value_writeEach (block : δ) (bytes : List (UInt32 × UInt8)) :
    (writeEach block bytes).value =
      bytes.foldl
        (fun written byte => (write8 written byte.1 byte.2).value)
        block := by
  induction bytes generalizing block with
  | nil => rfl
  | cons byte rest inductionHypothesis => exact inductionHypothesis _

/-- A write leaves what byte writes to its offsets leave. -/
theorem value_write (block : δ) (access : BusWrite) :
    (write block access).value =
      access.bytes.foldl
        (fun written byte => (write8 written byte.1 byte.2).value)
        block := by
  rw [write_eq_writeEach, value_writeEach]

structure ReadsBytewise (block : δ) : Prop where
  halfword (offset : UInt32) :
    (read16 block offset).toNat =
      (read8 block offset).toNat + 256 * (read8 block (offset + 1)).toNat
  word (offset : UInt32) :
    (read32 block offset).toNat =
      (read8 block offset).toNat + 256 * (read8 block (offset + 1)).toNat +
        65536 * (read8 block (offset + 2)).toNat +
        16777216 * (read8 block (offset + 3)).toNat

theorem readsBytewise (block : δ) : ReadsBytewise block where
  halfword offset := by
    have low := (read8 block offset).toNat_lt
    have high := (read8 block (offset + 1)).toNat_lt
    have bytesEq : readBytes block offset 2 =
        [read8 block offset, read8 block (offset + 1)] := by
      simp [readBytes, List.range_succ]
    rw [read16, bytesEq]
    simp only [LittleEndian.halfword, LittleEndian.value,
      UInt16.toNat_ofNat']
    omega
  word offset := by
    have low := (read8 block offset).toNat_lt
    have second := (read8 block (offset + 1)).toNat_lt
    have third := (read8 block (offset + 2)).toNat_lt
    have high := (read8 block (offset + 3)).toNat_lt
    have bytesEq : readBytes block offset 4 =
        [read8 block offset, read8 block (offset + 1),
          read8 block (offset + 2), read8 block (offset + 3)] := by
      simp [readBytes, List.range_succ]
    rw [read32, bytesEq]
    simp only [LittleEndian.word, LittleEndian.value,
      UInt32.toNat_ofNat']
    omega

end RegisterBlock

def lastFor? {κ α : Type} [BEq κ] (history : List (κ × α)) (key : κ) :
    Option α :=
  history.reverse.lookup key

theorem lastFor?_append_singleton {κ α : Type} [DecidableEq κ]
    (history : List (κ × α)) (entered key : κ) (value : α) :
    lastFor? (history ++ [(entered, value)]) key =
      if key = entered then some value else lastFor? history key := by
  rw [lastFor?, List.reverse_append, List.reverse_singleton,
    List.lookup_append, List.lookup_cons, List.lookup_nil]
  by_cases same : key = entered
  · rw [if_pos same, beq_iff_eq.mpr same]
    rfl
  · rw [if_neg same, beq_eq_false_iff_ne.mpr same]
    rfl

namespace RegisterBlock

variable {δ : Type} [RegisterBlock δ]

/-- Whether what is written to certain offsets is stored: it reads back until
the next write there. -/
def StoresBytes (δ : Type) [RegisterBlock δ] (offsets : UInt32 → Prop) :
    Prop :=
  ∀ (block : δ) (target offset : UInt32) (byte : UInt8), offsets offset →
    read8 (write8 block target byte).value offset =
      if offset = target then byte else read8 block offset

/-- Whether registers hold the bytes last written to them, and their power-on
values where nothing was written. -/
def HoldsLast (offsets : UInt32 → Prop) (powerOn : UInt32 → UInt8)
    (block : δ) (history : List (UInt32 × UInt8)) : Prop :=
  ∀ offset, offsets offset →
    read8 block offset =
      (lastFor? history offset).getD (powerOn offset)

namespace HoldsLast

variable {offsets : UInt32 → Prop} {powerOn : UInt32 → UInt8} {block : δ}
  {history : List (UInt32 × UInt8)}

theorem write8 (stores : StoresBytes δ offsets)
    (holds : HoldsLast offsets powerOn block history)
    (target : UInt32) (byte : UInt8) :
    HoldsLast offsets powerOn
      (RegisterBlock.write8 block target byte).value
      (history ++ [(target, byte)]) := by
  intro offset isRegister
  rw [stores block target offset byte isRegister,
    lastFor?_append_singleton, holds offset isRegister]
  split <;> rfl

theorem writeEach (stores : StoresBytes δ offsets)
    (holds : HoldsLast offsets powerOn block history)
    (written : List (UInt32 × UInt8)) :
    HoldsLast offsets powerOn
      (written.foldl
        (fun reached byte =>
          (RegisterBlock.write8 reached byte.1 byte.2).value)
        block)
      (history ++ written) := by
  induction written generalizing block history with
  | nil =>
      rw [List.append_nil]
      exact holds
  | cons byte rest inductionHypothesis =>
      rw [← List.singleton_append, ← List.append_assoc]
      exact inductionHypothesis
        (holds.write8 stores byte.1 byte.2)

theorem write (stores : StoresBytes δ offsets)
    (holds : HoldsLast offsets powerOn block history)
    (access : BusWrite) :
    HoldsLast offsets powerOn (RegisterBlock.write block access).value
      (history ++ access.bytes) := by
  rw [value_write]
  exact holds.writeEach stores access.bytes

end HoldsLast

end RegisterBlock

/-! ### Sequences of operations -/

/-- What may be done to a peripheral: over the bus, or by a call from the
host. -/
inductive RegisterOperation (κ : Type) where
  | write (access : BusWrite)
  | reset
  | call (request : κ)

namespace RegisterOperation

variable {κ ε : Type}

def isReset : RegisterOperation κ → Bool
  | .reset => true
  | _ => false

/-- What writes and calls have entered since the last reset. -/
def history (ofWrite : BusWrite → List ε) (ofCall : κ → List ε)
    (operations : List (RegisterOperation κ)) : List ε :=
  (operations.rtakeWhile fun operation => !operation.isReset).flatMap
    fun
    | .write access => ofWrite access
    | .reset => []
    | .call request => ofCall request

variable (ofWrite : BusWrite → List ε) (ofCall : κ → List ε)
  (earlier : List (RegisterOperation κ))

theorem history_write (access : BusWrite) :
    history ofWrite ofCall (earlier ++ [.write access]) =
      history ofWrite ofCall earlier ++ ofWrite access := by
  rw [history, List.rtakeWhile_concat_pos _ _ _ rfl,
    List.flatMap_append, List.flatMap_singleton]
  rfl

theorem history_reset :
    history ofWrite ofCall (earlier ++ [.reset]) = [] := by
  rw [history, List.rtakeWhile_concat_neg _ _ _ (by simp [isReset])]
  rfl

theorem history_call (request : κ) :
    history ofWrite ofCall (earlier ++ [.call request]) =
      history ofWrite ofCall earlier ++ ofCall request := by
  rw [history, List.rtakeWhile_concat_pos _ _ _ rfl,
    List.flatMap_append, List.flatMap_singleton]
  rfl

end RegisterOperation

namespace RegisterBlock

variable {δ κ ε : Type} [RegisterBlock δ]

def perform (call : δ → κ → δ) (block : δ) : RegisterOperation κ → δ
  | .write access => (write block access).value
  | .reset => reset block
  | .call request => call block request

def performAll (call : δ → κ → δ) (block : δ)
    (operations : List (RegisterOperation κ)) : δ :=
  operations.foldl (perform call) block

/-- What holds of a block and a history at power-on, and is kept by every
operation, holds after all of them. -/
theorem holds_performAll {Holds : δ → List ε → Prop}
    {call : δ → κ → δ} {ofWrite : BusWrite → List ε}
    {ofCall : κ → List ε}
    (afterReset : ∀ block : δ, Holds (reset block) [])
    (afterWrite : ∀ {block : δ} {history : List ε},
      Holds block history → ∀ access,
        Holds (write block access).value (history ++ ofWrite access))
    (afterCall : ∀ {block : δ} {history : List ε},
      Holds block history → ∀ request,
        Holds (call block request) (history ++ ofCall request))
    {block : δ} (start : Holds block [])
    (operations : List (RegisterOperation κ)) :
    Holds (performAll call block operations)
      (RegisterOperation.history ofWrite ofCall operations) := by
  induction operations using List.reverseRecOn with
  | nil => exact start
  | append_singleton earlier operation inductionHypothesis =>
      rw [performAll, List.foldl_append]
      cases operation with
      | write access =>
          rw [RegisterOperation.history_write]
          exact afterWrite inductionHypothesis access
      | reset =>
          rw [RegisterOperation.history_reset]
          exact afterReset _
      | call request =>
          rw [RegisterOperation.history_call]
          exact afterCall inductionHypothesis request

end RegisterBlock

end RxBoard
