import Mathlib.Data.List.Nodup
import RxBoard.Peripheral.SerialChannel
import RxBoard.Proofs.Peripheral.RegisterFile

/-!
What a serial channel transmits.

The log and the listener follow the same bytes, those that writes address to
the data register.  The log starts again with every clear and reset, a listener
when it is attached, and neither depends on the other (`follows_performAll`).
-/

namespace RxBoard

open RegisterBlock

/-- The bytes among some with their offsets that go to the data register. -/
def dataBytes (written : List (UInt32 × UInt8)) : List UInt8 :=
  (written.filter fun byte => byte.1 == 0).map Prod.snd

theorem dataBytes_cons (offset : UInt32) (byte : UInt8)
    (rest : List (UInt32 × UInt8)) :
    dataBytes ((offset, byte) :: rest) =
      (if offset = 0 then [byte] else []) ++ dataBytes rest := by
  by_cases isData : offset = 0
  · simp [dataBytes, isData]
  · simp [dataBytes, isData]

theorem length_dataBytes (written : List (UInt32 × UInt8)) :
    (dataBytes written).length = (written.map Prod.fst).count 0 := by
  rw [dataBytes, List.length_map, ← List.countP_eq_length_filter,
    List.count, List.countP_map]
  rfl

/-- The offsets of a write are apart, also where they wrap around. -/
theorem BusWrite.nodup_offsets (access : BusWrite) :
    (access.bytes.map Prod.fst).Nodup := by
  cases access with
  | byte offset number => exact List.nodup_singleton offset
  | halfword offset number => simp [bytes]
  | word offset number => simp [bytes]

def BusWrite.transmitted (access : BusWrite) : List UInt8 :=
  dataBytes access.bytes

theorem BusWrite.length_transmitted_le (access : BusWrite) :
    access.transmitted.length ≤ 1 := by
  rw [transmitted, length_dataBytes]
  exact List.nodup_iff_count_le_one.mp access.nodup_offsets 0

namespace SerialChannel

/-- Whether an operation transmits bytes: they are added to the log, and
handed to the listener if one is attached. -/
structure Transmits (before : SerialChannel) (bytes : List UInt8)
    (performed : Logged SerialChannel) : Prop where
  log : performed.value.log = before.log ++ bytes
  hasListener : performed.value.hasListener = before.hasListener
  deliveries :
    deliveries performed.events =
      if before.hasListener then bytes else []

theorem deliveries_append (first second : List Event) :
    deliveries (first ++ second) =
      deliveries first ++ deliveries second :=
  List.filterMap_append

namespace Transmits

variable {before : SerialChannel} {bytes more : List UInt8}

theorem nothing (channel : SerialChannel) :
    Transmits channel [] (pure channel) where
  log := (List.append_nil channel.log).symm
  hasListener := rfl
  deliveries := (ite_self _).symm

theorem bind {first : Logged SerialChannel}
    {next : SerialChannel → Logged SerialChannel}
    (front : Transmits before bytes first)
    (back : Transmits first.value more (next first.value)) :
    Transmits before (bytes ++ more) (first >>= next) where
  log := by
    rw [Logged.value_bind, back.log, front.log, List.append_assoc]
  hasListener := back.hasListener.trans front.hasListener
  deliveries := by
    rw [Logged.events_bind, deliveries_append, front.deliveries,
      back.deliveries, front.hasListener]
    split
    · rfl
    · rfl

theorem transmit (channel : SerialChannel) (byte : UInt8) :
    Transmits channel [byte] (channel.transmit byte) := by
  constructor
  · rw [value_transmit]
    exact List.reverse_cons
  · rw [value_transmit]
  · unfold SerialChannel.transmit
    cases channel.hasListener with
    | false => rfl
    | true => rfl

theorem write8 (channel : SerialChannel) (offset : UInt32)
    (byte : UInt8) :
    Transmits channel (if offset = 0 then [byte] else [])
      (RegisterBlock.write8 channel offset byte) := by
  by_cases isData : offset = 0
  · subst isData
    exact transmit channel byte
  · have ignored :
        RegisterBlock.write8 channel offset byte = pure channel :=
      if_neg isData
    rw [if_neg isData, ignored]
    exact nothing channel

theorem writeEach (channel : SerialChannel)
    (written : List (UInt32 × UInt8)) :
    Transmits channel (dataBytes written)
      (RegisterBlock.writeEach channel written) := by
  induction written generalizing channel with
  | nil => exact nothing channel
  | cons byte rest inductionHypothesis =>
      rw [dataBytes_cons]
      exact (write8 channel byte.1 byte.2).bind (inductionHypothesis _)

theorem write (channel : SerialChannel) (access : BusWrite) :
    Transmits channel access.transmitted
      (RegisterBlock.write channel access) := by
  rw [write_eq_writeEach]
  exact writeEach channel access.bytes

end Transmits

/-! ### Sequences of operations -/

inductive HostCall where
  | clearLog
  | attachListener

def call (channel : SerialChannel) : HostCall → SerialChannel
  | .clearLog => channel.clearLog
  | .attachListener => channel.attachListener

structure Monitored where
  channel : SerialChannel := {}
  heard : List UInt8 := []

/-- Performs an operation and lets the listener hear what is handed to it.  One
that is just attached has heard nothing. -/
def Monitored.perform (monitored : Monitored)
    (operation : RegisterOperation HostCall) : Monitored where
  channel := RegisterBlock.perform call monitored.channel operation
  heard :=
    match operation with
    | .write access =>
        monitored.heard ++
          deliveries (RegisterBlock.write monitored.channel access).events
    | .reset => monitored.heard
    | .call .clearLog => monitored.heard
    | .call .attachListener => []

def Monitored.performAll (operations : List (RegisterOperation HostCall)) :
    Monitored :=
  operations.foldl perform {}

def restartsLog : RegisterOperation HostCall → Bool
  | .reset => true
  | .call .clearLog => true
  | _ => false

def attaches : RegisterOperation HostCall → Bool
  | .call .attachListener => true
  | _ => false

def transmittedBy : RegisterOperation HostCall → List UInt8
  | .write access => access.transmitted
  | _ => []

/-- The bytes transmitted since the last operation of some kind. -/
def transmittedSince (restarts : RegisterOperation HostCall → Bool)
    (operations : List (RegisterOperation HostCall)) : List UInt8 :=
  (operations.rtakeWhile fun operation => !restarts operation).flatMap
    transmittedBy

theorem transmittedSince_concat
    (restarts : RegisterOperation HostCall → Bool)
    (earlier : List (RegisterOperation HostCall))
    (operation : RegisterOperation HostCall) :
    transmittedSince restarts (earlier ++ [operation]) =
      if restarts operation then []
      else transmittedSince restarts earlier ++ transmittedBy operation := by
  rw [transmittedSince, List.rtakeWhile_concat]
  cases restarts operation with
  | false => simp [transmittedSince]
  | true => rfl

structure Monitored.Follows (reached : Monitored)
    (operations : List (RegisterOperation HostCall)) : Prop where
  log : reached.channel.log = transmittedSince restartsLog operations
  hasListener : reached.channel.hasListener = operations.any attaches
  heard :
    reached.heard =
      if operations.any attaches then
        transmittedSince attaches operations
      else
        []

theorem any_attaches_concat (earlier : List (RegisterOperation HostCall))
    (operation : RegisterOperation HostCall) :
    (earlier ++ [operation]).any attaches =
      (earlier.any attaches || attaches operation) := by
  rw [List.any_append, List.any_cons, List.any_nil, Bool.or_false]

namespace Monitored

theorem follows_nothing : Follows {} [] where
  log := rfl
  hasListener := rfl
  heard := rfl

variable {reached : Monitored}
  {earlier : List (RegisterOperation HostCall)}

theorem Follows.write (follows : reached.Follows earlier)
    (access : BusWrite) :
    (reached.perform (.write access)).Follows
      (earlier ++ [.write access]) := by
  have written := Transmits.write reached.channel access
  constructor
  · rw [transmittedSince_concat]
    exact written.log.trans
      (congrArg (· ++ access.transmitted) follows.log)
  · rw [any_attaches_concat]
    exact written.hasListener.trans
      (follows.hasListener.trans (Bool.or_false _).symm)
  · have heardEq : (reached.perform (.write access)).heard =
        reached.heard ++ if earlier.any attaches then
          access.transmitted else [] := by
      rw [← follows.hasListener, ← written.deliveries]
      rfl
    rw [heardEq, follows.heard, any_attaches_concat,
      transmittedSince_concat]
    cases earlier.any attaches with
    | false => rfl
    | true => rfl

/-- What empties the log changes nothing for the listener. -/
theorem Follows.clearLog (follows : reached.Follows earlier)
    {operation : RegisterOperation HostCall}
    (restarts : restartsLog operation = true)
    (keeps : attaches operation = false)
    (silent : transmittedBy operation = []) :
    Follows { reached with channel := reached.channel.clearLog }
      (earlier ++ [operation]) := by
  constructor
  · rw [transmittedSince_concat, if_pos restarts]
    rfl
  · rw [any_attaches_concat, keeps, Bool.or_false]
    exact follows.hasListener
  · rw [any_attaches_concat, keeps, Bool.or_false,
      transmittedSince_concat, keeps, silent, List.append_nil]
    exact follows.heard

theorem Follows.attachListener (follows : reached.Follows earlier) :
    (reached.perform (.call .attachListener)).Follows
      (earlier ++ [.call .attachListener]) := by
  constructor
  · rw [transmittedSince_concat]
    exact follows.log.trans (List.append_nil _).symm
  · rw [any_attaches_concat]
    exact (Bool.or_true _).symm
  · rw [any_attaches_concat, transmittedSince_concat]
    exact (ite_self _).symm

theorem Follows.perform (follows : reached.Follows earlier)
    (operation : RegisterOperation HostCall) :
    (reached.perform operation).Follows (earlier ++ [operation]) := by
  cases operation with
  | write access => exact follows.write access
  | reset => exact follows.clearLog rfl rfl rfl
  | call request =>
      cases request with
      | clearLog => exact follows.clearLog rfl rfl rfl
      | attachListener => exact follows.attachListener

theorem Follows.performAll
    (operations : List (RegisterOperation HostCall)) :
    (Monitored.performAll operations).Follows operations := by
  induction operations using List.reverseRecOn with
  | nil => exact follows_nothing
  | append_singleton earlier operation inductionHypothesis =>
      rw [Monitored.performAll, List.foldl_append]
      exact inductionHypothesis.perform operation

end Monitored

theorem map_toNat_logText (channel : SerialChannel) :
    channel.logText.map Char.toNat = channel.log.map UInt8.toNat := by
  rw [logText, List.map_map]
  apply List.map_congr_left
  intro byte _member
  have valid : byte.toNat.isValidChar :=
    Or.inl (Nat.lt_trans byte.toNat_lt (by omega))
  rw [Function.comp_apply, Char.ofNat, dif_pos valid]
  rfl

theorem reads_zero (channel : SerialChannel) (offset : UInt32) :
    read8 channel offset = 0 ∧ read16 channel offset = 0 ∧
      read32 channel offset = 0 :=
  ⟨rfl, rfl, rfl⟩

/-- After any operations on a new channel the log is what was transmitted since
it was last emptied, with one character for each byte, and the listener has
heard what was transmitted since it was attached.  A write transmits no more
than the one byte whose offset is zero, and every register reads as zero. -/
theorem Monitored.follows_performAll
    (operations : List (RegisterOperation HostCall)) :
    let reached := performAll operations
    reached.Follows operations ∧
      reached.channel.logText.map Char.toNat =
        (transmittedSince restartsLog operations).map UInt8.toNat ∧
      (∀ access : BusWrite,
        Transmits reached.channel access.transmitted
            (RegisterBlock.write reached.channel access) ∧
          access.transmitted.length ≤ 1) ∧
      ∀ offset : UInt32,
        read8 reached.channel offset = 0 ∧
          read16 reached.channel offset = 0 ∧
          read32 reached.channel offset = 0 := by
  intro reached
  have follows : reached.Follows operations := Follows.performAll operations
  refine ⟨follows, ?_, ?_, reads_zero reached.channel⟩
  · rw [map_toNat_logText, follows.log]
  · intro access
    exact ⟨Transmits.write reached.channel access,
      access.length_transmitted_le⟩

/-- A word that is written two offsets below zero reaches the data register with
its third byte. -/
example : (BusWrite.word 0xFFFFFFFE 0x44332211).transmitted = [0x33] :=
  rfl

end SerialChannel

end RxBoard
