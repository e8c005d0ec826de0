import RxBoard.Processor.Execution
import RxBoard.Proofs.Checked.Code
import RxBoard.Proofs.Checked.Source
import RxBoard.Proofs.Memory.Flat

/-!
Memory as buffers, under accesses that can fail.

Here RAM and code flash are buffers whose sizes nothing promises.  An address is
made an index by subtraction, which must not go below zero, and every index and
bound must lie inside the buffer.  From a blank memory on, buffers take the same
operations as memory and keep its contents, and hence its sizes
(`Buffers.afterAll_eq`).  So no access to them is ever outside.
-/

namespace RxBoard.Checked

def subtract? (number subtrahend : Nat) : Option Nat :=
  if subtrahend ≤ number then some (number - subtrahend) else none

def replace? (cells : List UInt8) (index : Nat) (byte : UInt8) :
    Option (List UInt8) :=
  if index < cells.length then some (cells.set index byte) else none

/-- Puts bytes in the place of as many others between two bounds. -/
def copy? (cells : List UInt8) (start stop : Nat) (source : List UInt8) :
    Option (List UInt8) := do
  let replaced ← slice? cells start stop
  if replaced.length = source.length then
    some (cells.take start ++ source ++ cells.drop stop)
  else
    none

theorem copy?_eq {cells source : List UInt8} {start count : Nat}
    (inside : start + count ≤ cells.length)
    (lengthEq : source.length = count) :
    copy? cells start (start + count) source =
      some (cells.take start ++ source ++ cells.drop (start + count)) := by
  have replaced :
      ((cells.take (start + count)).drop start).length = source.length := by
    rw [List.length_drop, List.length_take_of_le inside, lengthEq,
      Nat.add_sub_cancel_left]
  rw [copy?, slice?, if_pos ⟨Nat.le_add_right start count, inside⟩,
    Option.bind_eq_bind, Option.bind_some, if_pos replaced]

structure Buffers where
  ram : List UInt8
  rom : List UInt8

namespace Buffers

def blank : Buffers where
  ram := List.replicate AddressMap.ramSize 0x00
  rom := List.replicate AddressMap.romSize 0x03

def cells (buffers : Buffers) : Region → List UInt8
  | .ram => buffers.ram
  | .rom => buffers.rom

def withCells (buffers : Buffers) (region : Region)
    (cells : List UInt8) : Buffers :=
  match region with
  | .ram => { buffers with ram := cells }
  | .rom => { buffers with rom := cells }

def clearRam (buffers : Buffers) : Buffers :=
  { buffers with ram := List.replicate buffers.ram.length 0x00 }

def read8 (buffers : Buffers) (address : UInt32) : Option UInt8 :=
  match Region.ofAddress? address with
  | none => some 0
  | some region => do
      let index ← subtract? address.toNat region.window.first.toNat
      (buffers.cells region)[index]?

def write8 (buffers : Buffers) (address : UInt32) (byte : UInt8) :
    Option Buffers :=
  match Region.ofAddress? address with
  | none => some buffers
  | some region => do
      let index ← subtract? address.toNat region.window.first.toNat
      let written ← replace? (buffers.cells region) index byte
      return buffers.withCells region written

def load (buffers : Buffers) (data : List UInt8) (address : UInt32) :
    Option (Nat × Buffers) :=
  match Region.ofAddress? address with
  | none => some (0, buffers)
  | some region => do
      let index ← subtract? address.toNat region.window.first.toNat
      let room ← subtract? (buffers.cells region).length index
      let count := min data.length room
      let stored ← slice? data 0 count
      let loaded ←
        copy? (buffers.cells region) index (index + count) stored
      return (count, buffers.withCells region loaded)

def readPast (buffers : Buffers) (address : UInt32) (distance : Nat) :
    Option UInt8 :=
  match advance? address distance with
  | some target => buffers.read8 target
  | none => some 0

def dump (buffers : Buffers) (address : UInt32) (count : Nat) :
    Option (List UInt8) :=
  (List.range count).mapM (buffers.readPast address)

def read16 (buffers : Buffers) (address : UInt32) : Option UInt16 :=
  (buffers.dump address 2).map LittleEndian.halfword

def read32 (buffers : Buffers) (address : UInt32) : Option UInt32 :=
  (buffers.dump address 4).map LittleEndian.word

def writePast (buffers : Buffers) (address : UInt32) (distance : Nat)
    (byte : UInt8) : Option Buffers :=
  match advance? address distance with
  | some target => buffers.write8 target byte
  | none => some buffers

def writeBytesPast (buffers : Buffers) (address : UInt32)
    (distance : Nat) : List UInt8 → Option Buffers
  | [] => some buffers
  | byte :: rest => do
      let written ← buffers.writePast address distance byte
      written.writeBytesPast address (distance + 1) rest

def after (buffers : Buffers) : MemoryOperation → Option Buffers
  | .write8 address byte => buffers.write8 address byte
  | .write16 address number =>
      buffers.writeBytesPast address 0 (LittleEndian.halfwordBytes number)
  | .write32 address number =>
      buffers.writeBytesPast address 0 (LittleEndian.wordBytes number)
  | .load data address => (buffers.load data address).map Prod.snd
  | .clearRam => some buffers.clearRam

def afterAll (operations : List MemoryOperation) : Option Buffers :=
  operations.foldlM after blank

def decodeAt (buffers : Buffers) (pc : UInt32) : Option Decoded := do
  let window ← buffers.dump pc longestEncoding
  decode window

def ofMemory (memory : Memory) : Buffers where
  ram := memory.ram.toList
  rom := memory.rom.toList

def index : Location → Nat
  | .ram offset => offset
  | .rom offset => offset

variable (memory : Memory)

theorem length_cells (location : Location) :
    ((ofMemory memory).cells location.region).length =
      index location + location.room := by
  cases location with
  | ram offset =>
      have inside := offset.isLt
      change memory.ram.toList.length =
        offset.val + (AddressMap.ramSize - offset.val)
      rw [Vector.length_toList]
      omega
  | rom offset =>
      have inside := offset.isLt
      change memory.rom.toList.length =
        offset.val + (AddressMap.romSize - offset.val)
      rw [Vector.length_toList]
      omega

theorem index_lt_length (location : Location) :
    index location < ((ofMemory memory).cells location.region).length := by
  cases location with
  | ram offset =>
      exact Nat.lt_of_lt_of_eq offset.isLt (Vector.length_toList).symm
  | rom offset =>
      exact Nat.lt_of_lt_of_eq offset.isLt (Vector.length_toList).symm

theorem getElem?_cells (location : Location) :
    ((ofMemory memory).cells location.region)[index location]? =
      some (memory.get location) := by
  rw [List.getElem?_eq_getElem (index_lt_length memory location)]
  cases location <;> rfl

theorem ofMemory_set (location : Location) (byte : UInt8) :
    ofMemory (memory.set location byte) =
      (ofMemory memory).withCells location.region
        (((ofMemory memory).cells location.region).set (index location)
          byte) := by
  cases location <;>
    simp only [ofMemory, Memory.set, Vector.toList_set] <;> rfl

/-- An overwritten buffer is its front, the bytes as far as there is room, and
what is left behind them. -/
theorem toList_overwrite {size : Nat} (cells : Vector UInt8 size)
    {offset : Nat} (inside : offset ≤ size) (bytes : List UInt8) :
    let count := min bytes.length (size - offset)
    (overwrite cells offset bytes).toList =
      cells.toList.take offset ++ bytes.take count ++
        cells.toList.drop (offset + count) := by
  intro count
  have countLe : offset + count ≤ size := by omega
  have countLeLength : count ≤ bytes.length := Nat.min_le_left _ _
  have frontLength : (cells.toList.take offset).length = offset := by
    rw [List.length_take, Vector.length_toList, Nat.min_eq_left inside]
  have middleLength : (bytes.take count).length = count := by
    rw [List.length_take, Nat.min_eq_left countLeLength]
  apply List.ext_getElem
  · rw [Vector.length_toList, List.length_append, List.length_append,
      frontLength, middleLength, List.length_drop, Vector.length_toList]
    omega
  · intro position lower upper
    rw [Vector.length_toList] at lower
    rw [Vector.getElem_toList, getElem_overwrite, laid]
    by_cases before : position < offset
    · rw [if_neg (by omega),
        List.getElem_append_left (by rw [List.length_append]; omega),
        List.getElem_append_left (by omega), List.getElem_take,
        Vector.getElem_toList]
    · rw [if_pos (by omega)]
      by_cases behind : position < offset + count
      · have given : position - offset < bytes.length := by omega
        rw [List.getElem?_eq_getElem given, Option.getD_some,
          List.getElem_append_left
            (by rw [List.length_append]; omega),
          List.getElem_append_right (by omega), List.getElem_take]
        simp only [frontLength]
      · have beyond : bytes.length ≤ position - offset := by omega
        rw [List.getElem?_eq_none beyond, Option.getD_none,
          List.getElem_append_right
            (by rw [List.length_append]; omega),
          List.getElem_drop, Vector.getElem_toList]
        congr 1
        rw [List.length_append]
        omega

theorem ofMemory_store (location : Location) (bytes : List UInt8) :
    let cells := (ofMemory memory).cells location.region
    let count := min bytes.length location.room
    ofMemory (memory.store location bytes) =
      (ofMemory memory).withCells location.region
        (cells.take (index location) ++ bytes.take count ++
          cells.drop (index location + count)) := by
  cases location with
  | ram offset =>
      have stored := toList_overwrite memory.ram (Nat.le_of_lt offset.isLt)
        bytes
      simp only [ofMemory, Memory.store, stored]
      rfl
  | rom offset =>
      have stored := toList_overwrite memory.rom (Nat.le_of_lt offset.isLt)
        bytes
      simp only [ofMemory, Memory.store, stored]
      rfl

section

variable {address : UInt32} {location : Location}
  (found : Location.ofAddress? address = some location)

include found

theorem region_of_found :
    Region.ofAddress? address = some location.region := by
  rw [Region.ofAddress?, found, Option.map_some]

/-- An address that leads to a location is not below the first address of its
store. -/
theorem subtract?_of_found :
    subtract? address.toNat location.region.window.first.toNat =
      some (index location) := by
  rw [Location.position_of_ofAddress? found]
  cases location <;>
    simp [subtract?, Location.position, Location.region, Region.window,
      index]

end

theorem region_of_not_found {address : UInt32}
    (nowhere : Location.ofAddress? address = none) :
    Region.ofAddress? address = none := by
  rw [Region.ofAddress?, nowhere, Option.map_none]

theorem read8_ofMemory (address : UInt32) :
    (ofMemory memory).read8 address =
      some (memory.read8 address).value := by
  rw [Memory.value_read8, read8, Memory.byteAt]
  cases found : Location.ofAddress? address with
  | none => rw [region_of_not_found found]
  | some location =>
      rw [region_of_found found]
      simp only [subtract?_of_found found, Option.bind_eq_bind,
        Option.bind_some, getElem?_cells]

-- Of a buffer that is too small not every byte could be read.
example : (Buffers.mk [] []).read8 0 = none := rfl

theorem write8_ofMemory (address : UInt32) (byte : UInt8) :
    (ofMemory memory).write8 address byte =
      some (ofMemory (memory.write8 address byte).value) := by
  rw [write8, Memory.write8]
  cases found : Location.ofAddress? address with
  | none =>
      rw [region_of_not_found found]
      rfl
  | some location =>
      rw [region_of_found found]
      simp only [subtract?_of_found found, Option.bind_eq_bind,
        Option.bind_some, replace?, if_pos (index_lt_length memory location),
        Logged.value_pure, ofMemory_set]
      rfl

theorem load_ofMemory (data : List UInt8) (address : UInt32) :
    (ofMemory memory).load data address =
      some ((memory.load data address).value.1,
        ofMemory (memory.load data address).value.2) := by
  rw [load]
  cases found : Location.ofAddress? address with
  | none =>
      rw [region_of_not_found found, Memory.load, found]
      rfl
  | some location =>
      rw [region_of_found found, Memory.value_load memory data found]
      have lengthEq := length_cells memory location
      have room :
          subtract? ((ofMemory memory).cells location.region).length
            (index location) = some location.room := by
        rw [subtract?, if_pos (by omega), lengthEq, Nat.add_sub_cancel_left]
      have copied := copy?_eq
        (show index location + min data.length location.room ≤
          ((ofMemory memory).cells location.region).length by omega)
        (List.length_take_of_le (Nat.min_le_left data.length location.room))
      simp only [subtract?_of_found found, room, copied,
        slice?_from_start (Nat.min_le_left _ _), Option.bind_eq_bind,
        Option.bind_some, ofMemory_store]
      rfl

theorem readPast_ofMemory (address : UInt32) (distance : Nat) :
    (ofMemory memory).readPast address distance =
      some (memory.readPast address distance).value := by
  rw [readPast, Memory.readPast]
  cases advance? address distance with
  | none => rfl
  | some target => exact read8_ofMemory memory target

theorem dump_ofMemory (address : UInt32) (count : Nat) :
    (ofMemory memory).dump address count =
      some (memory.dump address count).value := by
  have reads : (ofMemory memory).readPast address =
      fun distance => pure (memory.readPast address distance).value :=
    funext (readPast_ofMemory memory address)
  rw [dump, reads, List.mapM_pure]
  rfl

theorem read16_ofMemory (address : UInt32) :
    (ofMemory memory).read16 address =
      some (memory.read16 address).value := by
  rw [read16, dump_ofMemory]
  rfl

theorem read32_ofMemory (address : UInt32) :
    (ofMemory memory).read32 address =
      some (memory.read32 address).value := by
  rw [read32, dump_ofMemory]
  rfl

theorem writeBytesPast_ofMemory (address : UInt32) (distance : Nat)
    (bytes : List UInt8) :
    (ofMemory memory).writeBytesPast address distance bytes =
      some (ofMemory (memory.writeBytesPast address distance
        bytes).value) := by
  induction bytes generalizing memory distance with
  | nil => rfl
  | cons byte rest inductionHypothesis =>
      have written : (ofMemory memory).writePast address distance byte =
          some (ofMemory (memory.writePast address distance byte).value) := by
        rw [writePast, Memory.writePast]
        cases advance? address distance with
        | none => rfl
        | some target => exact write8_ofMemory memory target byte
      rw [writeBytesPast, written, Option.bind_eq_bind, Option.bind_some,
        inductionHypothesis]
      rfl

theorem decodeAt_ofMemory (pc : UInt32) :
    (ofMemory memory).decodeAt pc =
      some (Processor.fetch memory pc).value := by
  rw [decodeAt, dump_ofMemory, Option.bind_eq_bind, Option.bind_some,
    decode_eq]
  rfl

/-! ### Operations in sequence -/

theorem after_ofMemory (operation : MemoryOperation) :
    (ofMemory memory).after operation =
      some (ofMemory (memory.after operation)) := by
  cases operation with
  | write8 address byte => exact write8_ofMemory memory address byte
  | write16 address number =>
      exact writeBytesPast_ofMemory memory address 0 _
  | write32 address number =>
      exact writeBytesPast_ofMemory memory address 0 _
  | load data address =>
      rw [after, load_ofMemory]
      rfl
  | clearRam =>
      simp only [after, clearRam, ofMemory, Memory.after, Memory.clearRam,
        Vector.length_toList, Vector.toList_replicate]

theorem foldlM_after_ofMemory (operations : List MemoryOperation) :
    operations.foldlM after (ofMemory memory) =
      some (ofMemory (operations.foldl Memory.after memory)) := by
  induction operations generalizing memory with
  | nil => rfl
  | cons first rest inductionHypothesis =>
      rw [List.foldlM_cons, after_ofMemory, Option.bind_eq_bind,
        Option.bind_some, inductionHypothesis]
      rfl

/-- Whatever the operations, buffers keep the contents of memory. -/
theorem afterAll_eq (operations : List MemoryOperation) :
    afterAll operations = some (ofMemory (Memory.afterAll operations)) := by
  have blankEq : blank = ofMemory Memory.blank := by
    simp only [blank, ofMemory, Memory.blank, Vector.toList_replicate]
  rw [afterAll, blankEq, foldlM_after_ofMemory]
  rfl

structure AnswerAs (buffers : Buffers) (memory : Memory) : Prop where
  read8 : ∀ address,
    buffers.read8 address = some (memory.read8 address).value
  read16 : ∀ address,
    buffers.read16 address = some (memory.read16 address).value
  read32 : ∀ address,
    buffers.read32 address = some (memory.read32 address).value
  dump : ∀ address count,
    buffers.dump address count = some (memory.dump address count).value
  decodeAt : ∀ pc,
    buffers.decodeAt pc = some (Processor.fetch memory pc).value
  load : ∀ data address,
    buffers.load data address =
      some ((memory.load data address).value.1,
        ofMemory (memory.load data address).value.2)
  after : ∀ operation,
    buffers.after operation = some (ofMemory (memory.after operation))

theorem ofMemory_answerAs : (ofMemory memory).AnswerAs memory where
  read8 := read8_ofMemory memory
  read16 := read16_ofMemory memory
  read32 := read32_ofMemory memory
  dump := dump_ofMemory memory
  decodeAt := decodeAt_ofMemory memory
  load := load_ofMemory memory
  after := after_ofMemory memory

end Buffers

/-- No access is outside: not to any bytes that are decoded or listed, not to
any text that is assembled, and not to the buffers that operations lead to,
which never change in size. -/
theorem accesses_succeed :
    (∀ (bytes : List UInt8) (address : UInt32),
      decode bytes = some (RxBoard.decode bytes) ∧
      listingEntry bytes address =
        some (ListingEntry.ofBytes bytes address) ∧
      disassemble bytes address =
        some (RxBoard.disassemble bytes address)) ∧
    (∀ source : Text,
      assemble source = some (Assembly.ofText source)) ∧
    ∀ operations : List MemoryOperation,
      ∃ buffers : Buffers,
        Buffers.afterAll operations = some buffers ∧
        buffers.ram.length = AddressMap.ramSize ∧
        buffers.rom.length = AddressMap.romSize ∧
        buffers.AnswerAs (Memory.afterAll operations) := by
  refine ⟨?_, assemble_eq, ?_⟩
  · intro bytes address
    exact ⟨decode_eq bytes, listingEntry_eq bytes address,
      disassemble_eq bytes address⟩
  · intro operations
    exact ⟨_, Buffers.afterAll_eq operations, Vector.length_toList,
      Vector.length_toList, Buffers.ofMemory_answerAs _⟩

end RxBoard.Checked
