import Mathlib.Data.Nat.ModEq
import RxBoard.Memory.VectorTable
import RxBoard.Proofs.Memory.Contents

/-!
The slots of the vector table.

Slot addresses wrap around, so there is a slot for every word of the address
space, and vectors that agree in all but their two highest bits share one.
Slots are aligned words: none straddles the end of a store, and two of them
overlap only if they are the same.  So a handler that is stored is found again,
and disturbs no other (`handler_write32`).
-/

namespace RxBoard.VectorTable

theorem toNat_slotAddress (vector : UInt32) :
    (slotAddress vector).toNat =
      (0xFFFFFF80 + vector.toNat * 4) % 2 ^ 32 := by
  rw [slotAddress, UInt32.toNat_add, UInt32.toNat_mul, Nat.add_mod_mod]
  rfl

theorem slotAddress_mod_four (vector : UInt32) :
    (slotAddress vector).toNat % 4 = 0 := by
  rw [toNat_slotAddress]
  omega

theorem slotAddress_add_three_lt (vector : UInt32) :
    (slotAddress vector).toNat + 3 < UInt32.size := by
  have bound := (slotAddress vector).toNat_lt_size
  have aligned := slotAddress_mod_four vector
  simp only [UInt32.size] at bound ⊢
  omega

/-- Vectors share a slot if they agree in all but their two highest bits. -/
theorem slotAddress_eq_iff (other vector : UInt32) :
    slotAddress other = slotAddress vector ↔
      Nat.ModEq (2 ^ 30) other.toNat vector.toNat := by
  rw [← UInt32.toNat_inj, toNat_slotAddress, toNat_slotAddress, Nat.ModEq]
  omega

def slotByte (vector : UInt32) (index : Fin 4) : UInt32 :=
  slotAddress vector + UInt32.ofNat index

theorem toNat_slotByte (vector : UInt32) (index : Fin 4) :
    (slotByte vector index).toNat =
      (slotAddress vector).toNat + index := by
  have fits := slotAddress_add_three_lt vector
  exact toNat_add_ofNat (by omega)

theorem advance?_slotAddress (vector : UInt32) (index : Fin 4) :
    advance? (slotAddress vector) index = some (slotByte vector index) :=
  (advance?_eq_some_iff ..).mpr (toNat_slotByte vector index)

/-- The stores begin and end with whole words. -/
theorem window_aligned (region : Region) :
    region.window.first.toNat % 4 = 0 ∧
      (region.window.last.toNat + 1) % 4 = 0 := by
  cases region with
  | ram => exact ⟨rfl, rfl⟩
  | rom => exact ⟨rfl, rfl⟩

/-- All bytes of a slot lead to the same store, or nowhere. -/
theorem ofAddress?_slotByte (vector : UInt32) (index : Fin 4) :
    Region.ofAddress? (slotByte vector index) =
      Region.ofAddress? (slotAddress vector) := by
  have slotAligned := slotAddress_mod_four vector
  have placed := toNat_slotByte vector index
  apply Option.ext
  intro region
  have storeAligned := window_aligned region
  rw [Region.ofAddress?_eq_some_iff, Region.ofAddress?_eq_some_iff,
    Window.contains_iff, Window.contains_iff]
  omega

theorem isMapped_slotByte_iff (vector : UInt32) (index : Fin 4) :
    IsMapped (slotByte vector index) ↔ IsMapped (slotAddress vector) := by
  rw [isMapped_iff, isMapped_iff, ofAddress?_slotByte]

/-- What is looked up for a vector depends on the bytes of its slot only. -/
theorem handler_congr {memory other : Memory} {vector : UInt32}
    (agree : ∀ index : Fin 4,
      other.byteAt (slotByte vector index) =
        memory.byteAt (slotByte vector index)) :
    (handler other vector).value = (handler memory vector).value := by
  refine congrArg LittleEndian.word (Memory.value_dump_congr ?_)
  intro distance inside target reached
  rw [advance?_slotAddress vector ⟨distance, inside⟩] at reached
  obtain rfl := Option.some.inj reached
  exact agree ⟨distance, inside⟩

theorem handler_of_not_mapped (memory : Memory) {vector : UInt32}
    (unmapped : ¬IsMapped (slotAddress vector)) :
    (handler memory vector).value = 0 := by
  have zero (index : Fin 4) :
      (memory.readPast (slotAddress vector) index).value = 0 := by
    rw [Memory.value_readPast, advance?_slotAddress]
    exact Memory.byteAt_of_not_mapped memory
      (mt (isMapped_slotByte_iff vector index).mp unmapped)
  have dumped : (memory.dump (slotAddress vector) 4).value =
      (List.range 4).map fun _distance => 0 := by
    rw [Memory.dump, Logged.value_forEach]
    apply List.map_congr_left
    intro distance member
    exact zero ⟨distance, List.mem_range.mp member⟩
  rw [handler, Memory.read32, Logged.value_map, dumped]
  rfl

theorem handler_write32_mapped (memory : Memory) {vector : UInt32}
    (mapped : IsMapped (slotAddress vector)) (address : UInt32) :
    (handler (memory.write32 (slotAddress vector) address).value
      vector).value = address := by
  apply Memory.Holds.value_read32
  apply Memory.holds_writeBytesPast
  intro index inside
  rw [LittleEndian.length_wordBytes] at inside
  exact ⟨_, advance?_slotAddress vector ⟨index, inside⟩,
    (isMapped_slotByte_iff vector ⟨index, inside⟩).mpr mapped⟩

theorem handler_write32_apart (memory : Memory) {vector other : UInt32}
    (apart : slotAddress other ≠ slotAddress vector) (address : UInt32) :
    (handler (memory.write32 (slotAddress vector) address).value
      other).value = (handler memory other).value := by
  apply handler_congr
  intro index
  have placed := toNat_slotByte other index
  have aligned := slotAddress_mod_four vector
  have otherAligned := slotAddress_mod_four other
  have positionsApart :
      (slotAddress other).toNat ≠ (slotAddress vector).toNat :=
    mt UInt32.toNat_inj.mp apart
  rw [Memory.write32, Memory.byteAt_writeBytesPast, laid_of_outside,
    ite_self]
  rw [LittleEndian.length_wordBytes]
  omega

/-- The slot of a vector is an aligned word that lies in one store, or in none,
and ends within the address space.  The address written to it is found as the
handler of the vector, and of the vectors that share the slot; where nothing is
stored, zero is.  All other handlers are as they were. -/
theorem handler_write32 (memory : Memory) (vector address : UInt32) :
    let slot := slotAddress vector
    let written := (memory.write32 slot address).value
    slot.toNat % 4 = 0 ∧
      slot.toNat + 3 ≤ 0xFFFFFFFF ∧
      (∃ place : Option Region, ∀ index : Fin 4,
        Region.ofAddress? (slot + UInt32.ofNat index) = place) ∧
      (handler written vector).value =
        (if IsMapped slot then address else 0) ∧
      ∀ other : UInt32,
        (handler written other).value =
          if Nat.ModEq (2 ^ 30) other.toNat vector.toNat then
            (handler written vector).value
          else
            (handler memory other).value := by
  intro slot written
  refine ⟨slotAddress_mod_four vector,
    Nat.le_of_lt_succ (slotAddress_add_three_lt vector),
    ⟨_, ofAddress?_slotByte vector⟩, ?_, ?_⟩
  · split
    · rename_i mapped
      exact handler_write32_mapped memory mapped address
    · rename_i unmapped
      exact handler_of_not_mapped written unmapped
  · intro other
    have shares := slotAddress_eq_iff other vector
    split
    · rename_i congruent
      rw [handler, shares.mpr congruent]
      rfl
    · rename_i incongruent
      exact handler_write32_apart memory (mt shares.mp incongruent)
        address

/-- Vector 32 is the first past the table and has the first word of memory for
its slot. -/
example : slotAddress 32 = 0 := rfl

end RxBoard.VectorTable
