import RxBoard.Proofs.Memory.Bytes

/-!
What memory holds at an address, and what is read from there.
-/

namespace RxBoard.Memory

/-- Whether bytes stand at an address and after it, short of the top of the
address space. -/
def Holds (memory : Memory) (start : UInt32) (bytes : List UInt8) :
    Prop :=
  ∀ index byte, bytes[index]? = some byte →
    ∃ address, advance? start index = some address ∧
      memory.byteAt address = byte

variable {memory : Memory} {start : UInt32}

theorem Holds.append_left {front back : List UInt8}
    (holds : memory.Holds start (front ++ back)) :
    memory.Holds start front := by
  intro index byte found
  have inside := (List.getElem?_eq_some_iff.mp found).1
  apply holds index byte
  rw [List.getElem?_append_left inside, found]

theorem Holds.append_right {front back : List UInt8}
    (holds : memory.Holds start (front ++ back)) :
    memory.Holds (start + UInt32.ofNat front.length) back := by
  intro index byte found
  have shifted : (front ++ back)[front.length + index]? = some byte := by
    rw [List.getElem?_append_right (Nat.le_add_right _ _),
      Nat.add_sub_cancel_left, found]
  rcases holds _ byte shifted with ⟨address, reached, byteEq⟩
  refine ⟨address, ?_, byteEq⟩
  rw [advance?_eq_some_iff] at reached ⊢
  -- An address that is reached from the start has not wrapped on the way.
  have addressBound := address.toNat_lt_size
  have startEq :
      (start + UInt32.ofNat front.length).toNat =
        start.toNat + front.length :=
    toNat_add_ofNat (Nat.lt_of_le_of_lt
      (by omega : start.toNat + front.length ≤ address.toNat) addressBound)
  omega

theorem value_readPast (memory : Memory) (address : UInt32)
    (distance : Nat) :
    (memory.readPast address distance).value =
      match advance? address distance with
      | some target => memory.byteAt target
      | none => 0 := by
  unfold readPast
  cases advance? address distance <;> simp

theorem length_value_dump (memory : Memory) (address : UInt32)
    (count : Nat) : (memory.dump address count).value.length = count := by
  simp [dump]

theorem getElem?_value_dump (memory : Memory) (address : UInt32)
    {count index : Nat} (inside : index < count) :
    (memory.dump address count).value[index]? =
      some (memory.readPast address index).value := by
  simp [dump, inside]

theorem headD_value_dump (memory : Memory) (address : UInt32)
    (count : Nat) :
    (memory.dump address (count + 1)).value.headD 0 =
      memory.byteAt address := by
  have reached : advance? address 0 = some address :=
    (advance?_eq_some_iff address address 0).mpr rfl
  rw [List.headD_eq_head?_getD, List.head?_eq_getElem?,
    getElem?_value_dump memory address (Nat.succ_pos count),
    value_readPast, reached]
  rfl

theorem value_dump_congr {memory other : Memory} {address : UInt32}
    {count : Nat}
    (agree : ∀ distance < count, ∀ target,
      advance? address distance = some target →
        other.byteAt target = memory.byteAt target) :
    (other.dump address count).value = (memory.dump address count).value := by
  rw [dump, dump, Logged.value_forEach, Logged.value_forEach]
  apply List.map_congr_left
  intro distance member
  rw [value_readPast, value_readPast]
  cases reached : advance? address distance with
  | none => rfl
  | some target =>
      exact agree distance (List.mem_range.mp member) target reached

theorem take_value_dump (memory : Memory) (address : UInt32)
    (count total : Nat) :
    (memory.dump address total).value.take count =
      (memory.dump address (min count total)).value := by
  rw [dump, dump, Logged.value_forEach, Logged.value_forEach,
    ← List.map_take, List.take_range]

theorem byteAt_of_dump {bytes : List UInt8}
    (dumped : (memory.dump start bytes.length).value = bytes)
    {index : Nat} {byte : UInt8} (found : bytes[index]? = some byte)
    {address : UInt32} (reached : advance? start index = some address) :
    memory.byteAt address = byte := by
  have inside := (List.getElem?_eq_some_iff.mp found).1
  have readAt := getElem?_value_dump memory start inside
  rw [dumped, found, value_readPast, reached] at readAt
  exact (Option.some.inj readAt).symm

/-- What memory holds stands at the front of every dump that is long
enough. -/
theorem Holds.prefix_dump {bytes : List UInt8}
    (holds : memory.Holds start bytes) {count : Nat}
    (fits : bytes.length ≤ count) :
    bytes <+: (memory.dump start count).value := by
  rw [List.prefix_iff_getElem?]
  intro index inside
  obtain ⟨address, reached, byteEq⟩ :=
    holds index bytes[index] (List.getElem?_eq_getElem inside)
  rw [getElem?_value_dump memory start (Nat.lt_of_lt_of_le inside fits),
    value_readPast, reached]
  exact congrArg some byteEq

theorem Holds.value_read32 {word : UInt32}
    (holds : memory.Holds start (LittleEndian.wordBytes word)) :
    (memory.read32 start).value = word := by
  have front := holds.prefix_dump
    (Nat.le_of_eq (LittleEndian.length_wordBytes word))
  have whole := front.eq_of_length
    (by rw [length_value_dump, LittleEndian.length_wordBytes])
  rw [read32, Logged.value_map, ← whole, LittleEndian.word_wordBytes]

theorem holds_writeBytesPast {bytes : List UInt8}
    (mapped : ∀ index < bytes.length, ∃ address,
      advance? start index = some address ∧ IsMapped address) :
    (memory.writeBytesPast start 0 bytes).value.Holds start bytes := by
  intro index byte found
  obtain ⟨address, reached, isMapped⟩ :=
    mapped index (List.getElem?_eq_some_iff.mp found).1
  refine ⟨address, reached, ?_⟩
  rw [byteAt_writeBytesPast, if_pos isMapped,
    (advance?_eq_some_iff ..).mp reached]
  exact laid_of_getElem? found _ _

theorem Holds.writeBytesPast {bytes : List UInt8}
    (holds : memory.Holds start bytes) (target : UInt32)
    {written : List UInt8}
    (apart : ∀ index < bytes.length,
      start.toNat + index < target.toNat ∨
        target.toNat + written.length ≤ start.toNat + index) :
    (memory.writeBytesPast target 0 written).value.Holds start bytes := by
  intro index byte found
  rcases holds index byte found with ⟨address, reached, byteEq⟩
  refine ⟨address, reached, ?_⟩
  have outside := apart index (List.getElem?_eq_some_iff.mp found).1
  rw [← (advance?_eq_some_iff ..).mp reached] at outside
  rw [byteAt_writeBytesPast, Nat.add_zero, laid_of_outside outside,
    ite_self, byteEq]

/-- A run of addresses inside a window that leads to one store leads to that
store throughout. -/
theorem reachable_of_window {window : Window} {region : Region}
    (leads : ∀ address, window.contains address = true →
      IsMapped address ∧ Region.ofAddress? address = some region)
    {start : UInt32} {length : Nat}
    (inside : ∀ distance < length,
      window.first.toNat ≤ start.toNat + distance ∧
        start.toNat + distance ≤ window.last.toNat) :
    ∀ index < length, ∃ address,
      advance? start index = some address ∧ IsMapped address ∧
        Region.ofAddress? address = Region.ofAddress? start := by
  intro index indexInside
  have startInside : window.contains start = true :=
    (Window.contains_iff ..).mpr
      (inside 0 (Nat.lt_of_le_of_lt (Nat.zero_le _) indexInside))
  have here := inside index indexInside
  have reached : advance? start index =
      some (start + UInt32.ofNat index) :=
    if_pos (Nat.lt_of_le_of_lt here.2 window.last.toNat_lt_size)
  rw [← (advance?_eq_some_iff ..).mp reached] at here
  have addressLeads := leads _ ((Window.contains_iff ..).mpr here)
  exact ⟨_, reached, addressLeads.1,
    addressLeads.2.trans (leads start startInside).2.symm⟩

theorem holds_load {data : List UInt8}
    (reachable : ∀ index < data.length, ∃ address,
      advance? start index = some address ∧ IsMapped address ∧
        Region.ofAddress? address = Region.ofAddress? start) :
    (memory.load data start).value.2.Holds start data := by
  intro index byte found
  obtain ⟨address, reached, mapped, sameRegion⟩ :=
    reachable index (List.getElem?_eq_some_iff.mp found).1
  refine ⟨address, reached, ?_⟩
  rw [byteAt_load, if_pos ⟨mapped, sameRegion⟩,
    (advance?_eq_some_iff ..).mp reached]
  exact laid_of_getElem? found _ _

end RxBoard.Memory
