import RxBoard.Proofs.Memory.Contents

/-!
Memory against a flat map of bytes.

The flat map has a byte at every position, also past the last address.  The
positions of RAM and of code flash can be written; all others stay zero.
Whatever was written, loaded and cleared, memory behaves byte for byte as the
flat map that took the same operations (`behavesAs_afterAll`).
-/

namespace RxBoard

def Window.Covers (window : Window) (position : Nat) : Prop :=
  window.first.toNat ≤ position ∧ position ≤ window.last.toNat

instance (window : Window) (position : Nat) :
    Decidable (window.Covers position) :=
  inferInstanceAs (Decidable (_ ∧ _))

def IsStored (position : Nat) : Prop :=
  AddressMap.ram.Covers position ∨ AddressMap.rom.Covers position

instance (position : Nat) : Decidable (IsStored position) :=
  inferInstanceAs (Decidable (_ ∨ _))

theorem Location.position_lt (location : Location) :
    location.position < UInt32.size := by
  cases location with
  | ram offset =>
      have inside : offset.val < 262144 := offset.isLt
      change 0 + offset.val < 4294967296
      omega
  | rom offset =>
      have inside : offset.val < 2097152 := offset.isLt
      change 0xFFE00000 + offset.val < 4294967296
      omega

theorem Region.ofAddress?_eq_some_iff_covers (address : UInt32)
    (region : Region) :
    Region.ofAddress? address = some region ↔
      region.window.Covers address.toNat :=
  (ofAddress?_eq_some_iff address region).trans
    (Window.contains_iff region.window address)

theorem isMapped_iff_isStored (address : UInt32) :
    IsMapped address ↔ IsStored address.toNat := by
  rw [isMapped_iff, Option.isSome_iff_exists]
  simp only [Region.ofAddress?_eq_some_iff_covers]
  constructor
  · rintro ⟨region, inside⟩
    cases region with
    | ram => exact Or.inl inside
    | rom => exact Or.inr inside
  · rintro (inRam | inRom)
    · exact ⟨.ram, inRam⟩
    · exact ⟨.rom, inRom⟩

/-- The stored positions from one on to the end of its window. -/
def roomAt (position : Nat) : Nat :=
  if AddressMap.ram.Covers position then
    AddressMap.ram.last.toNat + 1 - position
  else if AddressMap.rom.Covers position then
    AddressMap.rom.last.toNat + 1 - position
  else
    0

theorem roomFrom_eq_roomAt (address : UInt32) :
    roomFrom address = roomAt address.toNat := by
  have leads := Region.ofAddress?_eq_some_iff_covers address
  unfold roomAt
  split
  · rename_i inRam
    exact roomFrom_of_leads ((leads .ram).mpr inRam)
  · rename_i notInRam
    split
    · rename_i inRom
      exact roomFrom_of_leads ((leads .rom).mpr inRom)
    · rename_i notInRom
      apply roomFrom_of_leads_nowhere
      rw [Option.eq_none_iff_forall_ne_some]
      intro region found
      have inside := (leads region).mp found
      cases region with
      | ram => exact notInRam inside
      | rom => exact notInRom inside

theorem add_roomAt_le (address : UInt32) :
    address.toNat + roomAt address.toNat ≤ UInt32.size := by
  have bound := address.toNat_lt_size
  have ramEnd := AddressMap.ram.last.toNat_lt_size
  have romEnd := AddressMap.rom.last.toNat_lt_size
  unfold roomAt
  split
  · omega
  · split <;> omega

structure FlatMemory where
  byteAt : Nat → UInt8
  zero_outside : ∀ position, ¬IsStored position → byteAt position = 0

namespace FlatMemory

def blank : FlatMemory where
  byteAt position := if AddressMap.rom.Covers position then 0x03 else 0
  zero_outside := by
    intro position outside
    exact if_neg (fun inRom => outside (Or.inr inRom))

def put (flat : FlatMemory) (position : Nat) (byte : UInt8) :
    FlatMemory where
  byteAt other :=
    if other = position ∧ IsStored other then byte else flat.byteAt other
  zero_outside := by
    intro other outside
    rw [if_neg (fun both => outside both.2)]
    exact flat.zero_outside other outside

def putAll (flat : FlatMemory) (position : Nat) :
    List UInt8 → FlatMemory
  | [] => flat
  | byte :: rest => (flat.put position byte).putAll (position + 1) rest

def clearRam (flat : FlatMemory) : FlatMemory where
  byteAt position :=
    if AddressMap.ram.Covers position then 0 else flat.byteAt position
  zero_outside := by
    intro position outside
    rw [if_neg (fun inRam => outside (Or.inl inRam))]
    exact flat.zero_outside position outside

def bytes (flat : FlatMemory) (position count : Nat) : List UInt8 :=
  (List.range count).map fun distance => flat.byteAt (position + distance)

theorem byteAt_putAll (flat : FlatMemory) (start position : Nat)
    (written : List UInt8) :
    (flat.putAll start written).byteAt position =
      if IsStored position then
        laid written start position (flat.byteAt position)
      else
        flat.byteAt position := by
  by_cases stored : IsStored position
  · induction written generalizing flat start with
    | nil => simp [putAll, laid_nil]
    | cons byte rest inductionHypothesis =>
        rw [putAll, inductionHypothesis, laid_cons]
        simp only [put, stored, and_true, if_true]
  · rw [if_neg stored, zero_outside _ position stored,
      zero_outside _ position stored]

end FlatMemory

inductive MemoryOperation where
  | write8 (address : UInt32) (byte : UInt8)
  | write16 (address : UInt32) (number : UInt16)
  | write32 (address : UInt32) (number : UInt32)
  | load (data : List UInt8) (address : UInt32)
  | clearRam

def Memory.after (memory : Memory) : MemoryOperation → Memory
  | .write8 address byte => (memory.write8 address byte).value
  | .write16 address number => (memory.write16 address number).value
  | .write32 address number => (memory.write32 address number).value
  | .load data address => (memory.load data address).value.2
  | .clearRam => memory.clearRam

def FlatMemory.after (flat : FlatMemory) : MemoryOperation → FlatMemory
  | .write8 address byte => flat.put address.toNat byte
  | .write16 address number =>
      flat.putAll address.toNat (LittleEndian.halfwordBytes number)
  | .write32 address number =>
      flat.putAll address.toNat (LittleEndian.wordBytes number)
  | .load data address =>
      flat.putAll address.toNat (data.take (roomAt address.toNat))
  | .clearRam => flat.clearRam

def Memory.afterAll (operations : List MemoryOperation) : Memory :=
  operations.foldl Memory.after Memory.blank

def FlatMemory.afterAll (operations : List MemoryOperation) :
    FlatMemory :=
  operations.foldl FlatMemory.after FlatMemory.blank

namespace Memory

def write8Each (memory : Memory) (address : UInt32) :
    List UInt8 → Memory
  | [] => memory
  | byte :: rest =>
      (memory.write8 address byte).value.write8Each (address + 1) rest

/-! ### Memory that shows a flat map -/

def Shows (memory : Memory) (flat : FlatMemory) : Prop :=
  ∀ address, memory.byteAt address = flat.byteAt address.toNat

theorem byteAt_blank (address : UInt32) :
    blank.byteAt address =
      if Region.ofAddress? address = some .rom then 0x03 else 0 := by
  unfold Region.ofAddress? byteAt
  cases Location.ofAddress? address with
  | none => rfl
  | some location =>
      cases location with
      | ram offset => exact Vector.getElem_replicate offset.isLt
      | rom offset => exact Vector.getElem_replicate offset.isLt

theorem shows_blank : blank.Shows FlatMemory.blank := by
  intro address
  rw [byteAt_blank]
  simp only [Region.ofAddress?_eq_some_iff_covers]
  rfl

namespace Shows

variable {memory : Memory} {flat : FlatMemory}

theorem write8 (same : memory.Shows flat) (target : UInt32)
    (byte : UInt8) :
    (memory.write8 target byte).value.Shows
      (flat.put target.toNat byte) := by
  intro address
  rw [byteAt_write8, same address]
  simp only [FlatMemory.put, isMapped_iff_isStored, UInt32.toNat_inj]

theorem writeBytes (same : memory.Shows flat) (start : UInt32)
    (written : List UInt8) :
    (memory.writeBytesPast start 0 written).value.Shows
      (flat.putAll start.toNat written) := by
  intro address
  rw [byteAt_writeBytesPast, FlatMemory.byteAt_putAll, same address]
  simp only [isMapped_iff_isStored, Nat.add_zero]

theorem load (same : memory.Shows flat) (data : List UInt8)
    (start : UInt32) :
    (memory.load data start).value.2.Shows
      (flat.putAll start.toNat (data.take (roomAt start.toNat))) := by
  intro address
  rw [FlatMemory.byteAt_putAll]
  by_cases stored : IsStored address.toNat
  · rw [if_pos stored, byteAt_load_take, roomFrom_eq_roomAt,
      same address]
  · have unmapped : ¬IsMapped address :=
      fun mapped => stored ((isMapped_iff_isStored address).mp mapped)
    rw [if_neg stored, byteAt_of_not_mapped _ unmapped,
      flat.zero_outside _ stored]

theorem clearRam (same : memory.Shows flat) :
    memory.clearRam.Shows flat.clearRam := by
  intro address
  rw [byteAt_clearRam, same address]
  simp only [Region.ofAddress?_eq_some_iff_covers]
  rfl

theorem after (same : memory.Shows flat) (operation : MemoryOperation) :
    (memory.after operation).Shows (flat.after operation) := by
  cases operation with
  | write8 address byte => exact same.write8 address byte
  | write16 address number => exact same.writeBytes address _
  | write32 address number => exact same.writeBytes address _
  | load data address => exact same.load data address
  | clearRam => exact same.clearRam

theorem foldl (same : memory.Shows flat)
    (operations : List MemoryOperation) :
    (operations.foldl Memory.after memory).Shows
      (operations.foldl FlatMemory.after flat) := by
  induction operations generalizing memory flat with
  | nil => exact same
  | cons operation rest inductionHypothesis =>
      exact inductionHypothesis (same.after operation)

theorem readPast (same : memory.Shows flat) (address : UInt32)
    (distance : Nat) :
    (memory.readPast address distance).value =
      flat.byteAt (address.toNat + distance) := by
  rw [value_readPast, advance?]
  by_cases inside : address.toNat + distance < UInt32.size
  · rw [if_pos inside, ← toNat_add_ofNat inside]
    exact same _
  · rw [if_neg inside]
    -- Positions past the last address are not stored.
    refine (flat.zero_outside _ ?_).symm
    have ramEnd := AddressMap.ram.last.toNat_lt_size
    have romEnd := AddressMap.rom.last.toNat_lt_size
    unfold IsStored Window.Covers
    omega

theorem dump (same : memory.Shows flat) (address : UInt32)
    (count : Nat) :
    (memory.dump address count).value =
      flat.bytes address.toNat count := by
  rw [Memory.dump, Logged.value_forEach]
  simp only [same.readPast]
  rfl

/-! ### Loading as writing byte by byte -/

theorem write8Each (same : memory.Shows flat) {start : UInt32}
    {written : List UInt8}
    (fits : start.toNat + written.length ≤ UInt32.size) :
    (memory.write8Each start written).Shows
      (flat.putAll start.toNat written) := by
  induction written generalizing memory flat start with
  | nil => exact same
  | cons byte rest inductionHypothesis =>
      rw [List.length_cons] at fits
      cases rest with
      | nil => exact same.write8 start byte
      | cons second others =>
          -- The next address has not wrapped, for a byte is written there.
          rw [List.length_cons] at fits
          have next : (start + 1).toNat = start.toNat + 1 :=
            toNat_add_ofNat
              (by omega : start.toNat + 1 < UInt32.size)
          have nextFits : (start + 1).toNat + (second :: others).length ≤
              UInt32.size := by
            rw [next, List.length_cons]
            omega
          have rest := inductionHypothesis (same.write8 start byte) nextFits
          rw [next] at rest
          exact rest

end Shows

theorem ext_byteAt {memory other : Memory}
    (same : ∀ address, memory.byteAt address = other.byteAt address) :
    memory = other := by
  have getEq (location : Location) :
      memory.get location = other.get location := by
    have found := Location.ofAddress?_of_position
      (UInt32.toNat_ofNat_of_lt' location.position_lt)
    have read := same (UInt32.ofNat location.position)
    rw [byteAt, byteAt, found] at read
    exact read
  rcases memory with ⟨ram, rom⟩
  rcases other with ⟨otherRam, otherRom⟩
  congr 1
  · apply Vector.ext
    intro index inside
    exact getEq (.ram ⟨index, inside⟩)
  · apply Vector.ext
    intro index inside
    exact getEq (.rom ⟨index, inside⟩)

/-- Whether memory was changed at some positions only: each stored one among
them took its byte. -/
structure Overwritten (before after : Memory) (start : Nat)
    (written : List UInt8) : Prop where
  inside : ∀ index byte, written[index]? = some byte →
    ∀ address, address.toNat = start + index →
      after.byteAt address = if IsStored (start + index) then byte else 0
  outside : ∀ address,
    address.toNat < start ∨ start + written.length ≤ address.toNat →
      after.byteAt address = before.byteAt address

theorem overwritten_writeBytesPast (memory : Memory) (start : UInt32)
    (written : List UInt8) :
    memory.Overwritten (memory.writeBytesPast start 0 written).value
      start.toNat written := by
  constructor
  · intro index byte found address reached
    rw [← reached]
    by_cases mapped : IsMapped address
    · rw [if_pos ((isMapped_iff_isStored address).mp mapped),
        byteAt_writeBytesPast, if_pos mapped, Nat.add_zero, reached,
        laid_of_getElem? found]
    · have outside : ¬IsStored address.toNat :=
        fun stored => mapped ((isMapped_iff_isStored address).mpr stored)
      rw [if_neg outside, byteAt_of_not_mapped _ mapped]
  · intro address apart
    rw [byteAt_writeBytesPast, Nat.add_zero, laid_of_outside apart,
      ite_self]

structure BehavesAs (memory : Memory) (flat : FlatMemory) : Prop where
  read8 : ∀ address,
    (memory.read8 address).value = flat.byteAt address.toNat
  read16 : ∀ address,
    (memory.read16 address).value =
      LittleEndian.halfword (flat.bytes address.toNat 2)
  read32 : ∀ address,
    (memory.read32 address).value =
      LittleEndian.word (flat.bytes address.toNat 4)
  dump : ∀ address count,
    (memory.dump address count).value = flat.bytes address.toNat count
  write16 : ∀ address number,
    memory.Overwritten (memory.write16 address number).value address.toNat
      (LittleEndian.halfwordBytes number)
  write32 : ∀ address number,
    memory.Overwritten (memory.write32 address number).value address.toNat
      (LittleEndian.wordBytes number)
  load : ∀ data address,
    let stored := min data.length (roomAt address.toNat)
    (memory.load data address).value =
      (stored, memory.write8Each address (data.take stored))
  load_outside : ∀ data address, ¬IsStored address.toNat →
    (memory.load data address).value = (0, memory)
  clearRam : ∀ address,
    memory.clearRam.byteAt address =
      if AddressMap.ram.Covers address.toNat then
        0
      else
        memory.byteAt address

namespace Shows

variable {memory : Memory} {flat : FlatMemory}

theorem load_eq (same : memory.Shows flat) (data : List UInt8)
    (start : UInt32) :
    let stored := min data.length (roomAt start.toNat)
    (memory.load data start).value =
      (stored, memory.write8Each start (data.take stored)) := by
  intro stored
  have room := add_roomAt_le start
  have fits : start.toNat + (data.take stored).length ≤ UInt32.size := by
    rw [List.length_take]
    omega
  have loaded := same.load data start
  have written := same.write8Each fits
  have taken : data.take stored = data.take (roomAt start.toNat) := by
    change data.take (min data.length (roomAt start.toNat)) = _
    rw [Nat.min_comm, ← List.take_eq_take_min]
  rw [taken] at written ⊢
  have countEq : (memory.load data start).value.1 = stored := by
    rw [value_load_fst, roomFrom_eq_roomAt]
  have memoryEq :
      (memory.load data start).value.2 =
        memory.write8Each start (data.take (roomAt start.toNat)) :=
    ext_byteAt fun address =>
      (loaded address).trans (written address).symm
  exact Prod.ext countEq memoryEq

theorem behavesAs (same : memory.Shows flat) :
    memory.BehavesAs flat where
  read8 address := (memory.value_read8 address).trans (same address)
  read16 address := congrArg LittleEndian.halfword (same.dump address 2)
  read32 address := congrArg LittleEndian.word (same.dump address 4)
  dump := same.dump
  write16 address number :=
    memory.overwritten_writeBytesPast address
      (LittleEndian.halfwordBytes number)
  write32 address number :=
    memory.overwritten_writeBytesPast address
      (LittleEndian.wordBytes number)
  load := same.load_eq
  load_outside := by
    intro data address outside
    have noRoom : roomAt address.toNat = 0 := by
      rw [roomAt, if_neg (fun inRam => outside (Or.inl inRam)),
        if_neg (fun inRom => outside (Or.inr inRom))]
    rw [same.load_eq, noRoom, Nat.min_zero]
    rfl
  clearRam := by
    intro address
    rw [byteAt_clearRam]
    simp only [Region.ofAddress?_eq_some_iff_covers]
    rfl

end Shows

/-- After all operations new memory behaves as the flat map that took the same
operations, which is zero wherever nothing is stored. -/
theorem behavesAs_afterAll (operations : List MemoryOperation) :
    (afterAll operations).BehavesAs (FlatMemory.afterAll operations) ∧
      ∀ position, ¬IsStored position →
        (FlatMemory.afterAll operations).byteAt position = 0 := by
  constructor
  · exact (shows_blank.foldl operations).behavesAs
  · exact (FlatMemory.afterAll operations).zero_outside

end Memory

end RxBoard
