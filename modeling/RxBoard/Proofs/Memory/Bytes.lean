import RxBoard.Memory.Basic

/-!
Memory as a function from addresses to bytes.

Each operation on memory is described by the bytes that addresses read as
after it.  Writes at any distance, wide writes and bulk loads all lay bytes
over the bytes that were there (`laid`); they differ only in the addresses
they reach.
-/

namespace RxBoard

/-- Whether an address leads to a byte of memory. -/
def IsMapped (address : UInt32) : Prop :=
  (Location.ofAddress? address).isSome = true

instance (address : UInt32) : Decidable (IsMapped address) :=
  inferInstanceAs (Decidable (_ = true))

theorem Window.contains_iff (window : Window) (address : UInt32) :
    window.contains address = true ↔
      window.first.toNat ≤ address.toNat ∧
        address.toNat ≤ window.last.toNat := by
  simp only [contains, Bool.and_eq_true, decide_eq_true_eq,
    UInt32.le_iff_toNat_le]

def Location.position : Location → Nat
  | ram offset => AddressMap.ram.first.toNat + offset.val
  | rom offset => AddressMap.rom.first.toNat + offset.val

theorem Location.position_of_ofAddress? {address : UInt32}
    {location : Location} (found : ofAddress? address = some location) :
    address.toNat = location.position := by
  unfold ofAddress? at found
  split at found
  · rename_i inRam
    obtain rfl := Option.some.inj found
    exact (Nat.add_sub_cancel'
      ((Window.contains_iff ..).mp inRam).1).symm
  · split at found
    · rename_i inRom
      obtain rfl := Option.some.inj found
      exact (Nat.add_sub_cancel'
        ((Window.contains_iff ..).mp inRom).1).symm
    · cases found

theorem Location.ofAddress?_of_position {address : UInt32}
    {location : Location} (placed : address.toNat = location.position) :
    ofAddress? address = some location := by
  cases location with
  | ram offset =>
      have inside := offset.isLt
      have inRam : AddressMap.ram.contains address = true := by
        have ordered := AddressMap.ram_first_le_last
        rw [Window.contains_iff, placed, position]
        simp only [AddressMap.ramSize, Window.size] at inside
        omega
      rw [ofAddress?, dif_pos inRam]
      simp only [placed, position, Nat.add_sub_cancel_left]
  | rom offset =>
      have inside := offset.isLt
      have inRom : AddressMap.rom.contains address = true := by
        have ordered := AddressMap.rom_first_le_last
        rw [Window.contains_iff, placed, position]
        simp only [AddressMap.romSize, Window.size] at inside
        omega
      have notInRam : ¬AddressMap.ram.contains address = true := by
        rw [Window.contains_iff, placed, position]
        have apart := AddressMap.ram_last_lt_rom_first
        omega
      rw [ofAddress?, dif_neg notInRam, dif_pos inRom]
      simp only [placed, position, Nat.add_sub_cancel_left]

/-- An address leads to the location at its position, if there is one. -/
theorem Location.ofAddress?_eq_some_iff (address : UInt32)
    (location : Location) :
    ofAddress? address = some location ↔
      address.toNat = location.position :=
  ⟨position_of_ofAddress?, ofAddress?_of_position⟩

theorem Location.ofAddress?_inj {address other : UInt32}
    {location : Location} (found : ofAddress? address = some location)
    (otherFound : ofAddress? other = some location) :
    address = other := by
  rw [ofAddress?_eq_some_iff] at found otherFound
  exact UInt32.toNat_inj.mp (found.trans otherFound.symm)

theorem Region.ofAddress?_of_ram (address : UInt32)
    (inside : AddressMap.ram.contains address = true) :
    IsMapped address ∧ Region.ofAddress? address = some .ram := by
  simp [IsMapped, Region.ofAddress?, Location.ofAddress?, inside,
    Location.region]

theorem Region.ofAddress?_of_rom (address : UInt32)
    (inside : AddressMap.rom.contains address = true) :
    IsMapped address ∧ Region.ofAddress? address = some .rom := by
  have outside : ¬AddressMap.ram.contains address = true := by
    rw [Window.contains_iff] at inside ⊢
    have apart := AddressMap.ram_last_lt_rom_first
    omega
  simp [IsMapped, Region.ofAddress?, Location.ofAddress?, inside, outside,
    Location.region]

theorem toNat_add_ofNat {address : UInt32} {distance : Nat}
    (inside : address.toNat + distance < UInt32.size) :
    (address + UInt32.ofNat distance).toNat =
      address.toNat + distance := by
  rw [UInt32.toNat_add, UInt32.toNat_ofNat', Nat.add_mod_mod]
  exact Nat.mod_eq_of_lt inside

theorem advance?_eq_some_iff (address target : UInt32) (distance : Nat) :
    advance? address distance = some target ↔
      target.toNat = address.toNat + distance := by
  have targetBound := target.toNat_lt_size
  unfold advance?
  split
  · rename_i inside
    rw [Option.some.injEq, ← UInt32.toNat_inj, toNat_add_ofNat inside,
      eq_comm]
  · simp only [reduceCtorEq, false_iff]
    omega

theorem advance?_add {address : UInt32} {distance : Nat}
    (inside : address.toNat + distance < UInt32.size) (further : Nat) :
    advance? (address + UInt32.ofNat distance) further =
      advance? address (distance + further) := by
  apply Option.ext
  intro target
  rw [advance?_eq_some_iff, advance?_eq_some_iff, toNat_add_ofNat inside,
    Nat.add_assoc]

def Region.window : Region → Window
  | ram => AddressMap.ram
  | rom => AddressMap.rom

theorem Region.ofAddress?_eq_some_iff (address : UInt32)
    (region : Region) :
    Region.ofAddress? address = some region ↔
      region.window.contains address = true := by
  constructor
  · intro leads
    unfold Region.ofAddress? Location.ofAddress? at leads
    split at leads
    · rename_i inRam
      obtain rfl := Option.some.inj leads
      exact inRam
    · split at leads
      · rename_i inRom
        obtain rfl := Option.some.inj leads
        exact inRom
      · cases leads
  · intro inside
    cases region with
    | ram => exact (ofAddress?_of_ram address inside).2
    | rom => exact (ofAddress?_of_rom address inside).2

theorem Region.ofAddress?_eq_none_iff (address : UInt32) :
    Region.ofAddress? address = none ↔
      ∀ region : Region, ¬region.window.contains address = true := by
  rw [Option.eq_none_iff_forall_ne_some]
  apply forall_congr'
  intro region
  exact not_congr (ofAddress?_eq_some_iff address region)

theorem isMapped_iff (address : UInt32) :
    IsMapped address ↔ (Region.ofAddress? address).isSome = true := by
  rw [Region.ofAddress?, Option.isSome_map, IsMapped]

/-- The bytes from an address to the end of the store it leads to. -/
def roomFrom (address : UInt32) : Nat :=
  match Region.ofAddress? address with
  | some region => region.window.last.toNat + 1 - address.toNat
  | none => 0

theorem roomFrom_of_leads {address : UInt32} {region : Region}
    (leads : Region.ofAddress? address = some region) :
    roomFrom address = region.window.last.toNat + 1 - address.toNat := by
  rw [roomFrom, leads]

theorem roomFrom_of_leads_nowhere {address : UInt32}
    (nowhere : Region.ofAddress? address = none) :
    roomFrom address = 0 := by
  rw [roomFrom, nowhere]

theorem Location.room_eq {address : UInt32} {location : Location}
    (found : ofAddress? address = some location) :
    location.room = roomFrom address := by
  have placed := position_of_ofAddress? found
  have leads : Region.ofAddress? address = some location.region := by
    rw [Region.ofAddress?, found, Option.map_some]
  rw [roomFrom_of_leads leads, placed]
  cases location with
  | ram offset =>
      change AddressMap.ram.size - offset.val =
        AddressMap.ram.last.toNat + 1 -
          (AddressMap.ram.first.toNat + offset.val)
      have ordered := AddressMap.ram_first_le_last
      rw [Window.size]
      omega
  | rom offset =>
      change AddressMap.rom.size - offset.val =
        AddressMap.rom.last.toNat + 1 -
          (AddressMap.rom.first.toNat + offset.val)
      have ordered := AddressMap.rom_first_le_last
      rw [Window.size]
      omega

theorem lt_add_roomFrom_iff {start address : UInt32}
    (behind : start.toNat ≤ address.toNat) :
    address.toNat < start.toNat + roomFrom start ↔
      IsMapped address ∧
        Region.ofAddress? address = Region.ofAddress? start := by
  rw [isMapped_iff]
  cases startLeads : Region.ofAddress? start with
  | none =>
      have noRoom := roomFrom_of_leads_nowhere startLeads
      constructor
      · intro inside
        omega
      · rintro ⟨mapped, unmapped⟩
        rw [unmapped] at mapped
        cases mapped
  | some region =>
      have startInside :=
        (Region.ofAddress?_eq_some_iff start region).mp startLeads
      have sameStore := Region.ofAddress?_eq_some_iff address region
      rw [Window.contains_iff] at startInside sameStore
      rw [roomFrom_of_leads startLeads]
      constructor
      · intro inside
        have leads := sameStore.mpr (by omega)
        exact ⟨Option.isSome_of_eq_some leads, leads⟩
      · intro facts
        have inside := sameStore.mp facts.2
        omega

/-- The byte at a position after bytes were laid from a first position on,
given the byte that was there. -/
def laid (bytes : List UInt8) (first position : Nat) (old : UInt8) :
    UInt8 :=
  if first ≤ position then
    (bytes[position - first]?).getD old
  else
    old

theorem laid_nil (first position : Nat) (old : UInt8) :
    laid [] first position old = old := by
  simp [laid]

theorem laid_cons (byte : UInt8) (rest : List UInt8)
    (first position : Nat) (old : UInt8) :
    laid (byte :: rest) first position old =
      laid rest (first + 1) position
        (if position = first then byte else old) := by
  unfold laid
  rcases Nat.lt_trichotomy position first with below | here | above
  · rw [if_neg (by omega), if_neg (by omega), if_neg (by omega)]
  · rw [if_pos (Nat.le_of_eq here.symm), if_neg (by omega), if_pos here,
      here, Nat.sub_self]
    rfl
  · have distance : position - first = position - (first + 1) + 1 := by
      omega
    rw [if_pos (by omega), if_pos (by omega), if_neg (by omega),
      distance, List.getElem?_cons_succ]

theorem laid_of_getElem? {bytes : List UInt8} {index : Nat}
    {byte : UInt8} (found : bytes[index]? = some byte) (first : Nat)
    (old : UInt8) :
    laid bytes first (first + index) old = byte := by
  simp [laid, found]

theorem laid_of_outside {bytes : List UInt8} {first position : Nat}
    (outside : position < first ∨ first + bytes.length ≤ position)
    (old : UInt8) : laid bytes first position old = old := by
  unfold laid
  split
  · rw [List.getElem?_eq_none (by omega), Option.getD_none]
  · rfl

theorem laid_of_inside {bytes : List UInt8} {first position : Nat}
    (behind : first ≤ position)
    (inside : position < first + bytes.length) (old other : UInt8) :
    laid bytes first position old = laid bytes first position other := by
  have found := List.getElem?_eq_getElem
    (show position - first < bytes.length by omega)
  unfold laid
  rw [if_pos behind, if_pos behind, found, Option.getD_some,
    Option.getD_some]

theorem laid_add (bytes : List UInt8) (base first position : Nat)
    (old : UInt8) :
    laid bytes (base + first) (base + position) old =
      laid bytes first position old := by
  simp only [laid, Nat.add_le_add_iff_left, Nat.add_sub_add_left]

theorem getElem_overwrite {size : Nat} (cells : Vector UInt8 size)
    (offset : Nat) (bytes : List UInt8) (index : Nat)
    (inside : index < size) :
    (overwrite cells offset bytes)[index] =
      laid bytes offset index cells[index] := by
  induction bytes generalizing cells offset with
  | nil => rw [overwrite, laid_nil]
  | cons byte rest inductionHypothesis =>
      rw [overwrite, inductionHypothesis, laid_cons,
        Vector.getElem_setIfInBounds]
      simp only [eq_comm]

namespace Memory

/-! ### Bytes after a write -/

theorem byteAt_of_not_mapped (memory : Memory) {address : UInt32}
    (unmapped : ¬IsMapped address) : memory.byteAt address = 0 := by
  rw [IsMapped, Bool.not_eq_true, Option.isSome_eq_false_iff,
    Option.isNone_iff_eq_none] at unmapped
  rw [byteAt, unmapped]

theorem get_set (memory : Memory) (location other : Location)
    (byte : UInt8) :
    (memory.set location byte).get other =
      if location = other then byte else memory.get other := by
  cases location with
  | ram offset =>
      cases other with
      | ram otherOffset =>
          simp only [Location.ram.injEq, Fin.ext_iff]
          exact Vector.getElem_set offset.isLt otherOffset.isLt
      | rom otherOffset => rfl
  | rom offset =>
      cases other with
      | ram otherOffset => rfl
      | rom otherOffset =>
          simp only [Location.rom.injEq, Fin.ext_iff]
          exact Vector.getElem_set offset.isLt otherOffset.isLt

theorem byteAt_write8 (memory : Memory) (target address : UInt32)
    (byte : UInt8) :
    (memory.write8 target byte).value.byteAt address =
      if address = target ∧ IsMapped address then
        byte
      else
        memory.byteAt address := by
  by_cases same : address = target
  · subst same
    cases found : Location.ofAddress? address with
    | none => simp [write8, found, IsMapped]
    | some location => simp [write8, byteAt, found, IsMapped, get_set]
  · rw [if_neg (fun both => same both.1)]
    cases targetFound : Location.ofAddress? target with
    | none => simp [write8, targetFound]
    | some location =>
        cases found : Location.ofAddress? address with
        | none => simp [byteAt, found]
        | some other =>
            have apart : location ≠ other := by
              rintro rfl
              exact same (Location.ofAddress?_inj found targetFound)
            simp [write8, byteAt, found, targetFound, get_set, apart]

theorem byteAt_writePast (memory : Memory) (start address : UInt32)
    (distance : Nat) (byte : UInt8) :
    (memory.writePast start distance byte).value.byteAt address =
      if address.toNat = start.toNat + distance ∧ IsMapped address then
        byte
      else
        memory.byteAt address := by
  simp only [← advance?_eq_some_iff]
  unfold writePast
  cases reached : advance? start distance with
  | none => simp
  | some target => simp [byteAt_write8, eq_comm]

/-- A wide write lays its bytes, as far as the address space goes. -/
theorem byteAt_writeBytesPast (memory : Memory) (start address : UInt32)
    (distance : Nat) (bytes : List UInt8) :
    (memory.writeBytesPast start distance bytes).value.byteAt address =
      if IsMapped address then
        laid bytes (start.toNat + distance) address.toNat
          (memory.byteAt address)
      else
        memory.byteAt address := by
  by_cases mapped : IsMapped address
  · induction bytes generalizing memory distance with
    | nil => simp [writeBytesPast, laid_nil, mapped]
    | cons byte rest inductionHypothesis =>
        rw [writeBytesPast, Logged.value_bind, inductionHypothesis,
          laid_cons, byteAt_writePast]
        simp only [mapped, and_true, if_true, Nat.add_assoc]
  · rw [if_neg mapped, byteAt_of_not_mapped _ mapped,
      byteAt_of_not_mapped _ mapped]

theorem get_store_ram (memory : Memory)
    (offset other : Fin AddressMap.ramSize) (bytes : List UInt8) :
    (memory.store (.ram offset) bytes).get (.ram other) =
      laid bytes offset.val other.val (memory.get (.ram other)) :=
  getElem_overwrite memory.ram offset.val bytes other.val other.isLt

theorem get_store_rom (memory : Memory)
    (offset other : Fin AddressMap.romSize) (bytes : List UInt8) :
    (memory.store (.rom offset) bytes).get (.rom other) =
      laid bytes offset.val other.val (memory.get (.rom other)) :=
  getElem_overwrite memory.rom offset.val bytes other.val other.isLt

theorem get_store (memory : Memory) (location other : Location)
    (bytes : List UInt8) :
    (memory.store location bytes).get other =
      if other.region = location.region then
        laid bytes location.position other.position (memory.get other)
      else
        memory.get other := by
  cases location with
  | ram offset =>
      cases other with
      | ram otherOffset =>
          rw [get_store_ram]
          simp [Location.region, Location.position, laid_add]
      | rom otherOffset => rfl
  | rom offset =>
      cases other with
      | ram otherOffset => rfl
      | rom otherOffset =>
          rw [get_store_rom]
          simp [Location.region, Location.position, laid_add]

theorem value_load (memory : Memory) (data : List UInt8)
    {start : UInt32} {location : Location}
    (found : Location.ofAddress? start = some location) :
    (memory.load data start).value =
      (min data.length location.room, memory.store location data) := by
  simp only [load, found]
  split <;> rfl

/-- A bulk load lays its bytes within one store. -/
theorem byteAt_load (memory : Memory) (start address : UInt32)
    (data : List UInt8) :
    (memory.load data start).value.2.byteAt address =
      if IsMapped address ∧
          Region.ofAddress? address = Region.ofAddress? start then
        laid data start.toNat address.toNat (memory.byteAt address)
      else
        memory.byteAt address := by
  unfold Region.ofAddress?
  cases found : Location.ofAddress? address with
  | none => simp [byteAt, found, IsMapped]
  | some location =>
      cases startFound : Location.ofAddress? start with
      | none => simp [load, byteAt, found, startFound]
      | some startLocation =>
          have placed := Location.position_of_ofAddress? found
          have startPlaced := Location.position_of_ofAddress? startFound
          simp only [value_load memory data startFound, byteAt, found,
            get_store, IsMapped, placed, startPlaced, Option.map_some,
            Option.isSome_some, true_and, Option.some.injEq]

theorem value_load_fst (memory : Memory) (data : List UInt8)
    (start : UInt32) :
    (memory.load data start).value.1 = min data.length (roomFrom start) := by
  cases found : Location.ofAddress? start with
  | none =>
      have noRoom : roomFrom start = 0 := by
        apply roomFrom_of_leads_nowhere
        rw [Region.ofAddress?, found, Option.map_none]
      simp [load, found, noRoom]
  | some location =>
      rw [value_load memory data found, Location.room_eq found]

theorem byteAt_load_take (memory : Memory) (start address : UInt32)
    (data : List UInt8) :
    (memory.load data start).value.2.byteAt address =
      laid (data.take (roomFrom start)) start.toNat address.toNat
        (memory.byteAt address) := by
  rw [byteAt_load]
  by_cases behind : start.toNat ≤ address.toNat
  · have reached := lt_add_roomFrom_iff behind
    split
    · rename_i sameStore
      have inside := reached.mpr sameStore
      rw [laid, laid, if_pos behind, if_pos behind,
        List.getElem?_take_of_lt (by omega)]
    · rename_i apart
      have outside : ¬address.toNat < start.toNat + roomFrom start :=
        fun inside => apart (reached.mp inside)
      rw [laid_of_outside]
      rw [List.length_take]
      omega
  · have before := Nat.lt_of_not_le behind
    rw [laid_of_outside (.inl before), laid_of_outside (.inl before),
      ite_self]

theorem byteAt_clearRam (memory : Memory) (address : UInt32) :
    memory.clearRam.byteAt address =
      if Region.ofAddress? address = some .ram then
        0
      else
        memory.byteAt address := by
  unfold Region.ofAddress? byteAt
  cases Location.ofAddress? address with
  | none => rfl
  | some location =>
      cases location with
      | ram offset => exact Vector.getElem_replicate offset.isLt
      | rom offset => rfl

end Memory

end RxBoard
