/-!
Little-endian numbers.

Every multi-byte quantity of the machine is stored with its least significant
byte first.  `value` reads such a byte string and `bytes` writes one of a given
width.  Written bytes read back (`word_wordBytes`, `halfword_halfwordBytes`),
and a byte string is what is written for its number (`bytes_value`).
-/

namespace RxBoard.LittleEndian

def value : List UInt8 → Nat
  | [] => 0
  | byte :: rest => byte.toNat + 256 * value rest

/-- The low `width` bytes of a number, least significant first. -/
def bytes : Nat → Nat → List UInt8
  | 0, _ => []
  | width + 1, number =>
      UInt8.ofNat number :: bytes width (number / 256)

def halfword (stored : List UInt8) : UInt16 :=
  UInt16.ofNat (value stored)

def word (stored : List UInt8) : UInt32 :=
  UInt32.ofNat (value stored)

def halfwordBytes (number : UInt16) : List UInt8 :=
  bytes 2 number.toNat

def wordBytes (number : UInt32) : List UInt8 :=
  bytes 4 number.toNat

@[simp] theorem length_bytes (width number : Nat) :
    (bytes width number).length = width := by
  induction width generalizing number with
  | zero => rfl
  | succ width inductionHypothesis =>
      simp [bytes, inductionHypothesis]

@[simp] theorem length_halfwordBytes (number : UInt16) :
    (halfwordBytes number).length = 2 :=
  length_bytes 2 number.toNat

@[simp] theorem length_wordBytes (number : UInt32) :
    (wordBytes number).length = 4 :=
  length_bytes 4 number.toNat

theorem bytes_value (stored : List UInt8) :
    bytes stored.length (value stored) = stored := by
  induction stored with
  | nil => rfl
  | cons byte rest inductionHypothesis =>
      have byteBound : byte.toNat < 256 := byte.toNat_lt
      have quotient :
          (byte.toNat + 256 * value rest) / 256 = value rest := by
        omega
      have head :
          UInt8.ofNat (byte.toNat + 256 * value rest) = byte := by
        apply UInt8.toNat_inj.mp
        rw [UInt8.toNat_ofNat']
        omega
      simp only [List.length_cons, value, bytes, quotient, head,
        inductionHypothesis]

@[simp] theorem word_wordBytes (number : UInt32) :
    word (wordBytes number) = number := by
  apply UInt32.toNat_inj.mp
  have numberBound : number.toNat < UInt32.size := number.toNat_lt_size
  simp only [UInt32.size] at numberBound
  simp only [word, wordBytes, bytes, value, UInt32.toNat_ofNat',
    UInt8.toNat_ofNat']
  omega

@[simp] theorem halfword_halfwordBytes (number : UInt16) :
    halfword (halfwordBytes number) = number := by
  apply UInt16.toNat_inj.mp
  have numberBound : number.toNat < UInt16.size := number.toNat_lt_size
  simp only [UInt16.size] at numberBound
  simp only [halfword, halfwordBytes, bytes, value,
    UInt16.toNat_ofNat', UInt8.toNat_ofNat']
  omega

theorem value_lt_size {stored : List UInt8} (four : stored.length = 4) :
    value stored < UInt32.size := by
  match stored, four with
  | [byte0, byte1, byte2, byte3], _ =>
      have bound0 := byte0.toNat_lt
      have bound1 := byte1.toNat_lt
      have bound2 := byte2.toNat_lt
      have bound3 := byte3.toNat_lt
      simp only [value, UInt32.size]
      omega

theorem wordBytes_word {stored : List UInt8} (four : stored.length = 4) :
    wordBytes (word stored) = stored := by
  have stable := bytes_value stored
  rw [four] at stable
  rw [wordBytes, word, UInt32.toNat_ofNat_of_lt' (value_lt_size four)]
  exact stable

theorem toUInt8_shiftRight (number amount : UInt32) :
    (number >>> amount).toUInt8 =
      UInt8.ofNat (number.toNat >>> (amount.toNat % 32)) := by
  apply UInt8.toNat_inj.mp
  rw [UInt8.toNat_ofNat', UInt32.toNat_toUInt8,
    UInt32.toNat_shiftRight]

theorem halfwordBytes_eq (number : UInt16) :
    halfwordBytes number =
      [number.toUInt8, (number >>> 8).toUInt8] := by
  have low : UInt8.ofNat number.toNat = number.toUInt8 := by
    apply UInt8.toNat_inj.mp
    simp
  have high : UInt8.ofNat (number.toNat / 256) =
      (number >>> 8).toUInt8 := by
    apply UInt8.toNat_inj.mp
    simp [Nat.shiftRight_eq_div_pow]
  rw [halfwordBytes, bytes, bytes, bytes, low, high]

theorem wordBytes_eq (number : UInt32) :
    wordBytes number =
      [number.toUInt8, (number >>> 8).toUInt8,
        (number >>> 16).toUInt8, (number >>> 24).toUInt8] := by
  have low : UInt8.ofNat number.toNat = number.toUInt8 := by
    apply UInt8.toNat_inj.mp
    simp
  have second : UInt8.ofNat (number.toNat / 256) =
      (number >>> 8).toUInt8 := by
    rw [toUInt8_shiftRight, Nat.shiftRight_eq_div_pow]
    rfl
  have third : UInt8.ofNat (number.toNat / 256 / 256) =
      (number >>> 16).toUInt8 := by
    rw [toUInt8_shiftRight, Nat.shiftRight_eq_div_pow,
      Nat.div_div_eq_div_mul]
    rfl
  have high : UInt8.ofNat (number.toNat / 256 / 256 / 256) =
      (number >>> 24).toUInt8 := by
    rw [toUInt8_shiftRight, Nat.shiftRight_eq_div_pow,
      Nat.div_div_eq_div_mul, Nat.div_div_eq_div_mul]
    rfl
  rw [wordBytes, bytes, bytes, bytes, bytes, bytes, low, second, third,
    high]

end RxBoard.LittleEndian
