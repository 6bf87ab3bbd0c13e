import PooledMemory.Bytes

namespace PooledMemory

/-- The types of the values that can be boxed. -/
inductive ValueType
  | unit
  | uint8
  | uint32
  | int64
  | int128
  | bytes (count : Nat)
  /-- A signed word at a multiple of this number of bytes, and as long. Where there is no room for
  a whole word, its low bytes are kept. -/
  | wide (align : Nat)
  /-- A text. The value is its number only; the characters live elsewhere. -/
  | text
  /-- A signed word whose drops are counted. -/
  | counted
  deriving DecidableEq, Repr

namespace ValueType

def size : ValueType → Nat
  | unit => 0
  | uint8 => 1
  | uint32 => 4
  | int64 => 8
  | int128 => 16
  | bytes count => count
  | wide align => align
  | text => 24
  | counted => 8

def align : ValueType → Nat
  | unit => 1
  | uint8 => 1
  | uint32 => 4
  | int64 => 8
  | int128 => 16
  | bytes _ => 1
  | wide align => align
  | text => 8
  | counted => 8

/-- How many bytes carry the value. The rest of the type is padding. -/
def payload : ValueType → Nat
  | wide align => min 8 align
  | type => type.size

theorem payload_le_size (type : ValueType) : type.payload ≤ type.size := by
  cases type with
  | wide align => exact Nat.min_le_right 8 align
  | _ => exact Nat.le_refl _

def isSigned : ValueType → Bool
  | int64 => true
  | int128 => true
  | wide _ => true
  | counted => true
  | _ => false

/-- How many numbers can be told apart by the bytes of a type. -/
def modulus (type : ValueType) : Nat := 1 <<< (8 * type.payload)

/-- The number that remains of `n` in a type: it differs from `n` by a multiple of the modulus. -/
def truncate (type : ValueType) (n : Int) : Int :=
  let low := n % type.modulus
  if type.isSigned && decide ((type.modulus : Int) ≤ 2 * low) then low - type.modulus else low

theorem modulus_pos (type : ValueType) : 0 < type.modulus := by
  rw [modulus, Nat.one_shiftLeft]
  exact Nat.two_pow_pos _

theorem truncate_emod (type : ValueType) (n : Int) :
    type.truncate (n % type.modulus) = type.truncate n := by
  simp only [truncate, Int.emod_emod]

end ValueType

/-- A value, by all the bytes that carry it. -/
structure Value where
  type : ValueType
  bytes : Vector UInt8 type.payload
  deriving DecidableEq, Repr

namespace Value

/-- The byte of a value at an index. Where the value has none it does not matter which one. -/
def byte (v : Value) (i : Nat) : UInt8 := v.bytes[i]?.getD 0

/-- The value that lies in memory at an address. -/
def load (memory : Bytes) (addr : Address) (type : ValueType) : Value :=
  ⟨type, .ofFn fun i => memory (addr + i)⟩

/-- The value of a type that stands for a number, as far as it has room for it. -/
def ofNumber (type : ValueType) (n : Int) : Value :=
  ⟨type, .ofFn fun i => Bytes.littleEndian (n % type.modulus).toNat i⟩

/-- An array of equal bytes. -/
def array (count : Nat) (byte : UInt8) : Value := ⟨.bytes count, .replicate count byte⟩

/-- The number that a value stands for. -/
def number (v : Value) : Int := v.type.truncate (Bytes.ofLittleEndian v.bytes.toList)

/-- A value is read back from where its bytes are, and from nowhere else. -/
theorem load_eq_iff {memory : Bytes} {addr : Address} {type : ValueType} {v : Value} :
    load memory addr type = v ↔
      v.type = type ∧ ∀ i < v.type.payload, memory (addr + i) = v.byte i := by
  obtain ⟨own, bytes⟩ := v
  constructor
  · rintro ⟨⟩
    refine ⟨rfl, fun i inside => ?_⟩
    simp [byte, inside]
  · rintro ⟨rfl, stored⟩
    refine congrArg (Value.mk own) (Vector.ext fun i inside => ?_)
    simpa [byte, inside] using stored i inside

/-- A value is read back where it has been written. -/
theorem load_write (memory : Bytes) (addr : Address) (v : Value) :
    load (memory.write addr v.type.payload v.byte) addr v.type = v := by
  refine load_eq_iff.2 ⟨rfl, fun i inside => ?_⟩
  rw [Bytes.write_of_mem (Nat.le_add_right _ _) (Nat.add_lt_add_left inside _),
    Nat.add_sub_cancel_left]

/-- A number is read back from the value made of it, truncated to the type. -/
theorem number_ofNumber (type : ValueType) (n : Int) :
    (ofNumber type n).number = type.truncate n := by
  have digits : (ofNumber type n).bytes.toList =
      (List.range type.payload).map (Bytes.littleEndian (n % type.modulus).toNat) := by
    refine List.ext_getElem (by simp [ofNumber]) fun i _ _ => ?_
    simp [ofNumber]
  have positive : (0 : Int) < type.modulus := Int.natCast_pos.2 type.modulus_pos
  have lower := Int.emod_nonneg n (Int.ne_of_gt positive)
  have upper := Int.emod_lt_of_pos n positive
  rw [number, digits, Bytes.ofLittleEndian_littleEndian]
  change type.truncate (((n % type.modulus).toNat % type.modulus : Nat) : Int) = _
  rw [Nat.mod_eq_of_lt (by omega), Int.toNat_of_nonneg lower, ValueType.truncate_emod]

example : (ofNumber .uint8 300).number = 44 ∧ (ofNumber .int64 (-6)).number = -6 := by decide

end Value

end PooledMemory
