import PooledMemory.Word

namespace PooledMemory

/-- The content of memory: one byte at every address. -/
abbrev Bytes := Address → UInt8

namespace Bytes

/-- Stores `content 0`, `content 1`, … in the `len` bytes from `start` on. -/
def write (bytes : Bytes) (start : Address) (len : Nat) (content : Nat → UInt8) : Bytes :=
  fun a => if start ≤ a ∧ a < start + len then content (a - start) else bytes a

def fill (bytes : Bytes) (start : Address) (len : Nat) (value : UInt8) : Bytes :=
  bytes.write start len fun _ => value

def copy (bytes : Bytes) (source target : Address) (len : Nat) : Bytes :=
  bytes.write target len fun i => bytes (source + i)

def slice (bytes : Bytes) (start : Address) (len : Nat) : List UInt8 :=
  (List.range len).map fun i => bytes (start + i)

theorem write_of_mem {bytes : Bytes} {start len a : Nat} {content : Nat → UInt8}
    (lower : start ≤ a) (upper : a < start + len) :
    bytes.write start len content a = content (a - start) := by
  simp [write, lower, upper]

theorem write_of_lt {bytes : Bytes} {start len a : Nat} {content : Nat → UInt8}
    (before : a < start) : bytes.write start len content a = bytes a := by
  simp [write, Nat.not_le.2 before]

theorem write_of_ge {bytes : Bytes} {start len a : Nat} {content : Nat → UInt8}
    (after : start + len ≤ a) : bytes.write start len content a = bytes a := by
  simp [write, Nat.not_lt.2 after]

/-- The little-endian digits of a number. -/
def littleEndian (n : Nat) (i : Nat) : UInt8 := UInt8.ofNat (n >>> (8 * i))

/-- The number whose little-endian digits are given. -/
def ofLittleEndian (digits : List UInt8) : Nat :=
  digits.foldr (fun digit rest => digit.toNat + 256 * rest) 0

theorem ofLittleEndian_littleEndian (n len : Nat) :
    ofLittleEndian ((List.range len).map (littleEndian n)) = n % 1 <<< (8 * len) := by
  induction len generalizing n with
  | zero => simp [ofLittleEndian, Nat.mod_one]
  | succ len ih =>
    have shifted : littleEndian n ∘ Nat.succ = littleEndian (n / 256) := by
      funext i
      have later : 8 * i.succ = 8 + 8 * i := by omega
      have byte : n >>> 8 = n / 256 := Nat.shiftRight_eq_div_pow n 8
      simp only [littleEndian, Function.comp_apply, later, Nat.shiftRight_add, byte]
    have first : (littleEndian n 0).toNat = n % 256 := by
      simp [littleEndian]
    rw [List.range_succ_eq_map, List.map_cons, List.map_map, shifted]
    change (littleEndian n 0).toNat + 256 * ofLittleEndian _ = _
    have wider : 1 <<< (8 * (len + 1)) = 256 * 1 <<< (8 * len) := by
      rw [Nat.one_shiftLeft, Nat.one_shiftLeft, Nat.mul_succ, Nat.pow_add, Nat.mul_comm]
    rw [ih, first, wider, Nat.mod_mul]

/-- A test pattern: neighbouring bytes differ, and so do patterns with different seeds. -/
def pattern (seed : UInt8) (i : Nat) : UInt8 := UInt8.ofNat i * 31 + seed

def hasPattern (bytes : Bytes) (start : Address) (len : Nat) (seed : UInt8) : Bool :=
  len.all fun i _ => bytes (start + i) == pattern seed i

end Bytes

end PooledMemory
