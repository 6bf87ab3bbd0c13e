namespace PooledMemory

/-- An address is a number of bytes from the start of memory. -/
abbrev Address := Nat

/-- Addresses, sizes and counters are machine words: naturals below this bound. -/
def wordSize : Nat := 18446744073709551616

/-- The largest word, which also stands for an unlimited budget. -/
def maxWord : Nat := 18446744073709551615

/-- The sum of the values of `f`, without a bound. -/
def sumBy {α : Type} (f : α → Nat) : List α → Nat
  | [] => 0
  | x :: rest => f x + sumBy f rest

@[simp] theorem sumBy_nil {α : Type} (f : α → Nat) : sumBy f [] = 0 := rfl

@[simp] theorem sumBy_cons {α : Type} (f : α → Nat) (x : α) (rest : List α) :
    sumBy f (x :: rest) = f x + sumBy f rest := rfl

@[simp] theorem sumBy_append {α : Type} (f : α → Nat) (xs ys : List α) :
    sumBy f (xs ++ ys) = sumBy f xs + sumBy f ys := by
  induction xs with
  | nil => simp
  | cons x rest ih =>
    rw [List.cons_append, sumBy_cons, sumBy_cons, ih]
    omega

theorem sumBy_perm {α : Type} (f : α → Nat) {xs ys : List α} (perm : xs.Perm ys) :
    sumBy f xs = sumBy f ys := by
  induction perm with
  | nil => rfl
  | cons x _ ih => rw [sumBy_cons, sumBy_cons, ih]
  | swap x y rest =>
    simp only [sumBy_cons]
    omega
  | trans _ _ first second => exact first.trans second

theorem sumBy_length {α β : Type} (f : α → List β) (xs : List α) :
    sumBy (fun x => (f x).length) xs = (xs.flatMap f).length := by
  induction xs with
  | nil => rfl
  | cons x rest ih => rw [sumBy_cons, ih, List.flatMap_cons, List.length_append]

namespace Word

/-- Addition of counters, modulo the word size. -/
def add (a b : Nat) : Nat := (a + b) % wordSize

/-- Subtraction of counters, modulo the word size. -/
def sub (a b : Nat) : Nat := (a + (wordSize - b % wordSize)) % wordSize

/-- Multiplication of counters, modulo the word size. -/
def mul (a b : Nat) : Nat := a * b % wordSize

def add? (a b : Nat) : Option Nat := if a + b < wordSize then some (a + b) else none

def mul? (a b : Nat) : Option Nat := if a * b < wordSize then some (a * b) else none

/-- The least multiple of `step` that is at least `n`. -/
def roundUp (n step : Nat) : Nat := if n % step = 0 then n else n + (step - n % step)

/-- The least multiple of a positive `step` that is at least `n`, if it is a word. -/
def roundUp? (n step : Nat) : Option Nat :=
  if 0 < step ∧ roundUp n step < wordSize then some (roundUp n step) else none

def isPowerOfTwo (n : Nat) : Bool := n == 1 <<< n.log2

theorem add_of_lt {a b : Nat} (small : a + b < wordSize) : add a b = a + b :=
  Nat.mod_eq_of_lt small

theorem mul_of_lt {a b : Nat} (small : a * b < wordSize) : mul a b = a * b :=
  Nat.mod_eq_of_lt small

theorem sub_of_le {a b : Nat} (le : b ≤ a) (small : a < wordSize) : sub a b = a - b := by
  have smaller : b < wordSize := Nat.lt_of_le_of_lt le small
  have split : a + (wordSize - b) = (a - b) + wordSize := by omega
  rw [sub, Nat.mod_eq_of_lt smaller, split, Nat.add_mod_right]
  exact Nat.mod_eq_of_lt (by omega)

theorem le_roundUp (n step : Nat) : n ≤ roundUp n step := by
  unfold roundUp
  split <;> omega

theorem roundUp_lt {n step : Nat} (positive : 0 < step) : roundUp n step < n + step := by
  have rest := Nat.mod_lt n positive
  unfold roundUp
  split <;> omega

theorem dvd_roundUp {n step : Nat} (positive : 0 < step) : step ∣ roundUp n step := by
  have rest := Nat.mod_lt n positive
  unfold roundUp
  split
  · rename_i whole
    exact Nat.dvd_of_mod_eq_zero whole
  · have division := Nat.div_add_mod n step
    have target : n + (step - n % step) = step * (n / step + 1) := by
      rw [Nat.mul_add, Nat.mul_one]
      omega
    exact target ▸ Nat.dvd_mul_right step _

theorem roundUp_of_dvd {n step : Nat} (multiple : step ∣ n) : roundUp n step = n := by
  simp [roundUp, Nat.mod_eq_zero_of_dvd multiple]

theorem isPowerOfTwo_iff {n : Nat} : isPowerOfTwo n = true ↔ ∃ k, n = 1 <<< k := by
  constructor
  · intro power
    exact ⟨n.log2, by simpa [isPowerOfTwo] using power⟩
  · rintro ⟨k, rfl⟩
    simp [isPowerOfTwo, Nat.one_shiftLeft]

end Word

/-- A size and an alignment form a layout if the alignment is a power of two and the size,
rounded up to it, stays below half of the address space. -/
def layoutFits (size align : Nat) : Bool :=
  Word.isPowerOfTwo align && decide (size + align ≤ 9223372036854775808)

/-- Segments are this many bytes long. -/
def segmentBytes : Nat := 1048576

/-- Segments start at multiples of this number. Stricter requests get a region of their own. -/
def maxSegmentAlign : Nat := 4096

/-- Block sizes and addresses are multiples of this number. -/
def granule : Nat := 16

/-- Bytes charged against the budget of a pool for each live block, besides its size. -/
def blockOverhead : Nat := 16

/-- Blocks of at least this size get a region of their own. -/
def largeThreshold : Nat := 131072

/-- Blocks up to this size are parked for fast reuse when they are released. -/
def maxParkedSize : Nat := 64

/-- The byte written over memory that has been released. -/
def poisonByte : UInt8 := 0xDD

/-- Rounds a request up to whole granules. A request for nothing gets one granule. -/
def chunkSize? (size : Nat) : Option Nat := Word.roundUp? (max size 1) granule

theorem chunkSize?_eq_some_iff {size chunk : Nat} :
    chunkSize? size = some chunk ↔
      granule ∣ chunk ∧ max size 1 ≤ chunk ∧ chunk < max size 1 + granule ∧ chunk < wordSize := by
  have positive : 0 < granule := by decide
  have lower := Word.le_roundUp (max size 1) granule
  have upper := Word.roundUp_lt (n := max size 1) positive
  have multiple := Word.dvd_roundUp (n := max size 1) positive
  unfold chunkSize? Word.roundUp?
  constructor
  · intro served
    split at served
    · rename_i fits
      cases served
      exact ⟨multiple, lower, upper, fits.2⟩
    · cases served
  · rintro ⟨whole, above, below, small⟩
    have same : Word.roundUp (max size 1) granule = chunk := by
      unfold granule at *
      omega
    simp [same, small, positive]

end PooledMemory
