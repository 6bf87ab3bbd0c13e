import PooledMemory.Word

namespace PooledMemory

/-- A place in the text of a program. -/
structure Location where
  file : String
  line : Nat
  column : Nat
  deriving DecidableEq, Inhabited, Repr

def Location.text (site : Location) : String := s!"{site.file}:{site.line}:{site.column}"

/-- A request for memory. -/
structure Request where
  size : Nat
  align : Nat
  zeroed : Bool
  /-- The place that asks, if it is to be recorded with the block. -/
  origin : Option Location
  deriving DecidableEq, Repr

namespace Request

/-- A request for `size` bytes of natural alignment. -/
def plain (size : Nat) (site : Location := default) : Request := ⟨size, granule, false, some site⟩

/-- A request for `size` bytes at a multiple of `align`, which has to be a power of two. -/
def aligned? (size align : Nat) (site : Location := default) : Option Request :=
  if Word.isPowerOfTwo align then some ⟨size, align, false, some site⟩ else none

/-- A request for `count` zeroed elements of `size` bytes, if so many bytes can be counted. -/
def array? (count size : Nat) (site : Location := default) : Option Request :=
  (Word.mul? count size).map fun total => ⟨total, granule, true, some site⟩

end Request

end PooledMemory
