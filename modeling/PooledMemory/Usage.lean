import PooledMemory.Word

namespace PooledMemory

/-- What a heap holds and how it uses it. -/
structure Usage where
  /-- Bytes held in segments. -/
  segmentBytes : Nat := 0
  /-- Number of free ranges. -/
  freeRanges : Nat := 0
  /-- Number of chunks parked for fast reuse. -/
  parkedChunks : Nat := 0
  /-- Number of dedicated regions. -/
  regions : Nat := 0
  /-- Bytes held in dedicated regions. -/
  regionBytes : Nat := 0
  /-- The highest footprint so far. -/
  peak : Nat := 0
  /-- Bytes in parked chunks. -/
  parkedBytes : Nat := 0
  /-- Bytes of live blocks. -/
  allocated : Nat := 0
  /-- Bytes held in segments but not allocated. -/
  free : Nat := 0
  /-- Bytes in segments without any use. -/
  returnable : Nat := 0
  deriving DecidableEq, Repr

namespace Usage

/-- The ten numbers in the order in which system heaps report them. -/
def toList (u : Usage) : List Nat :=
  [u.segmentBytes, u.freeRanges, u.parkedChunks, u.regions, u.regionBytes, u.peak,
    u.parkedBytes, u.allocated, u.free, u.returnable]

/-- Reads the ten numbers back; missing ones are zero. -/
def ofList (values : List Nat) : Usage :=
  let at? (i : Nat) := values[i]?.getD 0
  ⟨at? 0, at? 1, at? 2, at? 3, at? 4, at? 5, at? 6, at? 7, at? 8, at? 9⟩

theorem ofList_toList (u : Usage) : ofList u.toList = u := rfl

def text (u : Usage) : String :=
  s!"heap peaked at {u.peak} bytes; {u.allocated} bytes in use, {u.free} bytes free; " ++
  s!"{u.segmentBytes} bytes in segments, {u.regionBytes} bytes in {u.regions} dedicated regions; " ++
  s!"{u.parkedBytes} bytes held by {u.parkedChunks} fast reuse chunks; " ++
  s!"{u.returnable} bytes could be returned to the system"

end Usage

end PooledMemory
