import PooledMemory.Segment
import PooledMemory.SystemHeap
import PooledMemory.Usage

namespace PooledMemory

/-- A block in the hands of a caller. -/
structure LiveBlock where
  addr : Address
  size : Nat
  align : Nat
  /-- Whether the block has a region of its own instead of a place in a segment. -/
  dedicated : Bool
  deriving DecidableEq, Repr

/-- A released chunk that waits for a request of its size. -/
structure ParkedChunk where
  addr : Address
  size : Nat
  deriving DecidableEq, Repr

/-- The memory of one pool. It obtains segments from the system heap and carves blocks out of
them; small released blocks are parked, large or strictly aligned ones live in own regions. -/
structure Heap where
  /-- Upper bound of the footprint. -/
  maxSize : Nat
  /-- Segments by ascending base. -/
  segments : List Segment
  live : List LiveBlock
  /-- Parked chunks, the latest first. -/
  parked : List ParkedChunk
  /-- Running sum of the sizes of the live blocks. -/
  allocated : Nat
  /-- The highest footprint so far. -/
  peak : Nat
  /-- Running number of dedicated regions. -/
  regions : Nat
  /-- Running sum of the sizes of dedicated regions. -/
  regionBytes : Nat
  deriving DecidableEq, Repr

/-- The answer of a heap operation with the heap and the system heap as it leaves them. -/
structure HeapStep (α : Type) where
  answer : α
  heap : Heap
  system : SystemHeap

namespace Heap

def empty (maxSize : Nat) : Heap := ⟨maxSize, [], [], [], 0, 0, 0, 0⟩

/-- Bytes charged against the budget: the sizes of the live blocks and the overhead of each. -/
def footprint (h : Heap) : Nat :=
  Word.add h.allocated (Word.mul h.live.length blockOverhead)

def fitsBudget (h : Heap) (additional : Nat) : Bool :=
  match Word.add? h.footprint additional with
  | some footprint => decide (footprint ≤ h.maxSize)
  | none => false

def block? (h : Heap) (addr : Address) : Option LiveBlock := h.live.find? (·.addr == addr)

def sizeOf? (h : Heap) (addr : Address) : Option Nat := (h.block? addr).map (·.size)

/-- Halves the range between `low` and `high` until nothing is left of it, at most `steps` times.
Elements below the answer satisfy `p`, those from it on do not. -/
def bisect {α : Type} (p : α → Bool) (xs : List α) : Nat → Nat → Nat → Nat
  | 0, low, _ => low
  | steps + 1, low, high =>
    if low < high then
      let middle := (low + high) / 2
      match xs[middle]? with
      | none => low
      | some x =>
        if p x then bisect p xs steps (middle + 1) high else bisect p xs steps low middle
    else low

/-- The number of leading elements that satisfy `p`, found by bisection in a list where no element
behind them satisfies it. -/
def partitionPoint {α : Type} (p : α → Bool) (xs : List α) : Nat :=
  bisect p xs xs.length 0 xs.length

/-- The index of the segment that an address lies in. -/
def segmentIndex? (h : Heap) (addr : Address) : Option Nat :=
  match partitionPoint (fun s : Segment => decide (s.base ≤ addr)) h.segments with
  | 0 => none
  | i + 1 =>
    match h.segments[i]? with
    | some s => if s.contains addr then some i else none
    | none => none

/-- Whether an address lies in memory held by the heap, in use or not. -/
def contains (h : Heap) (addr : Address) : Bool :=
  (h.segmentIndex? addr).isSome ||
    h.live.any fun b => b.dedicated && decide (b.addr ≤ addr) && decide (addr < b.addr + b.size)

/-- Makes a range of bytes in a segment free again. -/
def returnRange (h : Heap) (addr : Address) (length : Nat) : Except Fault Heap :=
  match h.segmentIndex? addr with
  | none => .error (.outsideSegments addr)
  | some i =>
    match h.segments[i]? with
    | none => .error (.outsideSegments addr)
    | some s =>
      match s.giveBack (addr - s.base) length with
      | .ok s => .ok { h with segments := h.segments.set i s }
      | .error fault => .error fault

def returnChunks (h : Heap) : List ParkedChunk → Except Fault Heap
  | [] => .ok h
  | c :: rest =>
    match h.returnRange c.addr c.size with
    | .ok h => h.returnChunks rest
    | .error fault => .error fault

/-- Moves all parked chunks back into their segments. -/
def unpark (h : Heap) : Except Fault Heap := { h with parked := [] }.returnChunks h.parked

/-- Whether a request is served from a region of its own. -/
def needsRegion (chunk align : Nat) : Bool :=
  decide (largeThreshold ≤ chunk) || decide (maxSegmentAlign < align)

def addLive (h : Heap) (b : LiveBlock) : Heap :=
  let h := { h with live := b :: h.live, allocated := Word.add h.allocated b.size }
  { h with peak := max h.peak h.footprint }

theorem block?_addLive {h : Heap} {b : LiveBlock} {addr : Address} :
    (h.addLive b).block? addr = if b.addr = addr then some b else h.block? addr := by
  simp only [block?, addLive, List.find?_cons]
  split <;> simp_all

def removeLive (h : Heap) (b : LiveBlock) : Heap :=
  { h with
    live := h.live.filter (·.addr != b.addr)
    allocated := Word.sub h.allocated b.size }

theorem block?_removeLive {h : Heap} {b : LiveBlock} {addr : Address} :
    (h.removeLive b).block? addr = if b.addr = addr then none else h.block? addr := by
  simp only [block?, removeLive, List.find?_filter]
  split
  · rename_i same
    subst same
    simp
  · rename_i other
    congr 1
    funext c
    by_cases here : c.addr = addr
    · simp [here, Ne.symm other]
    · simp [here]

def usage (h : Heap) : Usage where
  segmentBytes := sumBy (·.length) h.segments
  freeRanges := sumBy (·.free.length) h.segments
  parkedChunks := h.parked.length
  regions := h.regions
  regionBytes := h.regionBytes
  peak := h.peak
  parkedBytes := sumBy (·.size) h.parked
  allocated := h.allocated
  free := Word.add (sumBy (·.freeBytes) h.segments) (sumBy (·.size) h.parked)
  returnable := sumBy (·.length) (h.segments.filter (·.isUnused))

end Heap

end PooledMemory
