import PooledMemory.Bytes

namespace PooledMemory

/-- A block that the system heap has handed out. -/
structure SystemBlock where
  addr : Address
  size : Nat
  align : Nat
  deriving DecidableEq, Repr

/-- The allocator below all pools. Requests for exactly a segment are served from numbered slots of
that size, in an order of preference; every other block comes from fresh addresses above them. What
an allocator may do in one way or another is up to the first fields. -/
structure SystemHeap where
  /-- Slots that may be handed out, the preferred one first. -/
  slots : List Nat
  /-- Requests of this size or alignment and above are refused. -/
  limit : Nat
  /-- Whether the heap can tell the size of a block. -/
  tellsSizes : Bool
  /-- Whether a block that is resized stays at its address where there is room for the new size. -/
  inPlace : Bool
  /-- How many bytes beyond those asked for come with a block of some size at an address. -/
  spare : Address → Nat → Nat
  /-- What there is in memory when it is handed out. -/
  fresh : Address → UInt8
  /-- Blocks handed out and not returned. -/
  blocks : List SystemBlock
  /-- Blocks never lie above this address, and new ones outside of the slots never below. -/
  frontier : Address
  /-- Addresses of the returned blocks that did not come from a slot, the latest first. -/
  freed : List Address
  /-- How many returns and exchanges named nothing that was handed out. -/
  strayReturns : Nat
  bytes : Bytes

namespace SystemHeap

/-- The number of slots that fit below the addresses of the other blocks. -/
def slotCount : Nat := 16777216

/-- Blocks outside of the slots start here. -/
def firstBlock : Address := 70368744177664

/-- What memory outside of the slots is filled with at first. -/
def freshByte : UInt8 := 0xA5

def slotBase (slot : Nat) : Address := (slot + 1) * segmentBytes

/-- The slot that an address lies in, if it lies in one. -/
def slotOf? (addr : Address) : Option Nat :=
  if segmentBytes ≤ addr ∧ addr < slotBase slotCount then some (addr / segmentBytes - 1) else none

/-- Limits outside of this range are moved to its nearer end. -/
def clampLimit (limit : Nat) : Nat := min (max limit 65536) 67108864

/-- Nothing is handed out. Slots read as zero, blocks are as large as they were asked for, and those
that are resized move. -/
def start (slots : List Nat) : SystemHeap where
  slots := slots
  limit := clampLimit 67108864
  tellsSizes := true
  inPlace := false
  spare := fun _ _ => 0
  fresh := fun a => if a < firstBlock then 0 else freshByte
  blocks := []
  frontier := firstBlock
  freed := []
  strayReturns := 0
  bytes := fun _ => 0

def refuses (s : SystemHeap) (size align : Nat) : Bool := s.limit ≤ size || s.limit ≤ align

def block? (s : SystemHeap) (addr : Address) : Option SystemBlock :=
  s.blocks.find? (·.addr == addr)

/-- Whether a request is one for exactly a segment, whoever makes it. -/
def needsSlot (size align : Nat) : Bool := size == segmentBytes && align == maxSegmentAlign

def freeSlot? (s : SystemHeap) : Option Nat :=
  s.slots.find? fun slot => decide (slot < slotCount) && (s.block? (slotBase slot)).isNone

/-- How many bytes a block of some size has at an address. Slots come without spare bytes. -/
def extent (s : SystemHeap) (addr : Address) (size : Nat) : Nat :=
  if (slotOf? addr).isSome then size else size + s.spare addr size

/-- How many bytes of a block its holder may count on: all that the heap tells of, or as many as were
asked for where it tells nothing. -/
def promised (s : SystemHeap) (b : SystemBlock) : Nat :=
  if s.tellsSizes then s.extent b.addr b.size else b.size

def address? (s : SystemHeap) (size align : Nat) : Option Address :=
  if needsSlot size align then s.freeSlot?.map slotBase
  else
    let addr := Word.roundUp s.frontier (max align granule)
    if addr + s.extent addr size ≤ wordSize then some addr else none

/-- Memory with a new block in it, which is as the heap delivers it unless zeroes are asked for. -/
def delivered (s : SystemHeap) (addr : Address) (size : Nat) (zeroed : Bool) : Bytes :=
  s.bytes.write addr (s.extent addr size) fun i =>
    if zeroed && decide (i < size) then 0 else s.fresh (addr + i)

/-- Hands out a block of `size` bytes at a multiple of `align`. -/
def take? (s : SystemHeap) (size align : Nat) (zeroed : Bool) : Option (Address × SystemHeap) :=
  if s.refuses size align then none
  else
    (s.address? size align).map fun addr =>
      (addr,
        { s with
          blocks := ⟨addr, size, max align granule⟩ :: s.blocks
          frontier := max s.frontier (addr + s.extent addr size)
          bytes := s.delivered addr size zeroed })

theorem block?_take {s after : SystemHeap} {size align addr : Nat} {zeroed : Bool}
    (taken : s.take? size align zeroed = some (addr, after)) (other : Address) :
    after.block? other =
      if addr = other then some ⟨addr, size, max align granule⟩ else s.block? other := by
  unfold take? at taken
  split at taken
  · cases taken
  · obtain ⟨found, _, same⟩ := Option.map_eq_some_iff.1 taken
    cases same
    simp only [block?, List.find?_cons]
    split <;> simp_all

def takeSegment? (s : SystemHeap) : Option (Address × SystemHeap) :=
  s.take? segmentBytes maxSegmentAlign false

def release (s : SystemHeap) (addr : Address) : SystemHeap :=
  { s with
    blocks := s.blocks.filter (·.addr != addr)
    freed := if (slotOf? addr).isSome then s.freed else addr :: s.freed
    strayReturns := if (s.block? addr).isSome then s.strayReturns else s.strayReturns + 1 }

theorem block?_release {s : SystemHeap} {addr other : Address} :
    (s.release addr).block? other = if addr = other then none else s.block? other := by
  simp only [block?, release, List.find?_filter]
  split
  · rename_i same
    subst same
    simp
  · rename_i apart
    congr 1
    funext b
    by_cases here : b.addr = other
    · simp [here, Ne.symm apart]
    · simp [here]

/-- Whether a block can have another size where it is: its bytes are at a multiple of the alignment,
there is an end to them, and no other block has any of them. -/
def canStay (s : SystemHeap) (addr : Address) (size align : Nat) : Bool :=
  let stop := addr + s.extent addr size
  s.inPlace && (s.block? addr).isSome && decide (max align granule ∣ addr) &&
    decide (if (slotOf? addr).isSome then size ≤ segmentBytes else stop ≤ wordSize) &&
    s.blocks.all fun b =>
      b.addr == addr || decide (stop ≤ b.addr) || decide (b.addr + s.extent b.addr b.size ≤ addr)

/-- Where a block goes that is resized. -/
def newPlace? (s : SystemHeap) (addr : Address) (size align : Nat) : Option Address :=
  if s.canStay addr size align then some addr else s.address? size align

/-- Exchanges a block for one of another size whose common prefix has the same content. -/
def resize? (s : SystemHeap) (addr : Address) (size align : Nat) : Option (Address × SystemHeap) :=
  if s.refuses size align then none
  else
    (s.newPlace? addr size align).map fun place =>
      let kept := min (((s.block? addr).map s.promised).getD 0) size
      (place,
        { s with
          blocks := ⟨place, size, max align granule⟩ :: s.blocks.filter (·.addr != addr)
          frontier := max s.frontier (place + s.extent place size)
          strayReturns := if (s.block? addr).isSome then s.strayReturns else s.strayReturns + 1
          bytes := (s.delivered place size false).write place kept fun i => s.bytes (addr + i) })

/-- The size of a block as far as the heap can tell; zero if it cannot. -/
def usableSize (s : SystemHeap) (addr : Address) : Nat :=
  if s.tellsSizes then ((s.block? addr).map fun b => s.extent b.addr b.size).getD 0 else 0

/-- Serves a plain request. A request for nothing counts as one byte. -/
def allocate? (s : SystemHeap) (size align : Nat) (zeroed : Bool) : Option (Address × SystemHeap) :=
  s.take? (max size 1) align zeroed

/-- Resizes a block that was served by a plain request. -/
def reallocate? (s : SystemHeap) (addr : Address) (size : Nat) : Option (Address × SystemHeap) :=
  s.resize? addr (max size 1) granule

end SystemHeap

end PooledMemory
