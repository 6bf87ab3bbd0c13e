import PooledMemory.Heap.Basic

namespace PooledMemory.Heap

/-- Carves from the first segment that has room. -/
def carveFirst (chunk align : Nat) : List Segment → Option (Address × List Segment)
  | [] => none
  | s :: rest =>
    match if chunk ≤ s.freeBytes then s.carve chunk align else none with
    | some (addr, s) => some (addr, s :: rest)
    | none => (carveFirst chunk align rest).map fun (addr, rest) => (addr, s :: rest)

def carve (h : Heap) (chunk align : Nat) : Option (Address × Heap) :=
  (carveFirst chunk align h.segments).map fun (addr, segments) => (addr, { h with segments })

/-- Takes the chunk of exactly this size that was parked last. -/
def takeParked (h : Heap) (chunk : Nat) : Option (Address × Heap) :=
  (h.parked.find? (·.size == chunk)).map fun c =>
    (c.addr, { h with parked := h.parked.erase c })

/-- Takes in a segment, behind all that lie below it. -/
def insertSegment (h : Heap) (segment : Segment) : Heap :=
  let index := partitionPoint (fun s : Segment => decide (s.base < segment.base)) h.segments
  { h with segments := h.segments.insertIdx index segment }

/-- Obtains one more segment and carves the block out of it. -/
def carveFresh (h : Heap) (system : SystemHeap) (chunk align : Nat) : HeapStep (Option Address) :=
  match system.takeSegment? with
  | none => ⟨none, h, system⟩
  | some (base, system) =>
    let segment := Segment.fresh base segmentBytes
    match segment.carve chunk align with
    | none => ⟨none, h.insertSegment segment, system⟩
    | some (addr, segment) => ⟨some addr, h.insertSegment segment, system⟩

/-- Carves a block behind the parked chunks: all of them are moved back first if that helps,
and a new segment is the last resort. -/
def carveOrGrow (h : Heap) (system : SystemHeap) (chunk align : Nat) :
    Except Fault (HeapStep (Option Address)) :=
  match h.carve chunk align with
  | some (addr, h) => .ok ⟨some addr, h, system⟩
  | none =>
    match h.unpark with
    | .error fault => .error fault
    | .ok unparked =>
      match unparked.carve chunk align with
      | some (addr, h) => .ok ⟨some addr, h, system⟩
      | none => .ok (unparked.carveFresh system chunk align)

def placeInSegment (h : Heap) (system : SystemHeap) (chunk align : Nat) :
    Except Fault (HeapStep (Option Address)) :=
  match if align = granule then h.takeParked chunk else none with
  | some (addr, h) => .ok ⟨some addr, h, system⟩
  | none => h.carveOrGrow system chunk align

/-- Obtains a region that holds nothing but one block. -/
def placeInRegion (h : Heap) (system : SystemHeap) (chunk align : Nat) :
    HeapStep (Option Address) :=
  match if layoutFits chunk align then system.take? chunk align false else none with
  | none => ⟨none, h, system⟩
  | some (addr, system) =>
    ⟨some addr,
      { h with
        regions := Word.add h.regions 1
        regionBytes := Word.add h.regionBytes chunk },
      system⟩

/-- Serves a request of whole granules without a look at the budget. -/
def place (h : Heap) (system : SystemHeap) (chunk align : Nat) :
    Except Fault (HeapStep (Option Address)) :=
  let dedicated := needsRegion chunk align
  match
    if dedicated then .ok (h.placeInRegion system chunk align)
    else h.placeInSegment system chunk align with
  | .error fault => .error fault
  | .ok step =>
    match step.answer with
    | none => .ok step
    | some addr => .ok { step with heap := step.heap.addLive ⟨addr, chunk, align, dedicated⟩ }

/-- Serves a request of `size` bytes aligned to `align`, a power of two, if the budget and the
system heap allow it. -/
def allocate (h : Heap) (system : SystemHeap) (size align : Nat) :
    Except Fault (HeapStep (Option Address)) :=
  match chunkSize? size with
  | none => .ok ⟨none, h, system⟩
  | some chunk =>
    match Word.add? chunk blockOverhead with
    | none => .ok ⟨none, h, system⟩
    | some cost =>
      if h.fitsBudget cost then h.place system chunk (max align granule)
      else .ok ⟨none, h, system⟩

def releaseRegion (h : Heap) (system : SystemHeap) (b : LiveBlock) : Heap × SystemHeap :=
  ({ h with
      regions := Word.sub h.regions 1
      regionBytes := Word.sub h.regionBytes b.size },
    system.release b.addr)

/-- Overwrites released memory so that a use after the release shows up. -/
def poison (system : SystemHeap) (addr : Address) (length : Nat) : SystemHeap :=
  { system with bytes := system.bytes.fill addr length poisonByte }

/-- Releases the live block at an address and answers its size, or nothing if there is none. -/
def release (h : Heap) (system : SystemHeap) (addr : Address) :
    Except Fault (HeapStep (Option Nat)) :=
  match h.block? addr with
  | none => .ok ⟨none, h, system⟩
  | some b =>
    let h := h.removeLive b
    if b.dedicated then
      let (h, system) := h.releaseRegion system b
      .ok ⟨some b.size, h, system⟩
    else
      let system := poison system b.addr b.size
      if b.align = granule ∧ b.size ≤ maxParkedSize then
        .ok ⟨some b.size, { h with parked := ⟨b.addr, b.size⟩ :: h.parked }, system⟩
      else
        match h.returnRange b.addr b.size with
        | .error fault => .error fault
        | .ok h => .ok ⟨some b.size, h, system⟩

/-- Moves parked chunks back and returns all unused segments to the system heap. Answers the
number of bytes returned. -/
def trim (h : Heap) (system : SystemHeap) : Except Fault (HeapStep Nat) :=
  match h.unpark with
  | .error fault => .error fault
  | .ok h =>
    let unused := h.segments.filter (·.isUnused)
    .ok ⟨sumBy (·.length) unused,
      { h with segments := h.segments.filter (!·.isUnused) },
      unused.foldl (fun system s => system.release s.base) system⟩

/-- Returns all memory to the system heap, whatever still lives in it. -/
def releaseAll (h : Heap) (system : SystemHeap) : Heap × SystemHeap :=
  let (h, system) := (h.live.filter (·.dedicated)).foldl
    (fun (h, system) b => h.releaseRegion system b) (h, system)
  ({ h with live := [], parked := [], segments := [], allocated := 0 },
    h.segments.foldl (fun system s => system.release s.base) system)

end PooledMemory.Heap
