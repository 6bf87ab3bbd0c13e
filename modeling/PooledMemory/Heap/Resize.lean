import PooledMemory.Heap.Placement

namespace PooledMemory

/-- Where a resized block is. -/
structure Resized where
  addr : Address
  moved : Bool
  deriving DecidableEq, Repr

namespace Heap

def setSize (h : Heap) (addr : Address) (size : Nat) : Heap :=
  match h.block? addr with
  | none => { h with peak := max h.peak h.footprint }
  | some b =>
    let h :=
      { h with
        live := h.live.map fun (other : LiveBlock) =>
          if other.addr = addr then { other with size } else other
        allocated := Word.add (Word.sub h.allocated b.size) size }
    { h with peak := max h.peak h.footprint }

/-- Exchanges the region of a block for one of another size. -/
def resizeRegion (h : Heap) (system : SystemHeap) (b : LiveBlock) (chunk : Nat) :
    HeapStep (Option Resized) :=
  match if layoutFits chunk b.align then system.resize? b.addr chunk b.align else none with
  | none => ⟨none, h, system⟩
  | some (addr, system) =>
    let h :=
      { h with
        live := { b with addr, size := chunk } :: h.live.filter (·.addr != b.addr)
        allocated := Word.add (Word.sub h.allocated b.size) chunk
        regionBytes := Word.add (Word.sub h.regionBytes b.size) chunk }
    ⟨some ⟨addr, addr != b.addr⟩, { h with peak := max h.peak h.footprint }, system⟩

/-- Gives up the tail of a block in a segment. -/
def shrink (h : Heap) (system : SystemHeap) (b : LiveBlock) (chunk : Nat) :
    Except Fault (HeapStep (Option Resized)) :=
  let surplus := b.size - chunk
  match h.returnRange (b.addr + chunk) surplus with
  | .error fault => .error fault
  | .ok h => .ok ⟨some ⟨b.addr, false⟩, h.setSize b.addr chunk, poison system (b.addr + chunk) surplus⟩

/-- Extends a block in a segment over the free bytes behind it. -/
def growInPlace (h : Heap) (b : LiveBlock) (chunk : Nat) : Option Heap :=
  match h.segmentIndex? b.addr with
  | none => none
  | some i =>
    match h.segments[i]? with
    | none => none
    | some s =>
      (s.extend (b.addr - s.base) b.size chunk).map fun s =>
        { h with segments := h.segments.set i s }.setSize b.addr chunk

def growElsewhere (h : Heap) (system : SystemHeap) (b : LiveBlock) (chunk : Nat) :
    Except Fault (HeapStep (Option Resized)) :=
  match h.place system chunk b.align with
  | .error fault => .error fault
  | .ok step =>
    match step.answer with
    | none => .ok ⟨none, step.heap, step.system⟩
    | some addr =>
      let system := { step.system with bytes := step.system.bytes.copy b.addr addr b.size }
      match step.heap.release system b.addr with
      | .error fault => .error fault
      | .ok step => .ok ⟨some ⟨addr, true⟩, step.heap, step.system⟩

/-- Resizes the live block at an address, in place where possible. There is no answer if no live
block starts there, or if the budget or the system heap does not allow the new size. -/
def resize (h : Heap) (system : SystemHeap) (addr : Address) (size : Nat) :
    Except Fault (HeapStep (Option Resized)) :=
  match h.block? addr, chunkSize? size with
  | some b, some chunk =>
    if chunk = b.size then .ok ⟨some ⟨addr, false⟩, h, system⟩
    else if b.size < chunk ∧ ¬ h.fitsBudget (chunk - b.size) then .ok ⟨none, h, system⟩
    else if b.dedicated then .ok (h.resizeRegion system b chunk)
    else if chunk < b.size then h.shrink system b chunk
    else
      match h.growInPlace b chunk with
      | some h => .ok ⟨some ⟨addr, false⟩, h, system⟩
      | none => h.growElsewhere system b chunk
  | _, _ => .ok ⟨none, h, system⟩

end Heap

end PooledMemory
