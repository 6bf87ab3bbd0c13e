import PooledMemory.Heap.Resize

namespace PooledMemory

namespace SystemHeap

/-- The same heap on top of other content. -/
def upon (s : SystemHeap) (bytes : Bytes) : SystemHeap := { s with bytes }

/-- Two attempts to obtain memory with nothing but the content of memory different. -/
inductive Alike : Option (Address × SystemHeap) → Option (Address × SystemHeap) → Prop
  | none : Alike none none
  | some (addr : Address) (s : SystemHeap) (bytes : Bytes) :
    Alike (some (addr, s)) (some (addr, s.upon bytes))

variable (s : SystemHeap) (bytes : Bytes)

theorem take_alike (size align : Nat) (zeroed : Bool) :
    Alike (s.take? size align zeroed) ((s.upon bytes).take? size align zeroed) := by
  have place : (s.upon bytes).address? size align = s.address? size align := rfl
  have refuses : (s.upon bytes).refuses size align = s.refuses size align := rfl
  unfold take?
  rw [place, refuses]
  split
  · exact .none
  · cases s.address? size align with
    | none => exact .none
    | some addr => exact .some addr _ _

theorem resize_alike (addr size align : Nat) :
    Alike (s.resize? addr size align) ((s.upon bytes).resize? addr size align) := by
  have place : (s.upon bytes).newPlace? addr size align = s.newPlace? addr size align := rfl
  have refuses : (s.upon bytes).refuses size align = s.refuses size align := rfl
  unfold resize?
  rw [place, refuses]
  split
  · exact .none
  · cases s.newPlace? addr size align with
    | none => exact .none
    | some moved => exact .some moved _ _

theorem releaseEach_upon {α : Type} (key : α → Address) (blocks : List α) :
    blocks.foldl (fun system b => system.release (key b)) (s.upon bytes) =
      (blocks.foldl (fun system b => system.release (key b)) s).upon bytes := by
  induction blocks generalizing s with
  | nil => rfl
  | cons b rest ih => exact ih (s.release (key b))

end SystemHeap

/-- Two runs of a heap operation with nothing but the content of memory different. -/
inductive HeapStep.Alike {α : Type} :
    Except Fault (HeapStep α) → Except Fault (HeapStep α) → Prop
  | error (fault : Fault) : Alike (.error fault) (.error fault)
  | ok (answer : α) (heap : Heap) (system : SystemHeap) (bytes : Bytes) :
    Alike (.ok ⟨answer, heap, system⟩) (.ok ⟨answer, heap, system.upon bytes⟩)

namespace Heap

variable (h : Heap) (system : SystemHeap) (bytes : Bytes)

theorem carveFresh_alike (chunk align : Nat) :
    HeapStep.Alike (.ok (h.carveFresh system chunk align))
      (.ok (h.carveFresh (system.upon bytes) chunk align)) := by
  have taken := system.take_alike bytes segmentBytes maxSegmentAlign false
  unfold carveFresh SystemHeap.takeSegment?
  generalize system.take? segmentBytes maxSegmentAlign false = found at taken
  generalize (system.upon bytes).take? segmentBytes maxSegmentAlign false = found'
    at taken
  cases taken with
  | none => exact .ok none h system bytes
  | some base after bytes' =>
    simp only
    split
    · exact .ok none _ after bytes'
    · exact .ok _ _ after bytes'

theorem placeInSegment_alike (chunk align : Nat) :
    HeapStep.Alike (h.placeInSegment system chunk align)
      (h.placeInSegment (system.upon bytes) chunk align) := by
  unfold placeInSegment carveOrGrow
  split
  · exact .ok _ _ system bytes
  · split
    · exact .ok _ _ system bytes
    · split
      · exact .error _
      · split
        · exact .ok _ _ system bytes
        · exact carveFresh_alike _ system bytes chunk align

theorem placeInRegion_alike (chunk align : Nat) :
    HeapStep.Alike (.ok (h.placeInRegion system chunk align))
      (.ok (h.placeInRegion (system.upon bytes) chunk align)) := by
  have taken := system.take_alike bytes chunk align false
  unfold placeInRegion
  by_cases fits : layoutFits chunk align = true
  · rw [if_pos fits, if_pos fits]
    generalize system.take? chunk align false = found at taken
    generalize (system.upon bytes).take? chunk align false = found' at taken
    cases taken with
    | none => exact .ok none h system bytes
    | some addr after bytes' => exact .ok _ _ after bytes'
  · rw [if_neg fits, if_neg fits]
    exact .ok none h system bytes

theorem place_alike (chunk align : Nat) :
    HeapStep.Alike (h.place system chunk align) (h.place (system.upon bytes) chunk align) := by
  have source : HeapStep.Alike
      (if needsRegion chunk align then .ok (h.placeInRegion system chunk align)
        else h.placeInSegment system chunk align)
      (if needsRegion chunk align then .ok (h.placeInRegion (system.upon bytes) chunk align)
        else h.placeInSegment (system.upon bytes) chunk align) := by
    split
    · exact h.placeInRegion_alike system bytes chunk align
    · exact h.placeInSegment_alike system bytes chunk align
  unfold place
  simp only
  generalize (if needsRegion chunk align then .ok (h.placeInRegion system chunk align)
    else h.placeInSegment system chunk align) = found at source
  generalize (if needsRegion chunk align then .ok (h.placeInRegion (system.upon bytes) chunk align)
    else h.placeInSegment (system.upon bytes) chunk align) = found' at source
  cases source with
  | error fault => exact .error fault
  | ok answer heap after bytes' =>
    cases answer with
    | none => exact .ok none heap after bytes'
    | some addr => exact .ok (some addr) _ after bytes'

theorem allocate_alike (size align : Nat) :
    HeapStep.Alike (h.allocate system size align) (h.allocate (system.upon bytes) size align) := by
  unfold Heap.allocate
  split
  · exact .ok none h system bytes
  · split
    · exact .ok none h system bytes
    · split
      · exact h.place_alike system bytes _ _
      · exact .ok none h system bytes

theorem release_alike (addr : Address) :
    HeapStep.Alike (h.release system addr) (h.release (system.upon bytes) addr) := by
  unfold Heap.release
  split
  · exact .ok none h system bytes
  · simp only
    split
    · exact .ok _ _ (system.release _) bytes
    · split
      · exact .ok _ _ (poison system _ _) _
      · split
        · exact .error _
        · exact .ok _ _ (poison system _ _) _

theorem trim_alike : HeapStep.Alike (h.trim system) (h.trim (system.upon bytes)) := by
  unfold Heap.trim
  split
  · exact .error _
  · simp only [system.releaseEach_upon bytes Segment.base]
    exact .ok _ _ _ bytes

theorem releaseAll_upon :
    h.releaseAll (system.upon bytes) =
      ((h.releaseAll system).1, (h.releaseAll system).2.upon bytes) := by
  have regions : ∀ (blocks : List LiveBlock) (h : Heap) (system : SystemHeap),
      blocks.foldl (fun (acc : Heap × SystemHeap) b => acc.1.releaseRegion acc.2 b)
          (h, system.upon bytes) =
        ((blocks.foldl (fun (acc : Heap × SystemHeap) b => acc.1.releaseRegion acc.2 b)
            (h, system)).1,
          (blocks.foldl (fun (acc : Heap × SystemHeap) b => acc.1.releaseRegion acc.2 b)
            (h, system)).2.upon bytes) := by
    intro blocks
    induction blocks with
    | nil => exact fun h system => rfl
    | cons b rest ih =>
      intro h system
      have same : h.releaseRegion (system.upon bytes) b =
          ((h.releaseRegion system b).1, (h.releaseRegion system b).2.upon bytes) := rfl
      simp only [List.foldl_cons, same]
      exact ih (h.releaseRegion system b).1 (h.releaseRegion system b).2
  unfold Heap.releaseAll
  simp only [regions, SystemHeap.releaseEach_upon _ bytes Segment.base]

theorem resizeRegion_alike (b : LiveBlock) (chunk : Nat) :
    HeapStep.Alike (.ok (h.resizeRegion system b chunk))
      (.ok (h.resizeRegion (system.upon bytes) b chunk)) := by
  have resized := system.resize_alike bytes b.addr chunk b.align
  unfold resizeRegion
  by_cases fits : layoutFits chunk b.align = true
  · rw [if_pos fits, if_pos fits]
    generalize system.resize? b.addr chunk b.align = found at resized
    generalize (system.upon bytes).resize? b.addr chunk b.align = found' at resized
    cases resized with
    | none => exact .ok none h system bytes
    | some addr after bytes' => exact .ok _ _ after bytes'
  · rw [if_neg fits, if_neg fits]
    exact .ok none h system bytes

theorem growElsewhere_alike (b : LiveBlock) (chunk : Nat) :
    HeapStep.Alike (h.growElsewhere system b chunk)
      (h.growElsewhere (system.upon bytes) b chunk) := by
  have placed := h.place_alike system bytes chunk b.align
  unfold growElsewhere
  generalize h.place system chunk b.align = found at placed
  generalize h.place (system.upon bytes) chunk b.align = found' at placed
  cases placed with
  | error fault => exact .error fault
  | ok answer heap after bytes' =>
    cases answer with
    | none => exact .ok none heap after bytes'
    | some addr =>
      have copied : ({ after.upon bytes' with
          bytes := (after.upon bytes').bytes.copy b.addr addr b.size } : SystemHeap) =
          ({ after with bytes := after.bytes.copy b.addr addr b.size } : SystemHeap).upon
            (bytes'.copy b.addr addr b.size) := rfl
      have released := heap.release_alike { after with bytes := after.bytes.copy b.addr addr b.size }
        (bytes'.copy b.addr addr b.size) b.addr
      simp only [copied]
      generalize heap.release { after with bytes := after.bytes.copy b.addr addr b.size } b.addr =
        last at released
      generalize heap.release _ b.addr = last' at released
      cases released with
      | error fault => exact .error fault
      | ok answer heap after bytes' => exact .ok _ heap after bytes'

theorem resize_alike (addr : Address) (size : Nat) :
    HeapStep.Alike (h.resize system addr size) (h.resize (system.upon bytes) addr size) := by
  unfold Heap.resize
  split
  · split
    · exact .ok _ h system bytes
    split
    · exact .ok none h system bytes
    split
    · exact h.resizeRegion_alike system bytes _ _
    split
    · unfold shrink
      simp only
      split
      · exact .error _
      · exact .ok _ _ (poison system _ _) _
    · split
      · exact .ok _ _ system bytes
      · exact h.growElsewhere_alike system bytes _ _
  · exact .ok none h system bytes

end Heap

end PooledMemory
