import PooledMemory.Proofs.Heap.Content

namespace PooledMemory

namespace SystemHeap

/-- More is handed out, and nothing else about the system heap is different but the content of
memory. -/
def Lends (s t : SystemHeap) : Prop :=
  t = { s with blocks := t.blocks, frontier := t.frontier, bytes := t.bytes }

variable {s t after : SystemHeap} {b : SystemBlock} {addr size align moved : Nat} {zeroed : Bool}

theorem Lends.refl (s : SystemHeap) : s.Lends s := rfl

theorem Lends.strays (lends : s.Lends t) : t.strayReturns = s.strayReturns := by
  rw [lends]

theorem Lends.tellsSizes (lends : s.Lends t) : t.tellsSizes = s.tellsSizes := by
  rw [lends]

theorem Lends.extent (lends : s.Lends t) : t.extent = s.extent := by
  rw [lends]
  rfl

theorem Lends.reach (lends : s.Lends t) : t.reach = s.reach := reach_of_spare (by rw [lends])

theorem Lends.withBytes (lends : s.Lends t) (bytes : Bytes) : s.Lends { t with bytes } := by
  rw [lends]
  rfl

theorem take_lends (taken : s.take? size align zeroed = some (addr, after)) : s.Lends after := by
  unfold take? at taken
  split at taken
  · cases taken
  · obtain ⟨_, _, same⟩ := Option.map_eq_some_iff.1 taken
    cases same
    rfl

theorem Sound.release_strays (sound : s.Sound) (member : b ∈ s.blocks) :
    (s.release b.addr).strayReturns = s.strayReturns := by
  have found := sound.block?_eq member
  simp only [SystemHeap.release, found, Option.isSome_some, if_true]

/-- Blocks that were handed out are returned one by one, each of them once. -/
theorem Sound.releaseEach_strays {blocks rest : List SystemBlock} (sound : s.Sound)
    (perm : s.blocks.Perm (blocks ++ rest)) :
    (blocks.foldl (fun system b => system.release b.addr) s).strayReturns = s.strayReturns := by
  induction blocks generalizing s with
  | nil => rfl
  | cons b others ih =>
    have member : b ∈ s.blocks := perm.mem_iff.2 (List.mem_cons_self ..)
    have first := sound.release_strays member
    have others := ih (sound.release b.addr) (sound.filter_perm perm)
    exact others.trans first

theorem Sound.resize_strays (sound : s.Sound) (member : b ∈ s.blocks)
    (resized : s.resize? b.addr size align = some (moved, after)) :
    after.strayReturns = s.strayReturns := by
  have found := sound.block?_eq member
  unfold resize? at resized
  split at resized
  · cases resized
  · obtain ⟨_, _, same⟩ := Option.map_eq_some_iff.1 resized
    cases same
    simp only [found, Option.isSome_some, if_true]

end SystemHeap

namespace Heap

variable {h : Heap} {system : SystemHeap} {rest : List SystemBlock} {hole : List Span}

theorem carveFresh_lends (chunk align : Nat) :
    system.Lends (h.carveFresh system chunk align).system := by
  unfold Heap.carveFresh
  cases taken : system.takeSegment? with
  | none => exact .refl system
  | some found =>
    obtain ⟨base, after⟩ := found
    have lends : system.Lends after := SystemHeap.take_lends taken
    cases carved : (Segment.fresh base segmentBytes).carve chunk align with
    | none =>
      simp only [carved]
      exact lends
    | some result =>
      simp only [carved]
      exact lends

theorem placeInSegment_lends {chunk align : Nat} {step : HeapStep (Option Address)}
    (placed : h.placeInSegment system chunk align = .ok step) : system.Lends step.system := by
  unfold placeInSegment at placed
  split at placed
  · cases placed
    exact .refl system
  · unfold carveOrGrow at placed
    split at placed
    · cases placed
      exact .refl system
    · split at placed
      · cases placed
      · split at placed
        · cases placed
          exact .refl system
        · cases placed
          exact carveFresh_lends chunk align

theorem placeInRegion_lends (chunk align : Nat) :
    system.Lends (h.placeInRegion system chunk align).system := by
  unfold placeInRegion
  split
  · exact .refl system
  · rename_i taken
    split at taken
    · exact SystemHeap.take_lends taken
    · cases taken

theorem place_lends {chunk align : Nat} {step : HeapStep (Option Address)}
    (placed : h.place system chunk align = .ok step) : system.Lends step.system := by
  have source : ∀ step', (if needsRegion chunk align then .ok (h.placeInRegion system chunk align)
      else h.placeInSegment system chunk align) = Except.ok step' → system.Lends step'.system := by
    intro step' served
    split at served
    · cases served
      exact placeInRegion_lends chunk align
    · exact placeInSegment_lends served
  unfold Heap.place at placed
  simp only at placed
  split at placed
  · cases placed
  · rename_i step' served
    have lends := source step' served
    split at placed
    · cases placed
      exact lends
    · cases placed
      exact lends

theorem allocate_lends {size align : Nat} {step : HeapStep (Option Address)}
    (allocated : h.allocate system size align = .ok step) : system.Lends step.system := by
  unfold Heap.allocate at allocated
  split at allocated
  · cases allocated
    exact .refl system
  · split at allocated
    · cases allocated
      exact .refl system
    · split at allocated
      · exact place_lends allocated
      · cases allocated
        exact .refl system

/-- A released block goes back to the system heap if it has a region of its own. If not, it is
overwritten and stays with the pool. -/
theorem release_system {addr : Address} {b : LiveBlock} {step : HeapStep (Option Nat)}
    (found : h.block? addr = some b) (released : h.release system addr = .ok step) :
    step.system = if b.dedicated then system.release b.addr else poison system b.addr b.size := by
  unfold Heap.release at released
  simp only [found] at released
  split at released
  · rename_i own
    cases released
    rw [if_pos own]
    rfl
  · rename_i placed
    rw [if_neg placed]
    split at released
    · cases released
      rfl
    · split at released
      · cases released
      · cases released
        rfl

theorem Sound.release_strays {addr : Address} {step : HeapStep (Option Nat)}
    (sound : h.Sound system rest hole) (released : h.release system addr = .ok step) :
    step.system.strayReturns = system.strayReturns := by
  cases found : h.block? addr with
  | none =>
    rw [release_of_none found] at released
    cases released
    rfl
  | some b =>
    rw [release_system found released]
    split
    · rename_i own
      exact sound.below.release_strays (sound.region_mem (block?_mem found).1 own)
    · rfl

theorem returnRange_frames {after : Heap} {addr length : Nat}
    (returned : h.returnRange addr length = .ok after) :
    after.segments.map (·.frame) = h.segments.map (·.frame) := by
  unfold returnRange at returned
  split at returned
  · cases returned
  · split at returned
    · cases returned
    · rename_i s found
      unfold Segment.giveBack at returned
      split at returned
      · rename_i given
        split at given
        · cases given
        · split at given
          · cases given
            cases returned
            exact Segment.frames_set found rfl
          · cases given
      · cases returned

/-- A released block leaves all segments where they are. -/
theorem release_frames {addr : Address} {step : HeapStep (Option Nat)}
    (released : h.release system addr = .ok step) :
    step.heap.segments.map (·.frame) = h.segments.map (·.frame) := by
  unfold Heap.release at released
  split at released
  · cases released
    rfl
  · simp only at released
    split at released
    · cases released
      rfl
    · split at released
      · cases released
        rfl
      · split at released
        · cases released
        · rename_i returned
          have frames := returnRange_frames returned
          cases released
          exact frames

/-- Regions go back to the system heap before segments. -/
theorem releaseAll_system (h : Heap) (system : SystemHeap) :
    (h.releaseAll system).2 =
      (LiveBlock.regions h.live ++ (h.segments.map (·.frame)).map (·.segmentBlock)).foldl
        (fun system b => system.release b.addr) system := by
  obtain ⟨regions, regionBytes, folded⟩ :=
    foldl_releaseRegion h system (h.live.filter (·.dedicated))
  unfold Heap.releaseAll
  rw [folded, List.foldl_append, List.map_map]
  exact (List.foldl_map (f := fun s : Segment => s.frame.segmentBlock)
    (g := fun (system : SystemHeap) b => system.release b.addr)).symm

theorem Sound.releaseAll_strays (sound : h.Sound system rest hole) :
    (h.releaseAll system).2.strayReturns = system.strayReturns := by
  rw [releaseAll_system]
  have order : system.blocks.Perm ((LiveBlock.regions h.live ++
      (h.segments.map (·.frame)).map (·.segmentBlock)) ++ rest) :=
    sound.held.trans (List.perm_append_comm.append_right rest)
  exact sound.below.releaseEach_strays order

theorem Sound.trim_strays {step : HeapStep Nat} (sound : h.Sound system rest hole)
    (trimmed : h.trim system = .ok step) : step.system.strayReturns = system.strayReturns := by
  obtain ⟨unparked, returned, _, _, soundUnparked⟩ := sound.unpark
  have strays := soundUnparked.below.releaseEach_strays soundUnparked.unused_perm
  rw [List.foldl_map] at strays
  unfold Heap.trim at trimmed
  simp only [returned] at trimmed
  cases trimmed
  exact strays

theorem Sound.resizeRegion_strays {b : LiveBlock} (sound : h.Sound system rest hole)
    (member : b ∈ h.live) (own : b.dedicated = true) (chunk : Nat) :
    (h.resizeRegion system b chunk).system.strayReturns = system.strayReturns := by
  unfold Heap.resizeRegion
  split
  · rfl
  · rename_i resized
    split at resized
    · exact sound.below.resize_strays (sound.region_mem member own) resized
    · cases resized

theorem Sound.growElsewhere_strays {b : LiveBlock} {chunk : Nat} {step : HeapStep (Option Resized)}
    (sound : h.Sound system rest hole) (member : b ∈ h.live) (filled : 0 < chunk)
    (grown : h.growElsewhere system b chunk = .ok step) :
    step.system.strayReturns = system.strayReturns := by
  obtain ⟨place, placed, soundPlaced, _⟩ := sound.place filled (sound.aligned b member)
  have strays := (place_lends placed).strays
  unfold Heap.growElsewhere at grown
  simp only [placed] at grown
  cases answer : place.answer with
  | none =>
    simp only [answer] at grown
    cases grown
    exact strays
  | some addr =>
    have copied := soundPlaced.withBytes (place.system.bytes.copy b.addr addr b.size)
    simp only [answer] at grown
    split at grown
    · cases grown
    · rename_i last released
      cases grown
      exact (copied.release_strays released).trans strays

theorem Sound.resize_strays {addr size : Nat} {step : HeapStep (Option Resized)}
    (sound : h.Sound system rest hole) (resized : h.resize system addr size = .ok step) :
    step.system.strayReturns = system.strayReturns := by
  unfold Heap.resize at resized
  split at resized
  · rename_i b chunk found rounded
    obtain ⟨member, rfl⟩ := block?_mem found
    split at resized
    · cases resized
      rfl
    split at resized
    · cases resized
      rfl
    split at resized
    · rename_i own
      cases resized
      exact sound.resizeRegion_strays member own chunk
    split at resized
    · unfold Heap.shrink at resized
      simp only at resized
      split at resized
      · cases resized
      · cases resized
        rfl
    split at resized
    · cases resized
      rfl
    · exact sound.growElsewhere_strays member (chunkSize?_pos rounded) resized
  · cases resized
    rfl

end Heap

end PooledMemory
