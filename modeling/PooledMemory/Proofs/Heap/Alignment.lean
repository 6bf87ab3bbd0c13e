import PooledMemory.Proofs.Heap.Balance
import PooledMemory.Proofs.Heap.Bins

namespace PooledMemory

/-- The padding in front of a block brings its address to a multiple of the alignment. -/
theorem FreeRange.padding?_aligned {r : FreeRange} {base chunk align padding : Nat}
    (fits : r.padding? base chunk align = some padding) : align ∣ base + (r.start + padding) := by
  unfold FreeRange.padding? at fits
  split at fits
  · cases fits
  rename_i start added
  split at fits
  · cases fits
  rename_i aligned rounded
  split at fits
  · cases fits
    have start' : base + r.start = start := by
      unfold Word.add? at added
      split at added
      · exact Option.some.inj added
      · cases added
    unfold Word.roundUp? at rounded
    split at rounded
    · rename_i positive
      have multiple := Word.dvd_roundUp (n := start) positive.1
      have behind := Word.le_roundUp start align
      cases rounded
      rwa [show base + (r.start + (Word.roundUp start align - start)) = Word.roundUp start align
        by omega]
    · cases rounded
  · cases fits

theorem FreeRange.carve_aligned {base chunk align offset : Nat} {ranges left : List FreeRange}
    (carved : FreeRange.carve base chunk align ranges = some (offset, left)) :
    align ∣ base + offset := by
  induction ranges generalizing left with
  | nil => cases carved
  | cons r rest ih =>
    simp only [FreeRange.carve] at carved
    split at carved
    · rename_i padding fits
      cases carved
      exact FreeRange.padding?_aligned fits
    · obtain ⟨⟨later, tail⟩, inner, same⟩ := Option.map_eq_some_iff.1 carved
      cases same
      exact ih inner

theorem Segment.carve_aligned {s after : Segment} {chunk align addr : Nat}
    (carved : s.carve chunk align = some (addr, after)) : align ∣ addr := by
  obtain ⟨⟨offset, left⟩, inner, same⟩ := Option.map_eq_some_iff.1 carved
  cases same
  exact FreeRange.carve_aligned inner

namespace SystemHeap

variable {s after : SystemHeap} {size align addr moved : Nat} {zeroed : Bool}

/-- Slots lie at multiples of their size, and all other blocks where the frontier is rounded to. -/
theorem address?_aligned (address : s.address? size align = some addr) :
    max align granule ∣ addr := by
  unfold address? at address
  split at address
  · rename_i exact'
    obtain ⟨slot, _, rfl⟩ := Option.map_eq_some_iff.1 address
    simp only [needsSlot, Bool.and_eq_true, beq_iff_eq] at exact'
    rw [exact'.2]
    exact Nat.dvd_mul_left_of_dvd (by decide : max maxSegmentAlign granule ∣ segmentBytes) _
  · simp only at address
    split at address
    · cases address
      exact Word.dvd_roundUp (Nat.lt_of_lt_of_le (by decide) (Nat.le_max_right align granule))
    · cases address

theorem take?_aligned (taken : s.take? size align zeroed = some (addr, after)) :
    max align granule ∣ addr := by
  unfold take? at taken
  split at taken
  · cases taken
  · obtain ⟨found, address, same⟩ := Option.map_eq_some_iff.1 taken
    cases same
    exact address?_aligned address

/-- A block stays only where it has the alignment that it is to have. -/
theorem resize?_aligned (resized : s.resize? addr size align = some (moved, after)) :
    max align granule ∣ moved := by
  unfold resize? at resized
  split at resized
  · cases resized
  · obtain ⟨place, found, same⟩ := Option.map_eq_some_iff.1 resized
    cases same
    unfold newPlace? at found
    split at found
    · rename_i stays
      cases found
      simp only [canStay, Bool.and_eq_true, decide_eq_true_eq] at stays
      exact stays.1.1.2
    · exact address?_aligned found

end SystemHeap

namespace Heap

variable {h after : Heap} {system : SystemHeap} {b : LiveBlock} {addr size chunk align : Nat}

theorem carveFirst_aligned {segments left : List Segment}
    (carved : carveFirst chunk align segments = some (addr, left)) : align ∣ addr := by
  induction segments generalizing left with
  | nil => cases carved
  | cons s rest ih =>
    simp only [carveFirst] at carved
    split at carved
    · rename_i found
      cases carved
      split at found
      · exact Segment.carve_aligned found
      · cases found
    · obtain ⟨⟨later, tail⟩, inner, same⟩ := Option.map_eq_some_iff.1 carved
      cases same
      exact ih inner

theorem carve_aligned (carved : h.carve chunk align = some (addr, after)) : align ∣ addr := by
  obtain ⟨⟨_, _⟩, found, same⟩ := Option.map_eq_some_iff.1 carved
  cases same
  exact carveFirst_aligned found

theorem carveFresh_aligned (answer : (h.carveFresh system chunk align).answer = some addr) :
    align ∣ addr := by
  unfold Heap.carveFresh at answer
  split at answer
  · cases answer
  · simp only at answer
    split at answer
    · cases answer
    · rename_i carved
      cases answer
      exact Segment.carve_aligned carved

/-- Live blocks lie at multiples of their alignments, and parked chunks could serve any request of
natural alignment. -/
structure Aligned (h : Heap) : Prop where
  live : ∀ b ∈ h.live, granule ≤ b.align ∧ b.align ∣ b.addr
  parked : ∀ c ∈ h.parked, granule ∣ c.addr

theorem empty_aligned (maxSize : Nat) : (empty maxSize).Aligned :=
  ⟨List.forall_mem_nil _, List.forall_mem_nil _⟩

theorem Aligned.mono (aligned : h.Aligned) (live : after.live ⊆ h.live)
    (parked : after.parked ⊆ h.parked) : after.Aligned :=
  ⟨fun b member => aligned.live b (live member), fun c member => aligned.parked c (parked member)⟩

/-- A parked chunk is only taken for natural alignment, and anything else is carved. -/
theorem Aligned.placeInSegment {step : HeapStep (Option Address)} (aligned : h.Aligned)
    (placed : h.placeInSegment system chunk align = .ok step) (answer : step.answer = some addr) :
    align ∣ addr := by
  unfold Heap.placeInSegment at placed
  split at placed
  · rename_i waiting
    cases placed
    cases answer
    split at waiting
    · rename_i natural
      obtain ⟨c, found, same⟩ := Option.map_eq_some_iff.1 waiting
      cases same
      rw [natural]
      exact aligned.parked c (List.mem_of_find?_eq_some found)
    · cases waiting
  unfold Heap.carveOrGrow at placed
  split at placed
  · rename_i carved
    cases placed
    cases answer
    exact carve_aligned carved
  split at placed
  · cases placed
  split at placed
  · rename_i carved
    cases placed
    cases answer
    exact carve_aligned carved
  · cases placed
    exact carveFresh_aligned answer

theorem placeInRegion_aligned (natural : granule ≤ align)
    (answer : (h.placeInRegion system chunk align).answer = some addr) : align ∣ addr := by
  unfold Heap.placeInRegion at answer
  split at answer
  · cases answer
  · rename_i taken
    cases answer
    split at taken
    · have multiple := SystemHeap.take?_aligned taken
      rwa [Nat.max_eq_left natural] at multiple
    · cases taken

theorem Aligned.place_answer {step : HeapStep (Option Address)} (aligned : h.Aligned)
    (natural : granule ≤ align) (placed : h.place system chunk align = .ok step)
    (answer : step.answer = some addr) : align ∣ addr := by
  unfold Heap.place at placed
  simp only at placed
  split at placed
  · cases placed
  rename_i source served
  have multiple : ∀ {start : Address}, source.answer = some start → align ∣ start := by
    intro start found
    split at served
    · cases served
      exact placeInRegion_aligned natural found
    · exact aligned.placeInSegment served found
  split at placed
  · rename_i nothing
    cases placed
    cases nothing.symm.trans answer
  · rename_i start found
    cases placed
    cases found.symm.trans answer
    exact multiple found

theorem Aligned.place {step : HeapStep (Option Address)} (aligned : h.Aligned)
    (natural : granule ≤ align) (placed : h.place system chunk align = .ok step) :
    step.heap.Aligned := by
  have positive : 0 < align := Nat.lt_of_lt_of_le (by decide) natural
  obtain ⟨before, _, obtains, _, refused, issued⟩ := place_enters positive placed
  have middle : before.Aligned :=
    aligned.mono (obtains.live ▸ List.Subset.refl _) obtains.parked
  cases answer : step.answer with
  | none =>
    rw [refused answer]
    exact middle
  | some addr =>
    have multiple := aligned.place_answer natural placed answer
    rw [issued addr answer, Heap.enter, countRegion]
    split
    · exact ⟨List.forall_mem_cons.2 ⟨⟨natural, multiple⟩, middle.live⟩, middle.parked⟩
    · exact ⟨List.forall_mem_cons.2 ⟨⟨natural, multiple⟩, middle.live⟩, middle.parked⟩

theorem Aligned.allocate_answer {step : HeapStep (Option Address)} (aligned : h.Aligned)
    (allocated : h.allocate system size align = .ok step) (answer : step.answer = some addr) :
    max align granule ∣ addr := by
  unfold Heap.allocate at allocated
  split at allocated
  · cases allocated
    cases answer
  split at allocated
  · cases allocated
    cases answer
  split at allocated
  · exact aligned.place_answer (Nat.le_max_right _ _) allocated answer
  · cases allocated
    cases answer

theorem Aligned.allocate {step : HeapStep (Option Address)} (aligned : h.Aligned)
    (allocated : h.allocate system size align = .ok step) : step.heap.Aligned := by
  unfold Heap.allocate at allocated
  split at allocated
  · cases allocated
    exact aligned
  split at allocated
  · cases allocated
    exact aligned
  split at allocated
  · exact aligned.place (Nat.le_max_right _ _) allocated
  · cases allocated
    exact aligned

/-- Only a block of natural alignment leaves a chunk behind. -/
theorem Aligned.release {step : HeapStep (Option Nat)} (aligned : h.Aligned)
    (released : h.release system addr = .ok step) : step.heap.Aligned := by
  unfold Heap.release at released
  split at released
  · cases released
    exact aligned
  rename_i b found
  have removed : (h.removeLive b).Aligned :=
    aligned.mono (List.filter_subset_self _) (List.Subset.refl _)
  simp only at released
  split at released
  · cases released
    exact ⟨removed.live, removed.parked⟩
  split at released
  · rename_i small
    cases released
    have multiple := (aligned.live b (block?_mem found).1).2
    rw [small.1] at multiple
    exact ⟨removed.live, List.forall_mem_cons.2 ⟨multiple, removed.parked⟩⟩
  split at released
  · cases released
  · rename_i returned
    cases released
    obtain ⟨segments, same, _⟩ := returnRange_eq returned
    rw [same]
    exact ⟨removed.live, removed.parked⟩

theorem Aligned.setSize (aligned : h.Aligned) (addr size : Nat) :
    (h.setSize addr size).Aligned := by
  unfold Heap.setSize
  split
  · exact ⟨aligned.live, aligned.parked⟩
  · refine ⟨fun c member => ?_, aligned.parked⟩
    obtain ⟨d, inLive, rfl⟩ := List.mem_map.1 member
    have before := aligned.live d inLive
    split
    · exact before
    · exact before

theorem Aligned.resizeRegion (aligned : h.Aligned) (live : b ∈ h.live) :
    (h.resizeRegion system b chunk).heap.Aligned := by
  have natural := (aligned.live b live).1
  unfold Heap.resizeRegion
  split
  · exact aligned
  · rename_i moved _ exchanged
    split at exchanged
    · have multiple := SystemHeap.resize?_aligned exchanged
      rw [Nat.max_eq_left natural] at multiple
      exact ⟨List.forall_mem_cons.2 ⟨⟨natural, multiple⟩,
        fun c member => aligned.live c (List.mem_of_mem_filter member)⟩, aligned.parked⟩
    · cases exchanged

/-- A block keeps its alignment wherever it is resized to. -/
theorem Aligned.resize {step : HeapStep (Option Resized)} (aligned : h.Aligned)
    (resized : h.resize system addr size = .ok step) : step.heap.Aligned := by
  obtain same | ⟨b, chunk, found, _, refits⟩ := resize_refits resized
  · rw [same]
    exact aligned
  have live := (block?_mem found).1
  generalize step.heap = after at refits
  cases refits with
  | region _ => exact aligned.resizeRegion live
  | @settled segments _ _ =>
    have moved : ({ h with segments } : Heap).Aligned := ⟨aligned.live, aligned.parked⟩
    exact moved.setSize b.addr chunk
  | elsewhere grown =>
    obtain ⟨place, placed, outcome⟩ := growElsewhere_eq grown
    have middle := aligned.place (aligned.live b live).1 placed
    rcases outcome with same | ⟨_, released, gone, same⟩
    · rw [same]
      exact middle
    · rw [same]
      exact middle.release gone

theorem Aligned.trim {step : HeapStep Nat} (aligned : h.Aligned)
    (trimmed : h.trim system = .ok step) : step.heap.Aligned := by
  have emptied := trim_parked trimmed
  unfold Heap.trim at trimmed
  split at trimmed
  · cases trimmed
  · rename_i unparked returned
    cases trimmed
    obtain ⟨segments, rfl, _⟩ := unpark_eq returned
    exact ⟨aligned.live, List.forall_mem_nil _⟩

theorem releaseAll_aligned (h : Heap) (system : SystemHeap) : (h.releaseAll system).1.Aligned := by
  unfold Heap.releaseAll
  exact ⟨List.forall_mem_nil _, List.forall_mem_nil _⟩

end Heap

end PooledMemory
