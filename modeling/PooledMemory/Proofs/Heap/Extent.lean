import PooledMemory.Proofs.Heap.Returns

namespace PooledMemory

namespace SystemHeap

theorem takeSegment?_slot {s after : SystemHeap} {base : Address}
    (taken : s.takeSegment? = some (base, after)) : ∃ slot < slotCount, base = slotBase slot := by
  unfold takeSegment? take? at taken
  split at taken
  · cases taken
  · obtain ⟨addr, found, same⟩ := Option.map_eq_some_iff.1 taken
    cases same
    have exact' : needsSlot segmentBytes maxSegmentAlign = true := rfl
    rw [address?, if_pos exact'] at found
    obtain ⟨slot, free, rfl⟩ := Option.map_eq_some_iff.1 found
    have usable := List.find?_some free
    simp only [Bool.and_eq_true, decide_eq_true_eq] at usable
    exact ⟨slot, usable.1, rfl⟩

/-- Segments come from the slots, which end below all other blocks. -/
theorem takeSegment?_low {s after : SystemHeap} {base : Address}
    (taken : s.takeSegment? = some (base, after)) : base + segmentBytes ≤ firstBlock := by
  obtain ⟨slot, bound, rfl⟩ := takeSegment?_slot taken
  exact slot_low bound

theorem takeSegment?_aligned {s after : SystemHeap} {base : Address}
    (taken : s.takeSegment? = some (base, after)) : maxSegmentAlign ∣ base := by
  obtain ⟨slot, _, rfl⟩ := takeSegment?_slot taken
  exact Nat.dvd_trans (by decide) (Nat.dvd_mul_left segmentBytes (slot + 1))

end SystemHeap

/-- A new segment has room for every block that does not need a region of its own. -/
theorem Segment.fresh_carve {base chunk align : Nat}
    (low : base + segmentBytes ≤ SystemHeap.firstBlock) (positive : 0 < align)
    (placed : Heap.needsRegion chunk align = false) :
    ∃ addr t, (fresh base segmentBytes).carve chunk align = some (addr, t) := by
  simp only [Heap.needsRegion, Bool.or_eq_false_iff, decide_eq_false_iff_not, Nat.not_le,
    Nat.not_lt] at placed
  obtain ⟨small, aligned⟩ := placed
  have above := Word.le_roundUp base align
  have below := Word.roundUp_lt (n := base) positive
  have word : base + segmentBytes + maxSegmentAlign ≤ wordSize :=
    Nat.le_trans (Nat.add_le_add_right low _) (by decide)
  have room : maxSegmentAlign + largeThreshold ≤ segmentBytes := by decide
  have start : Word.add? base 0 = some base := if_pos (by omega)
  have rounded : Word.roundUp? base align = some (Word.roundUp base align) :=
    if_pos ⟨positive, by omega⟩
  have fits : Word.roundUp base align - base + chunk ≤ segmentBytes := by omega
  have padding : (⟨0, segmentBytes⟩ : FreeRange).padding? base chunk align =
      some (Word.roundUp base align - base) := by
    simp only [FreeRange.padding?, start, rounded, if_pos fits]
  unfold carve
  simp only [fresh, FreeRange.carve, padding]
  exact ⟨_, _, rfl⟩

namespace Heap

variable {h middle after : Heap} {system : SystemHeap} {rest : List SystemBlock} {hole : List Span}
  {fresh : List Span} {chunk align addr : Nat}

theorem carveFirst_frames {segments carved : List Segment}
    (found : carveFirst chunk align segments = some (addr, carved)) :
    carved.map (·.frame) = segments.map (·.frame) := by
  induction segments generalizing carved with
  | nil => cases found
  | cons s others ih =>
    simp only [carveFirst] at found
    split at found
    · rename_i taken
      cases found
      split at taken
      · obtain ⟨_, _, same⟩ := Option.map_eq_some_iff.1 taken
        cases same
        rfl
      · cases taken
    · obtain ⟨⟨_, tail⟩, later, same⟩ := Option.map_eq_some_iff.1 found
      cases same
      exact congrArg (s.frame :: ·) (ih later)

theorem carve_frames (carved : h.carve chunk align = some (addr, after)) :
    after.segments.map (·.frame) = h.segments.map (·.frame) := by
  obtain ⟨⟨_, segments⟩, found, same⟩ := Option.map_eq_some_iff.1 carved
  cases same
  exact carveFirst_frames found

/-- Bytes that are returned to a segment change nothing but what is free in it. -/
theorem returnRange_eq {length : Nat} (returned : h.returnRange addr length = .ok after) :
    ∃ segments, after = { h with segments } ∧
      segments.map (·.frame) = h.segments.map (·.frame) := by
  have frames := returnRange_frames returned
  unfold returnRange at returned
  split at returned
  · cases returned
  · split at returned
    · cases returned
    · split at returned
      · cases returned
        exact ⟨_, rfl, frames⟩
      · cases returned

theorem returnChunks_eq {chunks : List ParkedChunk} (returned : h.returnChunks chunks = .ok after) :
    ∃ segments, after = { h with segments } ∧
      segments.map (·.frame) = h.segments.map (·.frame) := by
  induction chunks generalizing h with
  | nil =>
    cases returned
    exact ⟨_, rfl, rfl⟩
  | cons c others ih =>
    unfold returnChunks at returned
    split at returned
    · rename_i first
      obtain ⟨between, rfl, frames⟩ := returnRange_eq first
      obtain ⟨segments, rfl, frames'⟩ := ih returned
      exact ⟨segments, rfl, frames'.trans frames⟩
    · cases returned

theorem unpark_eq (unparked : h.unpark = .ok after) :
    ∃ segments, after = { h with segments, parked := [] } ∧
      segments.map (·.frame) = h.segments.map (·.frame) :=
  returnChunks_eq unparked

theorem unpark_frames (unparked : h.unpark = .ok after) :
    after.segments.map (·.frame) = h.segments.map (·.frame) := by
  obtain ⟨segments, rfl, frames⟩ := unpark_eq unparked
  exact frames

/-- Bisection never leaves the bounds that it starts from. -/
theorem bisect_le {α : Type} {p : α → Bool} {xs : List α} {steps low high : Nat} (le : low ≤ high) :
    bisect p xs steps low high ≤ high := by
  induction steps generalizing low high with
  | zero => exact le
  | succ steps ih =>
    simp only [bisect]
    split
    · split
      · exact le
      · split
        · exact ih (by omega)
        · exact Nat.le_trans (ih (by omega)) (by omega)
    · exact le

/-- Memory has been found for a block: the blocks in use are the same, chunks have only gone from
the parked ones, and the segments in `fresh` are new. -/
structure Obtains (h after : Heap) (fresh : List Span) : Prop where
  live : after.live = h.live
  regions : after.regions = h.regions
  regionBytes : after.regionBytes = h.regionBytes
  parked : after.parked ⊆ h.parked
  frames : (after.segments.map (·.frame)).Perm (fresh ++ h.segments.map (·.frame))
  low : ∀ f ∈ fresh, f.stop ≤ SystemHeap.firstBlock

theorem Obtains.count (obtains : Obtains h after fresh) :
    after.segments.length = fresh.length + h.segments.length := by
  have lengths := obtains.frames.length_eq
  rwa [List.length_append, List.length_map, List.length_map] at lengths

/-- Memory that the heap holds already is put to another use. -/
theorem obtains_nothing {segments : List Segment} {parked : List ParkedChunk}
    (frames : segments.map (·.frame) = h.segments.map (·.frame)) (fewer : parked ⊆ h.parked) :
    Obtains h { h with segments, parked } [] :=
  ⟨rfl, rfl, rfl, fewer, .of_eq frames, List.forall_mem_nil _⟩

theorem Obtains.refl (h : Heap) : Obtains h h [] := obtains_nothing rfl (List.Subset.refl _)

theorem Obtains.after_nil (first : Obtains h middle []) (second : Obtains middle after fresh) :
    Obtains h after fresh where
  live := second.live.trans first.live
  regions := second.regions.trans first.regions
  regionBytes := second.regionBytes.trans first.regionBytes
  parked := List.Subset.trans second.parked first.parked
  frames := second.frames.trans (first.frames.append_left fresh)
  low := second.low

theorem carve_obtains (carved : h.carve chunk align = some (addr, after)) :
    Obtains h after [] := by
  obtain ⟨⟨_, segments⟩, found, same⟩ := Option.map_eq_some_iff.1 carved
  cases same
  exact obtains_nothing (carveFirst_frames found) (List.Subset.refl _)

/-- A source of memory that refuses has obtained nothing from the system heap, and one that answers
at most one segment. -/
def Frugal (fresh : List Span) (answer : Option Address) : Prop :=
  fresh.length ≤ answer.toList.length

theorem carveFresh_obtains (h : Heap) (system : SystemHeap) (positive : 0 < align)
    (placed : needsRegion chunk align = false) :
    ∃ fresh, Obtains h (h.carveFresh system chunk align).heap fresh ∧
      Frugal fresh (h.carveFresh system chunk align).answer := by
  unfold Heap.carveFresh
  cases taken : system.takeSegment? with
  | none => exact ⟨[], .refl h, Nat.le_refl _⟩
  | some found =>
    obtain ⟨base, below⟩ := found
    have low := SystemHeap.takeSegment?_low taken
    obtain ⟨addr, t, carved⟩ := Segment.fresh_carve low positive placed
    have frame : t.frame = ⟨base, segmentBytes⟩ := by
      obtain ⟨_, _, same⟩ := Option.map_eq_some_iff.1 carved
      cases same
      rfl
    simp only [carved]
    refine ⟨[t.frame], ⟨rfl, rfl, rfl, List.Subset.refl _, ?_, List.forall_mem_singleton.2 ?_⟩,
      Nat.le_refl _⟩
    · exact (List.perm_insertIdx t h.segments (bisect_le (Nat.zero_le _))).map (·.frame)
    · rw [frame]
      exact low

theorem placeInSegment_obtains {step : HeapStep (Option Address)} (positive : 0 < align)
    (placed : needsRegion chunk align = false)
    (served : h.placeInSegment system chunk align = .ok step) :
    ∃ fresh, Obtains h step.heap fresh ∧ Frugal fresh step.answer := by
  have direct : ∀ {after : Heap} {addr : Address}, Obtains h after [] →
      ∃ fresh, Obtains h after fresh ∧ Frugal fresh (some addr) :=
    fun obtains => ⟨[], obtains, Nat.zero_le _⟩
  unfold Heap.placeInSegment at served
  split at served
  · rename_i waiting
    cases served
    split at waiting
    · obtain ⟨c, _, same⟩ := Option.map_eq_some_iff.1 waiting
      cases same
      exact direct (obtains_nothing rfl List.erase_subset)
    · cases waiting
  · unfold carveOrGrow at served
    split at served
    · rename_i carved
      cases served
      exact direct (carve_obtains carved)
    · split at served
      · cases served
      · rename_i unparked
        obtain ⟨segments, rfl, frames⟩ := unpark_eq unparked
        have emptied := obtains_nothing frames (List.nil_subset h.parked)
        split at served
        · rename_i carved
          cases served
          exact direct (emptied.after_nil (carve_obtains carved))
        · cases served
          obtain ⟨fresh, obtains, frugal⟩ := carveFresh_obtains _ system positive placed
          exact ⟨fresh, emptied.after_nil obtains, frugal⟩

/-- Counts the region of a dedicated block. -/
def countRegion (h : Heap) (b : LiveBlock) : Heap :=
  if b.dedicated then
    { h with regions := Word.add h.regions 1, regionBytes := Word.add h.regionBytes b.size }
  else h

/-- Makes a block live that memory has been obtained for. -/
def enter (h : Heap) (b : LiveBlock) : Heap := (h.countRegion b).addLive b

theorem segments_enter (h : Heap) (b : LiveBlock) : (h.enter b).segments = h.segments := by
  unfold enter countRegion
  split <;> rfl

/-- Memory has been obtained for a request, and if there is an answer, the block is entered. -/
def Enters (into : Heap → LiveBlock → Heap) (h : Heap) (chunk align : Nat)
    (step : HeapStep (Option Address)) : Prop :=
  ∃ before fresh, Obtains h before fresh ∧ Frugal fresh step.answer ∧
    (step.answer = none → step.heap = before) ∧
    ∀ addr, step.answer = some addr →
      step.heap = into before ⟨addr, chunk, align, needsRegion chunk align⟩

theorem Enters.count {step : HeapStep (Option Address)} (enters : Enters enter h chunk align step) :
    h.segments.length ≤ step.heap.segments.length := by
  obtain ⟨before, fresh, obtains, _, refused, issued⟩ := enters
  have count := obtains.count
  cases answer : step.answer with
  | none =>
    rw [refused answer]
    omega
  | some addr =>
    rw [issued addr answer, segments_enter]
    omega

theorem placeInRegion_enters (own : needsRegion chunk align = true) :
    Enters countRegion h chunk align (h.placeInRegion system chunk align) := by
  unfold Heap.placeInRegion
  split
  · exact ⟨h, [], .refl h, Nat.le_refl _, fun _ => rfl, nofun⟩
  · refine ⟨h, [], .refl h, Nat.zero_le _, nofun, fun addr answer => ?_⟩
    cases answer
    rw [own]
    rfl

theorem place_enters {step : HeapStep (Option Address)} (positive : 0 < align)
    (placed : h.place system chunk align = .ok step) :
    Enters enter h chunk align step := by
  unfold Heap.place at placed
  simp only at placed
  split at placed
  · cases placed
  · rename_i source served
    have entered : Enters countRegion h chunk align source := by
      split at served
      · rename_i own
        cases served
        exact placeInRegion_enters own
      · rename_i kind
        have inSegment : needsRegion chunk align = false := by simpa using kind
        obtain ⟨fresh, obtains, frugal⟩ := placeInSegment_obtains positive inSegment served
        refine ⟨source.heap, fresh, obtains, frugal, fun _ => rfl, fun _ _ => ?_⟩
        rw [inSegment]
        rfl
    obtain ⟨before, fresh, obtains, frugal, refused, issued⟩ := entered
    split at placed
    · rename_i answer
      cases placed
      refine ⟨before, fresh, obtains, frugal, refused, fun addr other => ?_⟩
      cases answer.symm.trans other
    · rename_i addr answer
      cases placed
      refine ⟨before, fresh, obtains, frugal, fun refused => ?_, fun other same => ?_⟩
      · cases answer.symm.trans refused
      obtain rfl := Option.some.inj (answer.symm.trans same)
      show source.heap.addLive _ = (before.countRegion _).addLive _
      rw [issued addr answer]

/-- A request is refused at once, or memory is obtained for it. -/
theorem allocate_enters {size : Nat} {step : HeapStep (Option Address)}
    (allocated : h.allocate system size align = .ok step) :
    step.answer = none ∧ step.heap = h ∨
      ∃ chunk, chunkSize? size = some chunk ∧ Enters enter h chunk (max align granule) step := by
  unfold Heap.allocate at allocated
  split at allocated
  · cases allocated
    exact .inl ⟨rfl, rfl⟩
  · rename_i chunk rounded
    split at allocated
    · cases allocated
      exact .inl ⟨rfl, rfl⟩
    · split at allocated
      · have positive : 0 < max align granule :=
          Nat.lt_of_lt_of_le (by decide) (Nat.le_max_right ..)
        exact .inr ⟨chunk, rounded, place_enters positive allocated⟩
      · cases allocated
        exact .inl ⟨rfl, rfl⟩

/-- Only a request that is served may bring a segment, and not more than one. -/
theorem allocate_count {size : Nat} {step : HeapStep (Option Address)}
    (allocated : h.allocate system size align = .ok step) :
    step.heap.segments.length = h.segments.length ∨
      (∃ addr, step.answer = some addr) ∧
        step.heap.segments.length = h.segments.length + 1 := by
  obtain ⟨_, same⟩ | ⟨chunk, _, before, fresh, obtains, frugal, refused, issued⟩ :=
    allocate_enters allocated
  · exact .inl (by rw [same])
  · have count := obtains.count
    unfold Frugal at frugal
    cases answer : step.answer with
    | none =>
      rw [answer, Option.toList_none, List.length_nil] at frugal
      rw [refused answer]
      exact .inl (by omega)
    | some addr =>
      rw [answer, Option.toList_some, List.length_singleton] at frugal
      rw [issued addr answer, segments_enter]
      by_cases grown : fresh.length = 0
      · exact .inl (by omega)
      · exact .inr ⟨⟨addr, rfl⟩, by omega⟩

theorem release_count {step : HeapStep (Option Nat)} (released : h.release system addr = .ok step) :
    step.heap.segments.length = h.segments.length := by
  simpa using congrArg List.length (release_frames released)

theorem growInPlace_eq (grown : h.growInPlace b chunk = some after) :
    ∃ segments, after = ({ h with segments } : Heap).setSize b.addr chunk ∧
      segments.map (·.frame) = h.segments.map (·.frame) := by
  unfold Heap.growInPlace at grown
  split at grown
  · cases grown
  · split at grown
    · cases grown
    · rename_i s inSegments
      obtain ⟨t, extended, rfl⟩ := Option.map_eq_some_iff.1 grown
      obtain ⟨_, _, same⟩ := Option.map_eq_some_iff.1 extended
      have frame : t.frame = s.frame := by
        cases same
        rfl
      exact ⟨_, rfl, Segment.frames_set inSegments frame⟩

/-- A block that grows elsewhere is placed like a new one, and its old place is released. -/
theorem growElsewhere_eq {step : HeapStep (Option Resized)}
    (grown : h.growElsewhere system b chunk = .ok step) :
    ∃ place, h.place system chunk b.align = .ok place ∧
      (step.heap = place.heap ∨ ∃ addr released, place.heap.release
          { place.system with bytes := place.system.bytes.copy b.addr addr b.size } b.addr =
            .ok released ∧ step.heap = released.heap) := by
  unfold Heap.growElsewhere at grown
  split at grown
  · cases grown
  · rename_i place placed
    refine ⟨place, placed, ?_⟩
    simp only at grown
    split at grown
    · cases grown
      exact .inl rfl
    · split at grown
      · cases grown
      · rename_i released gone
        cases grown
        exact .inr ⟨_, released, gone, rfl⟩

/-- What becomes of a heap whose block gets another size: the region of the block is exchanged, its
segment gives or takes the difference, or the block moves to where a request would be served. -/
inductive Refits (h : Heap) (system : SystemHeap) (b : LiveBlock) (chunk : Nat) : Heap → Prop
  | region : b.dedicated = true → Refits h system b chunk (h.resizeRegion system b chunk).heap
  | settled {segments : List Segment} : b.dedicated = false →
    segments.map (·.frame) = h.segments.map (·.frame) →
    Refits h system b chunk (({ h with segments } : Heap).setSize b.addr chunk)
  | elsewhere {step : HeapStep (Option Resized)} :
    h.growElsewhere system b chunk = .ok step → Refits h system b chunk step.heap

theorem resize_refits {size : Nat} {step : HeapStep (Option Resized)}
    (resized : h.resize system addr size = .ok step) :
    step.heap = h ∨ ∃ b chunk, h.block? b.addr = some b ∧ chunkSize? size = some chunk ∧
      Refits h system b chunk step.heap := by
  unfold Heap.resize at resized
  split at resized
  · rename_i b chunk found rounded
    obtain ⟨_, rfl⟩ := block?_mem found
    split at resized
    · cases resized
      exact .inl rfl
    split at resized
    · cases resized
      exact .inl rfl
    refine .inr ⟨b, chunk, found, rounded, ?_⟩
    split at resized
    · rename_i own
      cases resized
      exact .region own
    rename_i kind
    have placed : b.dedicated = false := by simpa using kind
    split at resized
    · unfold Heap.shrink at resized
      simp only at resized
      split at resized
      · cases resized
      · rename_i returned
        cases resized
        obtain ⟨segments, same, frames⟩ := returnRange_eq returned
        rw [same]
        exact .settled placed frames
    split at resized
    · rename_i grown
      cases resized
      obtain ⟨segments, same, frames⟩ := growInPlace_eq grown
      rw [same]
      exact .settled placed frames
    · exact .elsewhere resized
  · cases resized
    exact .inl rfl

/-- A block that is resized gives no segment back, but it may bring one. -/
theorem Sound.resize_count {size : Nat} {step : HeapStep (Option Resized)}
    (sound : h.Sound system rest hole) (resized : h.resize system addr size = .ok step) :
    h.segments.length ≤ step.heap.segments.length := by
  obtain same | ⟨b, chunk, found, _, refits⟩ := resize_refits resized
  · exact Nat.le_of_eq (by rw [same])
  generalize step.heap = after at refits
  cases refits with
  | region _ =>
    unfold Heap.resizeRegion
    split <;> exact Nat.le_refl _
  | @settled segments _ frames =>
    have kept := (setSize_eq (h := { h with segments }) found chunk).1
    have count := congrArg List.length frames
    rw [List.length_map, List.length_map] at count
    rw [kept]
    exact Nat.le_of_eq count.symm
  | elsewhere grown =>
    obtain ⟨place, placed, outcome⟩ := growElsewhere_eq grown
    have positive : 0 < b.align :=
      Nat.lt_of_lt_of_le (by decide) (sound.aligned b (block?_mem found).1)
    have more := (place_enters positive placed).count
    rcases outcome with same | ⟨_, released, gone, same⟩
    · rw [same]
      exact more
    · rw [same, release_count gone]
      exact more

theorem sumBy_length_of_whole {segments : List Segment}
    (whole : ∀ s ∈ segments, s.length = segmentBytes) :
    sumBy (·.length) segments = segmentBytes * segments.length := by
  induction segments with
  | nil => rfl
  | cons s others ih =>
    obtain ⟨first, later⟩ := List.forall_mem_cons.1 whole
    rw [sumBy_cons, ih later, first, List.length_cons, Nat.mul_succ, Nat.add_comm]

/-- The statistics count whole segments. -/
theorem Sound.segmentBytes_eq (sound : h.Sound system rest hole) :
    h.usage.segmentBytes = segmentBytes * h.segments.length :=
  sumBy_length_of_whole fun s member => (sound.tiles.sound s member).whole

/-- What a trim answers is what the statistics lose. -/
theorem Sound.trim_returned {step : HeapStep Nat} (sound : h.Sound system rest hole)
    (trimmed : h.trim system = .ok step) :
    step.heap.usage.segmentBytes + step.answer = h.usage.segmentBytes := by
  obtain ⟨unparked, returned, _, _, soundUnparked⟩ := sound.unpark
  have count := congrArg List.length (unpark_frames returned)
  have perm : (unparked.segments.filter (·.isUnused) ++
      unparked.segments.filter (!·.isUnused)).Perm unparked.segments := List.filter_append_perm _ _
  have split := sumBy_perm (·.length) perm
  rw [sumBy_append] at split
  have all : sumBy (·.length) unparked.segments = h.usage.segmentBytes := by
    have before := sound.segmentBytes_eq
    have behind := soundUnparked.segmentBytes_eq
    rw [List.length_map, List.length_map] at count
    rw [before, ← count, ← behind]
    rfl
  unfold Heap.trim at trimmed
  simp only [returned] at trimmed
  cases trimmed
  show sumBy (·.length) (unparked.segments.filter (!·.isUnused)) +
    sumBy (·.length) (unparked.segments.filter (·.isUnused)) = _
  omega

end Heap

end PooledMemory
