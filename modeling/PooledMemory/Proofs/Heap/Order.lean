import PooledMemory.Proofs.Heap.Balance
import PooledMemory.Proofs.Heap.Canonical
import PooledMemory.Proofs.Heap.Peak

namespace PooledMemory

namespace LiveBlock

/-- Whether the block is parked when it is released. -/
def parks (b : LiveBlock) : Bool :=
  !b.dedicated && b.align == granule && decide (b.size ≤ maxParkedSize)

/-- The chunk that the block leaves behind when it is parked. -/
def chunk (b : LiveBlock) : ParkedChunk := ⟨b.addr, b.size⟩

end LiveBlock

namespace Heap

/-- The parked chunks of one size, the latest first. -/
def bin (h : Heap) (size : Nat) : List ParkedChunk := h.parked.filter (·.size == size)

/-- The heap after the release of the blocks in `gone`, as far as the order does not show. -/
structure Freed (h after : Heap) (gone : List LiveBlock) : Prop where
  live : after.live = h.live.filter fun b => (gone.map (·.addr)).all (b.addr != ·)
  parked : after.parked.Perm ((gone.filter (·.parks)).map (·.chunk) ++ h.parked)
  frames : after.segments.map (·.frame) = h.segments.map (·.frame)
  peak : after.peak = h.peak
  maxSize : after.maxSize = h.maxSize

/-- Heaps that nothing but the order of the parked chunks tells apart. -/
structure SameButBins (h after : Heap) : Prop where
  segments : after.segments = h.segments
  live : after.live = h.live
  allocated : after.allocated = h.allocated
  peak : after.peak = h.peak
  regions : after.regions = h.regions
  regionBytes : after.regionBytes = h.regionBytes
  maxSize : after.maxSize = h.maxSize
  bins : ∀ size, (after.bin size).Perm (h.bin size)
  usage : after.usage = h.usage

variable {h middle after other : Heap} {system system' below below' : SystemHeap}
  {rest rest' : List SystemBlock} {gone gone' : List LiveBlock} {b : LiveBlock}
  {step : HeapStep (Option Nat)}

theorem Freed.refl (h : Heap) : Freed h h [] where
  live := by simp
  parked := .refl _
  frames := rfl
  peak := rfl
  maxSize := rfl

/-- A small block without special alignment is parked, and no other block is. -/
theorem release_parked (found : h.block? b.addr = some b)
    (released : h.release system b.addr = .ok step) :
    step.heap.parked = if b.parks then b.chunk :: h.parked else h.parked := by
  unfold Heap.release at released
  simp only [found] at released
  cases kind : b.dedicated with
  | true =>
    rw [kind, if_pos rfl] at released
    cases released
    simp [LiveBlock.parks, kind, releaseRegion, removeLive]
  | false =>
    simp only [kind, Bool.false_eq_true, if_false] at released
    by_cases small : b.align = granule ∧ b.size ≤ maxParkedSize
    · rw [if_pos small] at released
      cases released
      simp [LiveBlock.parks, LiveBlock.chunk, kind, small, removeLive]
    · have stays : b.parks = false := by
        simpa [LiveBlock.parks, kind] using small
      rw [if_neg small] at released
      split at released
      · cases released
      · rename_i returned
        cases released
        obtain ⟨segments, same, _⟩ := returnRange_eq returned
        rw [same, stays]
        rfl

/-- One more block is released. -/
theorem Freed.release (freed : Freed h middle gone) (sound : middle.Sound system rest [])
    (live : b ∈ middle.live) (released : middle.release system b.addr = .ok step) :
    Freed h step.heap (b :: gone) := by
  have found := sound.block?_eq live
  obtain ⟨_, released', frees⟩ := sound.release b.addr
  cases released.symm.trans released'
  refine ⟨?_, ?_, (release_frames released).trans freed.frames,
    (release_peak released).trans freed.peak, frees.maxSize.trans freed.maxSize⟩
  · rw [frees.live, freed.live, List.filter_filter]
    rfl
  · rw [release_parked found released]
    cases kind : b.parks with
    | true =>
      rw [if_pos rfl, List.filter_cons_of_pos (by exact kind)]
      exact freed.parked.cons _
    | false =>
      rw [if_neg Bool.false_ne_true, List.filter_cons_of_neg (by simp [kind])]
      exact freed.parked

/-- Whatever the order in which blocks were released, the parked chunks are the same. -/
theorem Freed.parked_perm (freed : Freed h after gone) (freed' : Freed h other gone')
    (perm : gone.Perm gone') : other.parked.Perm after.parked := by
  refine freed'.parked.trans (.trans (.append_right _ ?_) freed.parked.symm)
  exact ((perm.filter _).map _).symm

theorem Freed.live_eq (freed : Freed h after gone) (freed' : Freed h other gone')
    (perm : gone.Perm gone') : other.live = after.live := by
  rw [freed.live, freed'.live]
  refine List.filter_congr fun b _ => ?_
  rw [Bool.eq_iff_iff, List.all_eq_true, List.all_eq_true]
  exact forall_congr' fun addr => imp_congr_left (perm.map _).symm.mem_iff

/-- Whatever the order in which blocks were released, the same bytes of the segments are free, and
adjoining ones are merged. -/
theorem Freed.segments_eq (freed : Freed h after gone) (freed' : Freed h other gone')
    (perm : gone.Perm gone') (sound : after.Orderly []) (sound' : other.Orderly []) :
    other.segments = after.segments := by
  refine sound'.tiles.unique sound.tiles (freed'.frames.trans freed.frames.symm)
    (Span.cover_perm ?_)
  rw [List.nil_append, List.nil_append, Heap.places, Heap.places, freed.live_eq freed' perm]
  exact ((freed.parked_perm freed' perm).map _).append_left _

theorem Freed.sameButBins (freed : Freed h after gone) (freed' : Freed h other gone')
    (perm : gone.Perm gone') (sound : after.Orderly []) (sound' : other.Orderly [])
    (tallied : after.Tallied) (tallied' : other.Tallied) : SameButBins after other := by
  have live := freed.live_eq freed' perm
  have parked := freed.parked_perm freed' perm
  have segments := freed.segments_eq freed' perm sound sound'
  have allocated : other.allocated = after.allocated := by
    rw [sound'.counted, sound.counted, live]
  have regions : other.regions = after.regions := by
    rw [tallied'.regions, tallied.regions, live]
  have regionBytes : other.regionBytes = after.regionBytes := by
    rw [tallied'.regionBytes, tallied.regionBytes, live]
  have peak : other.peak = after.peak := freed'.peak.trans freed.peak.symm
  refine ⟨segments, live, allocated, peak, regions, regionBytes,
    freed'.maxSize.trans freed.maxSize.symm, fun size => parked.filter _, ?_⟩
  simp only [Heap.usage, segments, allocated, peak, regions, regionBytes, parked.length_eq,
    sumBy_perm _ parked]

/-- A trim moves the parked chunks back, so that their order does not show any more. -/
theorem SameButBins.trim {step step' : HeapStep Nat} (same : SameButBins after other)
    (sound : after.Sound below rest []) (sound' : other.Sound below' rest' [])
    (trimmed : after.trim below = .ok step) (trimmed' : other.trim below' = .ok step') :
    step'.heap = step.heap ∧ step'.answer = step.answer := by
  obtain ⟨unparked, returned, emptied, books, orderly⟩ := sound.unpark
  obtain ⟨unparked', returned', emptied', books', orderly'⟩ := sound'.unpark
  have whole : unparked' = unparked := by
    have segments : unparked'.segments = unparked.segments := by
      refine orderly'.tiles.unique orderly.tiles ?_ fun x => ?_
      · rw [unpark_frames returned', unpark_frames returned, same.segments]
      · simp only [Heap.places, emptied, emptied', books.live, books'.live, same.live]
    obtain ⟨_, rfl, _⟩ := unpark_eq returned
    obtain ⟨_, rfl, _⟩ := unpark_eq returned'
    simp only at segments
    simp only [segments, same.live, same.allocated, same.peak, same.regions, same.regionBytes,
      same.maxSize]
  unfold Heap.trim at trimmed trimmed'
  rw [returned] at trimmed
  rw [returned', whole] at trimmed'
  cases trimmed
  cases trimmed'
  exact ⟨rfl, rfl⟩

end Heap

end PooledMemory
