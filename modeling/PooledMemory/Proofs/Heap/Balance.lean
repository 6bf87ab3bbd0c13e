import Mathlib.Algebra.BigOperators.Group.Finset.Piecewise
import Mathlib.Algebra.Order.BigOperators.Group.Finset
import Mathlib.Order.Interval.Finset.Nat
import PooledMemory.Proofs.Heap.Extent

namespace PooledMemory

namespace Span

theorem sum_hits {s : Span} {bound : Nat} (below : s.stop ≤ bound) :
    ∑ x ∈ Finset.range bound, s.hits x = s.size := by
  have inside : (Finset.range bound).filter (fun x => s.addr ≤ x ∧ x < s.stop) =
      Finset.Ico s.addr s.stop := by
    ext x
    simp only [Finset.mem_filter, Finset.mem_range, Finset.mem_Ico]
    omega
  simp only [hits]
  rw [← Finset.card_filter, inside, Nat.card_Ico]
  exact Nat.add_sub_cancel_left _ _

/-- The sizes of spans add up to how often they cover all addresses together. -/
theorem sum_cover {spans : List Span} {bound : Nat} (below : ∀ s ∈ spans, s.stop ≤ bound) :
    ∑ x ∈ Finset.range bound, cover spans x = sumBy (·.size) spans := by
  induction spans with
  | nil => simp
  | cons s rest ih =>
    obtain ⟨first, others⟩ := List.forall_mem_cons.1 below
    simp only [cover_cons, Finset.sum_add_distrib, sum_hits first, ih others, sumBy_cons]

end Span

theorem sumBy_map {α β : Type} (f : β → Nat) (g : α → β) (xs : List α) :
    sumBy f (xs.map g) = sumBy (fun x => f (g x)) xs := by
  induction xs with
  | nil => rfl
  | cons x rest ih => rw [List.map_cons, sumBy_cons, sumBy_cons, ih]

namespace Segment

theorem Sound.sum_freeCover {s : Segment} {bound : Nat} (sound : s.Sound)
    (below : s.frame.stop ≤ bound) :
    ∑ x ∈ Finset.range bound, s.freeCover x = s.freeBytes := by
  have inside : ∀ f ∈ s.free.map (·.span s.base), f.stop ≤ bound := by
    intro f member
    obtain ⟨r, inFree, rfl⟩ := List.mem_map.1 member
    have upper := (sound.spaced.mem inFree).2.2
    simp only [Span.stop, frame, FreeRange.span, FreeRange.stop] at *
    omega
  have total := Span.sum_cover inside
  rw [sumBy_map] at total
  rw [sound.counted]
  exact total

theorem sum_freeCovers {segments : List Segment} {bound : Nat} (sound : ∀ s ∈ segments, s.Sound)
    (below : ∀ f ∈ segments.map (·.frame), f.stop ≤ bound) :
    ∑ x ∈ Finset.range bound, freeCovers segments x = sumBy (·.freeBytes) segments := by
  induction segments with
  | nil => simp [freeCovers]
  | cons s rest ih =>
    obtain ⟨first, others⟩ := List.forall_mem_cons.1 sound
    obtain ⟨first', others'⟩ := List.forall_mem_cons.1 below
    simp only [freeCovers_cons, Finset.sum_add_distrib, first.sum_freeCover first',
      ih others others', sumBy_cons]

end Segment

theorem Word.add_mod (n k : Nat) : Word.add (n % wordSize) k = (n + k) % wordSize :=
  Nat.mod_add_mod n wordSize k

namespace Heap

/-- The counters for regions count the dedicated blocks as words, no block and no parked chunk is
smaller than a granule, no parked chunk larger than those that are parked, and the segments come
from the slots. -/
structure Tallied (h : Heap) : Prop where
  regions : h.regions = (LiveBlock.regions h.live).length % wordSize
  regionBytes : h.regionBytes = sumBy (·.size) (LiveBlock.regions h.live) % wordSize
  sizes : ∀ b ∈ h.live, granule ≤ b.size
  parked : ∀ c ∈ h.parked, granule ≤ c.size ∧ c.size ≤ maxParkedSize
  low : ∀ f ∈ h.segments.map (·.frame), f.stop ≤ SystemHeap.firstBlock

variable {h after : Heap} {system : SystemHeap} {rest : List SystemBlock} {hole : List Span}
  {fresh : List Span} {addr size chunk align : Nat} {b : LiveBlock}

theorem empty_tallied (maxSize : Nat) : (empty maxSize).Tallied where
  regions := rfl
  regionBytes := rfl
  sizes := List.forall_mem_nil _
  parked := List.forall_mem_nil _
  low := List.forall_mem_nil _

/-- What is live may come in any order, and fewer chunks may be parked. -/
theorem Tallied.congr (tallied : h.Tallied) (live : after.live.Perm h.live)
    (regions : after.regions = h.regions) (regionBytes : after.regionBytes = h.regionBytes)
    (parked : after.parked ⊆ h.parked)
    (frames : after.segments.map (·.frame) ⊆ h.segments.map (·.frame)) : after.Tallied where
  regions := by rw [regions, tallied.regions, (LiveBlock.regions_perm live).length_eq]
  regionBytes := by
    rw [regionBytes, tallied.regionBytes, sumBy_perm _ (LiveBlock.regions_perm live)]
  sizes := fun b member => tallied.sizes b (live.subset member)
  parked := fun c member => tallied.parked c (parked member)
  low := fun f member => tallied.low f (frames member)

theorem Tallied.obtains (tallied : h.Tallied) (obtains : Obtains h after fresh) :
    after.Tallied where
  regions := by rw [obtains.regions, obtains.live, tallied.regions]
  regionBytes := by rw [obtains.regionBytes, obtains.live, tallied.regionBytes]
  sizes := obtains.live ▸ tallied.sizes
  parked := fun c member => tallied.parked c (obtains.parked member)
  low := by
    intro f member
    rcases List.mem_append.1 (obtains.frames.subset member) with new | old
    · exact obtains.low f new
    · exact tallied.low f old

theorem Tallied.enter (tallied : h.Tallied) (enough : granule ≤ b.size) : (h.enter b).Tallied := by
  obtain ⟨regions, regionBytes, sizes, parked, low⟩ := tallied
  have all : ∀ c ∈ b :: h.live, granule ≤ c.size := List.forall_mem_cons.2 ⟨enough, sizes⟩
  cases kind : b.dedicated with
  | true =>
    simp only [Heap.enter, countRegion, kind, if_true]
    refine ⟨?_, ?_, all, parked, low⟩
    · show Word.add h.regions 1 = (LiveBlock.regions (b :: h.live)).length % wordSize
      rw [regions, Word.add_mod, LiveBlock.regions_cons_of_true kind, List.length_cons]
    · show Word.add h.regionBytes b.size = sumBy _ (LiveBlock.regions (b :: h.live)) % wordSize
      rw [regionBytes, Word.add_mod, LiveBlock.regions_cons_of_true kind, sumBy_cons, Nat.add_comm]
      rfl
  | false =>
    simp only [Heap.enter, countRegion, kind, Bool.false_eq_true, if_false]
    refine ⟨?_, ?_, all, parked, low⟩
    · show h.regions = (LiveBlock.regions (b :: h.live)).length % wordSize
      rw [regions, LiveBlock.regions_cons_of_false kind]
    · show h.regionBytes = sumBy _ (LiveBlock.regions (b :: h.live)) % wordSize
      rw [regionBytes, LiveBlock.regions_cons_of_false kind]

theorem Enters.tallied {step : HeapStep (Option Address)} (enters : Enters enter h chunk align step)
    (tallied : h.Tallied) (enough : granule ≤ chunk) : step.heap.Tallied := by
  obtain ⟨before, fresh, obtains, _, refused, issued⟩ := enters
  have middle := tallied.obtains obtains
  cases answer : step.answer with
  | none =>
    rw [refused answer]
    exact middle
  | some addr =>
    rw [issued addr answer]
    exact middle.enter enough

theorem granule_le_chunk (rounded : chunkSize? size = some chunk) : granule ≤ chunk := by
  obtain ⟨whole, lower, _⟩ := chunkSize?_eq_some_iff.1 rounded
  exact Nat.le_of_dvd (by omega) whole

theorem Tallied.allocate {step : HeapStep (Option Address)} (tallied : h.Tallied)
    (allocated : h.allocate system size align = .ok step) : step.heap.Tallied := by
  obtain ⟨_, same⟩ | ⟨chunk, rounded, enters⟩ := allocate_enters allocated
  · rw [same]
    exact tallied
  · exact enters.tallied tallied (granule_le_chunk rounded)

/-- A block in a segment goes, and no region with it. -/
theorem Tallied.removePlaced (tallied : h.Tallied) (sound : h.Sound system rest hole)
    (found : h.block? addr = some b) (placed : b.dedicated = false) : (h.removeLive b).Tallied := by
  have perm := LiveBlock.regions_perm (sound.live_perm found)
  rw [LiveBlock.regions_cons_of_false placed] at perm
  refine ⟨?_, ?_, fun c member => tallied.sizes c (List.mem_of_mem_filter member), tallied.parked,
    tallied.low⟩
  · exact tallied.regions.trans (by rw [perm.length_eq])
  · exact tallied.regionBytes.trans (by rw [sumBy_perm _ perm])

/-- A dedicated block goes with its region. -/
theorem Tallied.removeRegion (tallied : h.Tallied) (sound : h.Sound system rest hole)
    (found : h.block? addr = some b) (own : b.dedicated = true) :
    ((h.removeLive b).releaseRegion system b).1.Tallied := by
  have perm := LiveBlock.regions_perm (sound.live_perm found)
  rw [LiveBlock.regions_cons_of_true own] at perm
  refine ⟨?_, ?_, fun c member => tallied.sizes c (List.mem_of_mem_filter member), tallied.parked,
    tallied.low⟩
  · show Word.sub h.regions 1 = (LiveBlock.regions (h.removeLive b).live).length % wordSize
    rw [tallied.regions, perm.length_eq, List.length_cons, Nat.add_comm, sub_mod]
  · show Word.sub h.regionBytes b.size =
      sumBy _ (LiveBlock.regions (h.removeLive b).live) % wordSize
    rw [tallied.regionBytes, sumBy_perm _ perm, sumBy_cons]
    exact sub_mod b.size _

theorem Tallied.release {step : HeapStep (Option Nat)} (tallied : h.Tallied)
    (sound : h.Sound system rest hole) (released : h.release system addr = .ok step) :
    step.heap.Tallied := by
  unfold Heap.release at released
  split at released
  · cases released
    exact tallied
  · rename_i b found
    have enough := tallied.sizes b (block?_mem found).1
    simp only at released
    split at released
    · rename_i own
      cases released
      exact tallied.removeRegion sound found own
    · rename_i placed
      have removed := tallied.removePlaced sound found (by simpa using placed)
      split at released
      · rename_i small
        cases released
        exact ⟨removed.regions, removed.regionBytes, removed.sizes,
          List.forall_mem_cons.2 ⟨⟨enough, small.2⟩, removed.parked⟩, removed.low⟩
      · split at released
        · cases released
        · rename_i returned
          cases released
          obtain ⟨segments, same, frames⟩ := returnRange_eq returned
          rw [same]
          exact removed.obtains (obtains_nothing frames (List.Subset.refl _))

/-- A block in a segment has another size, and its segment other free bytes. -/
theorem Tallied.resettle {segments : List Segment} (tallied : h.Tallied)
    (sound : h.Sound system rest hole) (found : h.block? addr = some b)
    (placed : b.dedicated = false) (enough : granule ≤ size)
    (frames : segments.map (·.frame) = h.segments.map (·.frame)) :
    (({ h with segments } : Heap).setSize addr size).Tallied := by
  have found' : ({ h with segments } : Heap).block? addr = some b := found
  have live := setSize_live (h := { h with segments }) sound.addr_nodup found' size
  obtain ⟨kept, parked, _, _⟩ := setSize_eq found' size
  have counters : (({ h with segments } : Heap).setSize addr size).regions = h.regions ∧
      (({ h with segments } : Heap).setSize addr size).regionBytes = h.regionBytes := by
    unfold setSize
    rw [found']
    exact ⟨rfl, rfl⟩
  have entered := (tallied.removePlaced sound found placed).enter (b := { b with size }) enough
  have plain : (h.removeLive b).countRegion { b with size } = h.removeLive b := by
    simp only [countRegion, placed, Bool.false_eq_true, if_false]
  simp only [Heap.enter, plain] at entered
  refine entered.congr live counters.1 counters.2 ?_ ?_
  · rw [parked]
    exact List.Subset.refl _
  · rw [kept, frames]
    exact List.Subset.refl _

theorem Tallied.resizeRegion (tallied : h.Tallied) (sound : h.Sound system rest hole)
    (found : h.block? b.addr = some b) (own : b.dedicated = true) (enough : granule ≤ chunk) :
    (h.resizeRegion system b chunk).heap.Tallied := by
  unfold Heap.resizeRegion
  split
  · exact tallied
  · rename_i moved after exchanged
    have perm := LiveBlock.regions_perm (sound.live_perm found)
    rw [LiveBlock.regions_cons_of_true own] at perm
    have cons : LiveBlock.regions ({ b with addr := moved, size := chunk } :: (h.removeLive b).live) =
        _ := LiveBlock.regions_cons_of_true own
    refine ⟨?_, ?_, ?_, tallied.parked, tallied.low⟩
    · refine tallied.regions.trans (congrArg (· % wordSize) ?_)
      exact perm.length_eq.trans (congrArg List.length cons).symm
    · show Word.add (Word.sub h.regionBytes b.size) chunk =
        sumBy _ (LiveBlock.regions (_ :: (h.removeLive b).live)) % wordSize
      have left : Word.sub h.regionBytes b.size =
          sumBy (·.size) (LiveBlock.regions (h.removeLive b).live) % wordSize := by
        rw [tallied.regionBytes, sumBy_perm _ perm, sumBy_cons]
        exact sub_mod b.size _
      rw [left, Word.add_mod, cons, sumBy_cons, Nat.add_comm]
      rfl
    · exact List.forall_mem_cons.2 ⟨enough, fun c member =>
        tallied.sizes c (List.mem_of_mem_filter member)⟩

theorem Tallied.growElsewhere {step : HeapStep (Option Resized)} (tallied : h.Tallied)
    (sound : h.Sound system rest hole) (found : h.block? b.addr = some b) (enough : granule ≤ chunk)
    (grown : h.growElsewhere system b chunk = .ok step) : step.heap.Tallied := by
  have aligned := sound.aligned b (block?_mem found).1
  have positive : 0 < b.align := Nat.lt_of_lt_of_le (by decide) aligned
  have filled : 0 < chunk := Nat.lt_of_lt_of_le (by decide) enough
  obtain ⟨place, placed, outcome⟩ := growElsewhere_eq grown
  obtain ⟨_, placed', soundPlaced, _⟩ := sound.place filled aligned
  cases placed.symm.trans placed'
  have middle := (place_enters positive placed).tallied tallied enough
  rcases outcome with same | ⟨addr, released, gone, same⟩
  · rw [same]
    exact middle
  · have copied := soundPlaced.withBytes (place.system.bytes.copy b.addr addr b.size)
    rw [same]
    exact middle.release copied gone

theorem Tallied.resize {step : HeapStep (Option Resized)} (tallied : h.Tallied)
    (sound : h.Sound system rest hole) (resized : h.resize system addr size = .ok step) :
    step.heap.Tallied := by
  obtain same | ⟨b, chunk, found, rounded, refits⟩ := resize_refits resized
  · rw [same]
    exact tallied
  · have enough := granule_le_chunk rounded
    generalize step.heap = after at refits
    cases refits with
    | region own => exact tallied.resizeRegion sound found own enough
    | settled placed frames => exact tallied.resettle sound found placed enough frames
    | elsewhere grown => exact tallied.growElsewhere sound found enough grown

theorem Tallied.trim {step : HeapStep Nat} (tallied : h.Tallied)
    (trimmed : h.trim system = .ok step) : step.heap.Tallied := by
  unfold Heap.trim at trimmed
  split at trimmed
  · cases trimmed
  · rename_i unparked returned
    cases trimmed
    obtain ⟨segments, rfl, frames⟩ := unpark_eq returned
    have emptied := tallied.obtains (obtains_nothing frames (List.nil_subset h.parked))
    exact emptied.congr (.refl _) rfl rfl (List.Subset.refl _)
      (List.map_subset _ (List.filter_subset_self _))

/-- Regions that are returned one by one are no longer counted. -/
theorem foldl_releaseRegion_counters (system : SystemHeap) {blocks : List LiveBlock}
    {others otherBytes : Nat}
    (regions : h.regions = (blocks.length + others) % wordSize)
    (regionBytes : h.regionBytes = (LiveBlock.bytes blocks + otherBytes) % wordSize) :
    (blocks.foldl (fun (acc : Heap × SystemHeap) b => acc.1.releaseRegion acc.2 b)
        (h, system)).1.regions = others % wordSize ∧
      (blocks.foldl (fun (acc : Heap × SystemHeap) b => acc.1.releaseRegion acc.2 b)
        (h, system)).1.regionBytes = otherBytes % wordSize := by
  induction blocks generalizing h system with
  | nil =>
    rw [List.length_nil, Nat.zero_add] at regions
    rw [LiveBlock.bytes, sumBy_nil, Nat.zero_add] at regionBytes
    exact ⟨regions, regionBytes⟩
  | cons b rest ih =>
    rw [List.length_cons, Nat.add_right_comm, Nat.add_comm _ 1] at regions
    rw [LiveBlock.bytes_cons, Nat.add_assoc] at regionBytes
    have first : (h.releaseRegion system b).1.regions = (rest.length + others) % wordSize :=
      (congrArg (Word.sub · 1) regions).trans (sub_mod 1 _)
    have second : (h.releaseRegion system b).1.regionBytes =
        (LiveBlock.bytes rest + otherBytes) % wordSize :=
      (congrArg (Word.sub · b.size) regionBytes).trans (sub_mod b.size _)
    rw [List.foldl_cons]
    exact ih _ first second

theorem bytes_dedicated (live : List LiveBlock) :
    LiveBlock.bytes (live.filter (·.dedicated)) = sumBy (·.size) (LiveBlock.regions live) :=
  (sumBy_map (fun s : SystemBlock => s.size) (fun b : LiveBlock => b.region) _).symm

theorem Tallied.releaseAll (tallied : h.Tallied) (system : SystemHeap) :
    (h.releaseAll system).1.Tallied := by
  have regions : h.regions = ((h.live.filter (·.dedicated)).length + 0) % wordSize := by
    rw [tallied.regions, LiveBlock.regions, List.length_map, Nat.add_zero]
  have regionBytes : h.regionBytes =
      (LiveBlock.bytes (h.live.filter (·.dedicated)) + 0) % wordSize := by
    rw [tallied.regionBytes, bytes_dedicated, Nat.add_zero]
  have left := foldl_releaseRegion_counters system regions regionBytes
  unfold Heap.releaseAll
  exact ⟨left.1, left.2, List.forall_mem_nil _, List.forall_mem_nil _, List.forall_mem_nil _⟩

/-- The statistics of a heap agree with each other and with what the heap holds. -/
structure Balanced (h : Heap) : Prop where
  arena : h.usage.segmentBytes = segmentBytes * h.segments.length
  regions : h.usage.regions = (h.live.filter (·.dedicated)).length
  regionBytes : h.usage.regionBytes = sumBy (·.size) (h.live.filter (·.dedicated))
  allocated : h.usage.allocated = sumBy (·.size) h.live
  balance : h.usage.segmentBytes + h.usage.regionBytes = h.usage.allocated + h.usage.free
  chunks : h.usage.parkedChunks * granule ≤ h.usage.parkedBytes ∧
    h.usage.parkedBytes ≤ h.usage.parkedChunks * maxParkedSize
  free : h.usage.parkedBytes ≤ h.usage.free ∧ h.usage.free ≤ h.usage.segmentBytes

theorem bytes_split (live : List LiveBlock) : LiveBlock.bytes live =
    sumBy (·.size) (LiveBlock.places live) + sumBy (·.size) (LiveBlock.regions live) := by
  induction live with
  | nil => rfl
  | cons b others ih =>
    rw [LiveBlock.bytes_cons, ih]
    cases kind : b.dedicated with
    | true =>
      rw [LiveBlock.places_cons_of_true kind, LiveBlock.regions_cons_of_true kind, sumBy_cons]
      show b.size + _ = _ + (b.size + _)
      omega
    | false =>
      rw [LiveBlock.places_cons_of_false kind, LiveBlock.regions_cons_of_false kind, sumBy_cons]
      show b.size + _ = b.size + _ + _
      omega

/-- The segments consist of blocks, parked chunks and free bytes, and they are so few that a word
counts their bytes. -/
theorem Sound.arena_split (sound : h.Sound system rest []) (tallied : h.Tallied) :
    sumBy (·.size) (LiveBlock.places h.live) + sumBy (·.size) h.parked +
        sumBy (·.freeBytes) h.segments = h.usage.segmentBytes ∧
      h.usage.segmentBytes < wordSize := by
  have below := tallied.low
  have inside : ∀ u ∈ h.places, u.stop ≤ SystemHeap.firstBlock := by
    intro u member
    obtain ⟨_, f, held, within⟩ := sound.tiles.inside u member
    exact Nat.le_trans within.2 (below f held)
  have frames : sumBy (·.size) (h.segments.map (·.frame)) = h.usage.segmentBytes := sumBy_map ..
  have places : sumBy (·.size) h.places =
      sumBy (·.size) (LiveBlock.places h.live) + sumBy (·.size) h.parked := by
    rw [Heap.places, sumBy_append, sumBy_map]
    rfl
  have total := Span.sum_cover below
  rw [frames] at total
  refine ⟨?_, ?_⟩
  · rw [← places, ← Span.sum_cover inside, ← Segment.sum_freeCovers sound.tiles.sound below,
      ← Finset.sum_add_distrib, ← total]
    exact Finset.sum_congr rfl fun x _ => sound.tiles.covered x
  · have once := Finset.sum_le_card_nsmul (Finset.range SystemHeap.firstBlock) _ 1
      fun x _ => sound.tiles.toOrdered.cover_le_one x
    rw [total, Finset.card_range] at once
    exact Nat.lt_of_le_of_lt once (by decide)

theorem sumBy_bounds {α : Type} {f : α → Nat} {low high : Nat} {xs : List α}
    (bounds : ∀ x ∈ xs, low ≤ f x ∧ f x ≤ high) :
    xs.length * low ≤ sumBy f xs ∧ sumBy f xs ≤ xs.length * high := by
  induction xs with
  | nil => simp
  | cons x rest ih =>
    obtain ⟨first, others⟩ := List.forall_mem_cons.1 bounds
    have later := ih others
    rw [List.length_cons, sumBy_cons, Nat.succ_mul, Nat.succ_mul]
    omega

theorem Sound.balanced (sound : h.Sound system rest []) (tallied : h.Tallied)
    (budget : h.InBudget) : h.Balanced := by
  obtain ⟨arena, word⟩ := sound.arena_split tallied
  have allocated := sound.allocated_eq budget
  have split := bytes_split h.live
  obtain ⟨limit, within⟩ := budget
  rw [spent] at within
  have fewer : (LiveBlock.regions h.live).length ≤ h.live.length := by
    rw [LiveBlock.regions, List.length_map]
    exact List.length_filter_le _ _
  have overhead : h.live.length ≤ h.live.length * blockOverhead :=
    Nat.le_mul_of_pos_right _ (by decide)
  have regions : h.usage.regions = (LiveBlock.regions h.live).length :=
    tallied.regions.trans (Nat.mod_eq_of_lt (by omega))
  have regionBytes : h.usage.regionBytes = sumBy (·.size) (LiveBlock.regions h.live) :=
    tallied.regionBytes.trans (Nat.mod_eq_of_lt (by omega))
  have free : h.usage.free = sumBy (·.freeBytes) h.segments + sumBy (·.size) h.parked :=
    Word.add_of_lt (by omega)
  have parkedBytes : h.usage.parkedBytes = sumBy (·.size) h.parked := rfl
  have live : h.usage.allocated = LiveBlock.bytes h.live := allocated
  exact {
    arena := sound.segmentBytes_eq
    regions := by rw [regions, LiveBlock.regions, List.length_map]
    regionBytes := by rw [regionBytes, ← bytes_dedicated, LiveBlock.bytes]
    allocated := live
    balance := by omega
    chunks := sumBy_bounds tallied.parked
    free := by omega }

end Heap

end PooledMemory
