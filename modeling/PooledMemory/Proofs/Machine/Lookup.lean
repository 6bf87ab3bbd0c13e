import PooledMemory.Proofs.Heap.Extent
import PooledMemory.Proofs.Machine.Reachable

namespace PooledMemory

namespace Segment

/-- The segments come by ascending base, and no two of them have a byte in common. -/
structure Arrayed (segments : List Segment) : Prop where
  filled : ∀ s ∈ segments, 0 < s.length
  ascending : segments.Pairwise fun s t => s.base < t.base
  disjoint : segments.Pairwise fun s t => s.frame.Apart t.frame

variable {segments : List Segment} {t : Segment}

theorem arrayed_iff : Arrayed segments ↔
    (∀ s ∈ segments, 0 < s.length) ∧ segments.Pairwise fun s t => s.frame.stop ≤ t.frame.addr := by
  constructor
  · intro arrayed
    refine ⟨arrayed.filled, (arrayed.ascending.and arrayed.disjoint).imp fun {s t} both => ?_⟩
    have below : s.frame.addr < t.frame.addr := both.1
    have apart : s.frame.stop ≤ t.frame.addr ∨ t.frame.addr + t.frame.size ≤ s.frame.addr := both.2
    omega
  · rintro ⟨filled, sorted⟩
    refine ⟨filled, sorted.imp_of_mem fun {s t} member _ before => ?_, sorted.imp Or.inl⟩
    exact Nat.lt_of_lt_of_le (Nat.lt_add_of_pos_right (filled s member)) before

theorem Ordered.arrayed (ordered : Ordered segments) : Arrayed segments :=
  arrayed_iff.2 ⟨fun s member => (ordered.sound s member).filled, List.pairwise_map.1 ordered.sorted⟩

/-- A segment comes to its place among the others wherever it lies. -/
theorem Arrayed.insert (arrayed : Arrayed segments) (filled : 0 < t.length)
    (apart : ∀ s ∈ segments, t.frame.Apart s.frame) :
    Arrayed (segments.insertIdx
      (Heap.partitionPoint (fun s : Segment => decide (s.base < t.base)) segments) t) := by
  obtain ⟨_, sorted⟩ := arrayed_iff.1 arrayed
  have filled' : ∀ s ∈ t :: segments, 0 < s.length :=
    List.forall_mem_cons.2 ⟨filled, arrayed.filled⟩
  obtain ⟨sorted', perm⟩ := sorted_insert sorted filled' (List.forall_mem_map.2 apart) rfl
  exact arrayed_iff.2 ⟨fun s member => filled' s (perm.subset member), sorted'⟩

theorem Arrayed.sublist {others : List Segment} (arrayed : Arrayed segments)
    (part : others.Sublist segments) : Arrayed others where
  filled := fun s member => arrayed.filled s (part.subset member)
  ascending := arrayed.ascending.sublist part
  disjoint := arrayed.disjoint.sublist part

/-- What is free in the segments does not matter. -/
theorem Arrayed.of_frames {others : List Segment} (arrayed : Arrayed segments)
    (frames : others.map (·.frame) = segments.map (·.frame)) : Arrayed others := by
  obtain ⟨filled, sorted⟩ := arrayed_iff.1 arrayed
  have framed : ∀ f ∈ segments.map (·.frame), 0 < f.size := List.forall_mem_map.2 filled
  have sorted' : (segments.map (·.frame)).Pairwise fun f g => f.stop ≤ g.addr :=
    List.pairwise_map.2 sorted
  rw [← frames] at framed sorted'
  exact arrayed_iff.2
    ⟨fun s member => framed s.frame (List.mem_map_of_mem member), List.pairwise_map.1 sorted'⟩

end Segment

namespace Heap

/-- The segments are in order, and the search by bisection finds the one segment that an address lies
in, where a search through all segments finds it. -/
structure Searchable (h : Heap) : Prop where
  arrayed : Segment.Arrayed h.segments
  finds : ∀ addr i, h.segmentIndex? addr = some i ↔
    ∃ s, h.segments[i]? = some s ∧ s.contains addr = true
  misses : ∀ addr, h.segmentIndex? addr = none ↔ ∀ s ∈ h.segments, s.contains addr = false
  linear : ∀ addr, h.segmentIndex? addr = h.segments.findIdx? (·.contains addr)

variable {h : Heap} {system : SystemHeap} {rest : List SystemBlock} {addr i chunk align : Nat}

theorem segmentIndex?_eq_some_iff (arrayed : Segment.Arrayed h.segments) :
    h.segmentIndex? addr = some i ↔ ∃ s, h.segments[i]? = some s ∧ s.contains addr = true := by
  refine ⟨segmentIndex?_mem, ?_⟩
  rintro ⟨s, found, inside⟩
  exact segmentIndex?_of_sorted (Segment.arrayed_iff.1 arrayed).2 found inside

theorem segmentIndex?_eq_findIdx? (arrayed : Segment.Arrayed h.segments) :
    h.segmentIndex? addr = h.segments.findIdx? (·.contains addr) := by
  cases found : h.segments.findIdx? (·.contains addr) with
  | none =>
    refine Option.eq_none_iff_forall_ne_some.2 fun i index => ?_
    obtain ⟨s, at', inside⟩ := segmentIndex?_mem index
    have outside := List.findIdx?_eq_none_iff.1 found s (List.mem_of_getElem? at')
    exact Bool.false_ne_true (outside.symm.trans inside)
  | some i =>
    obtain ⟨bound, inside, _⟩ := List.findIdx?_eq_some_iff_getElem.1 found
    exact (segmentIndex?_eq_some_iff arrayed).2 ⟨_, List.getElem?_eq_getElem bound, inside⟩

theorem searchable_of_arrayed (arrayed : Segment.Arrayed h.segments) : h.Searchable where
  arrayed := arrayed
  finds addr i := segmentIndex?_eq_some_iff arrayed
  misses addr := by rw [segmentIndex?_eq_findIdx? arrayed, List.findIdx?_eq_none_iff]
  linear addr := segmentIndex?_eq_findIdx? arrayed

/-- One segment has come to those that there were, and all of them can be found. -/
structure Inserts (h after : Heap) (t : Segment) : Prop where
  segments : after.segments.Perm (t :: h.segments)
  searchable : after.Searchable

theorem insertSegment_inserts {t : Segment} (arrayed : Segment.Arrayed h.segments)
    (filled : 0 < t.length) (apart : ∀ s ∈ h.segments, t.frame.Apart s.frame) :
    h.Inserts (h.insertSegment t) t where
  segments := List.perm_insertIdx t h.segments (bisect_le (Nat.zero_le _))
  searchable := searchable_of_arrayed (arrayed.insert filled apart)

/-- A segment that the system heap grants is inserted, whatever is carved out of it. -/
theorem carveFresh_heap (h : Heap) (system : SystemHeap) (chunk align : Nat) :
    (system.takeSegment? = none ∧ (h.carveFresh system chunk align).heap = h) ∨
      ∃ base below t, system.takeSegment? = some (base, below) ∧ t.frame = ⟨base, segmentBytes⟩ ∧
        (h.carveFresh system chunk align).heap = h.insertSegment t := by
  unfold carveFresh
  split
  · exact .inl ⟨‹_›, rfl⟩
  · rename_i base below taken
    refine .inr ⟨base, below, ?_⟩
    dsimp only
    split
    · exact ⟨Segment.fresh base segmentBytes, taken, rfl, rfl⟩
    · rename_i carved
      obtain ⟨_, _, same⟩ := Option.map_eq_some_iff.1 carved
      cases same
      exact ⟨_, taken, rfl, rfl⟩

theorem trim_searchable {step : HeapStep Nat} (arrayed : Segment.Arrayed h.segments)
    (trimmed : h.trim system = .ok step) : step.heap.Searchable := by
  unfold trim at trimmed
  split at trimmed
  · cases trimmed
  · rename_i unparked
    cases trimmed
    exact searchable_of_arrayed
      ((arrayed.of_frames (unpark_frames unparked)).sublist List.filter_sublist)

/-- A pool has one more segment if the system heap grants one, and the same ones if it does not. -/
theorem Sound.carveFresh_inserts (sound : h.Sound system rest []) (chunk align : Nat) :
    (system.takeSegment? = none ∧ (h.carveFresh system chunk align).heap = h) ∨
      ∃ base below t, system.takeSegment? = some (base, below) ∧ t.frame = ⟨base, segmentBytes⟩ ∧
        h.Inserts (h.carveFresh system chunk align).heap t := by
  refine (carveFresh_heap h system chunk align).imp_right ?_
  rintro ⟨base, below, t, taken, frame, inserted⟩
  obtain ⟨below', blocks⟩ := takeSegment?_spec sound.below taken
  rw [← frame] at blocks
  have filled : 0 < t.frame.size := by
    rw [frame]
    exact Nat.zero_lt_succ _
  rw [inserted]
  exact ⟨base, below, t, taken, frame, insertSegment_inserts sound.tiles.toOrdered.arrayed filled
    (List.forall_mem_map.1 (sound.granted_apart below' blocks))⟩

end Heap

namespace Machine

variable {m : Machine} {p : Pool}

/-- The segments of every pool are in order, and the search among them agrees with a search through all
of them. That stays so when a segment is inserted, be it one that the system heap grants or any other
that overlaps none of them, and when the unused ones go back. -/
theorem Attempted.segments_searchable (attempted : Attempted m) (inPools : p ∈ m.pools) :
    p.heap.Searchable ∧
      (∀ chunk align, (p.heap.carveFresh m.system chunk align).heap.Searchable ∧
        ((m.system.takeSegment? = none ∧ (p.heap.carveFresh m.system chunk align).heap = p.heap) ∨
          ∃ base below t, m.system.takeSegment? = some (base, below) ∧
            t.frame = ⟨base, segmentBytes⟩ ∧
            p.heap.Inserts (p.heap.carveFresh m.system chunk align).heap t)) ∧
      (∀ t : Segment, 0 < t.length → (∀ s ∈ p.heap.segments, t.frame.Apart s.frame) →
        p.heap.Inserts (p.heap.insertSegment t) t) ∧
      ∃ step, p.heap.trim m.system = .ok step ∧ step.heap.Searchable := by
  obtain ⟨lost, loans, sound⟩ := attempted.sound
  have heap := sound.heap (sound.pool?_eq inPools)
  have arrayed := heap.tiles.toOrdered.arrayed
  have searchable := Heap.searchable_of_arrayed arrayed
  refine ⟨searchable, fun chunk align => ?_,
    fun t filled apart => Heap.insertSegment_inserts arrayed filled apart, ?_⟩
  · have inserts := heap.carveFresh_inserts chunk align
    refine ⟨?_, inserts⟩
    rcases inserts with ⟨_, same⟩ | ⟨_, _, _, _, _, inserted⟩
    · rw [same]
      exact searchable
    · exact inserted.searchable
  · obtain ⟨step, trimmed, _⟩ := heap.trim
    exact ⟨step, trimmed, Heap.trim_searchable arrayed trimmed⟩

/-- A pool with three segments that touch and a fourth behind a gap. They have come in another order. -/
def scattered : Machine := Call.runAll
  (.openPool { thread := 0 } {} ::
    List.replicate 25 (.allocate { thread := 0 } (some 1) (.plain 131056)))
  (.start [2, 0, 5, 1])

theorem scattered_reachable : Reachable scattered :=
  (Reachable.start [2, 0, 5, 1]).runAll _ (by decide +kernel)

/-- The first and the last byte of every segment are found in it, and nothing is found beside them. A
segment of 32 bytes would find its place in the gap. -/
theorem scattered_searchable :
    scattered.pools.map (fun p => p.heap.segments.map (·.base)) =
        [[0, 1, 2, 5].map SystemHeap.slotBase] ∧
      (∀ p ∈ scattered.pools,
        [SystemHeap.slotBase 0 - 1, SystemHeap.slotBase 0, SystemHeap.slotBase 1 - 1,
          SystemHeap.slotBase 1, SystemHeap.slotBase 2, SystemHeap.slotBase 3 - 1,
          SystemHeap.slotBase 3, SystemHeap.slotBase 5 - 1, SystemHeap.slotBase 5,
          SystemHeap.slotBase 6 - 1, SystemHeap.slotBase 6].map p.heap.segmentIndex? =
        [none, some 0, some 0, some 1, some 2, some 2, none, none, some 3, some 3, none]) ∧
      ∀ p ∈ scattered.pools, p.heap.Searchable ∧
        (p.heap.carveFresh scattered.system 16 16).heap.Searchable ∧
        p.heap.Inserts (p.heap.insertSegment (.fresh (SystemHeap.slotBase 3 + 16) 32))
          (.fresh (SystemHeap.slotBase 3 + 16) 32) ∧
        ∃ step, p.heap.trim scattered.system = .ok step ∧ step.heap.Searchable := by
  have apart : ∀ p ∈ scattered.pools, ∀ s ∈ p.heap.segments,
      SystemHeap.slotBase 3 + 16 + 32 ≤ s.base ∨ s.base + s.length ≤ SystemHeap.slotBase 3 + 16 := by
    decide +kernel
  refine ⟨by decide +kernel, by decide +kernel, fun p inPools => ?_⟩
  obtain ⟨searchable, fresh, inserted, trimmed⟩ :=
    Attempted.segments_searchable scattered_reachable.attempted inPools
  exact ⟨searchable, (fresh 16 16).1,
    inserted (.fresh (SystemHeap.slotBase 3 + 16) 32) (by decide) (apart p inPools), trimmed⟩

end Machine

end PooledMemory
