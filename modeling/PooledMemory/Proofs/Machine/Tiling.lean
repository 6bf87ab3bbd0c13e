import PooledMemory.Proofs.Machine.Reachable

namespace PooledMemory

namespace Machine

variable {m : Machine} {lost : List (Address × PoolId)} {loans : List SystemBlock}

/-- The memory of the pools is divided among its users. -/
structure Tiled (m : Machine) : Prop where
  /-- Every byte of a segment lies in exactly one of the live blocks, the parked chunks and the
  free ranges of the segment. -/
  divided : ∀ p ∈ m.pools, ∀ s ∈ p.heap.segments, ∀ x, s.base ≤ x → x < s.base + s.length →
    Span.cover ((p.heap.live.filter (!·.dedicated)).map (·.span)) x +
      Span.cover (p.heap.parked.map (·.span)) x + FreeRange.cover s.base s.free x = 1
  inside : ∀ p ∈ m.pools, ∀ b ∈ p.heap.live, b.dedicated = false →
    ∃ s ∈ p.heap.segments, b.span.Within s.frame
  apart : (m.pools.flatMap fun p => p.heap.live.map (·.span)).Pairwise Span.Apart
  summed : ∀ p ∈ m.pools, ∀ s ∈ p.heap.segments, s.freeBytes = FreeRange.total s.free

theorem Sound.tiled (sound : m.Sound lost loans) : m.Tiled where
  divided := by
    intro p inPools s inSegments x lower upper
    have whole := (sound.heaps p inPools).tiles.covered_inside inSegments lower upper
    rwa [List.nil_append, Heap.places, Span.cover_append] at whole
  inside := by
    intro p inPools b inLive placed
    have place : b.span ∈ p.heap.places := by
      refine List.mem_append_left _ (List.mem_map_of_mem ?_)
      exact List.mem_filter.2 ⟨inLive, by rw [placed]; rfl⟩
    obtain ⟨_, f, inFrames, within⟩ := (sound.heaps p inPools).tiles.inside b.span place
    obtain ⟨s, inSegments, rfl⟩ := List.mem_map.1 inFrames
    exact ⟨s, inSegments, within⟩
  apart := sound.apart
  summed := by
    intro p inPools s inSegments
    exact ((sound.heaps p inPools).tiles.sound s inSegments).counted

/-- In all states that programs reach, memory is divided without gap or overlap, and no call finds
that a pool has lost track of its memory. -/
theorem Reachable.tiled_uncorrupted (reached : Reachable m) : m.Tiled ∧
    ∀ (c : Call) (fault : Fault), c.Proper m → (c.run m).answer = .error fault →
      fault.isCorruption = false := by
  obtain ⟨loans, sound⟩ := reached.sound
  refine ⟨sound.tiled, fun c fault proper stopped => ?_⟩
  exact (sound.run_proper proper).clean fault stopped

theorem busy_tiled :
    (busy.pools.map fun p => (p.heap.live.length, p.heap.parked.length, p.heap.segments.length)) =
        [(2, 1, 1), (1, 0, 1)] ∧
      busy.Tiled ∧
      ∀ (c : Call) (fault : Fault), c.Proper busy → (c.run busy).answer = .error fault →
        fault.isCorruption = false :=
  ⟨by decide +kernel, Reachable.tiled_uncorrupted busy_reachable⟩

end Machine

end PooledMemory
