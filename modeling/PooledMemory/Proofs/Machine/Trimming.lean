import PooledMemory.Proofs.Heap.Trimming
import PooledMemory.Proofs.Machine.Interference

namespace PooledMemory

namespace Machine

variable {m : Machine} {lost : List (Address × PoolId)} {loans : List SystemBlock} {p : Pool}

/-- A pool that is trimmed logs the bytes that it returns, if there are any. -/
theorem Sound.trimPool_trims (sound : m.Sound lost loans) (found : m.pool? p.id = some p) :
    ∃ step, p.heap.Trims m.system step ∧ m.trimPool p.id = .ok step.answer
      { m.putHeap p.id step.heap step.system with
        events := m.events ++
          if 0 < step.answer then [.segmentsReturned p.id step.answer] else [] } := by
  obtain ⟨step, trimmed, trims⟩ := (sound.heap found).trim_trims
  refine ⟨step, trims, ?_⟩
  simp only [Machine.trimPool, found, trimmed]
  split
  · rfl
  · rw [List.append_nil]
    rfl

/-- Nothing happens to a pool whose heap is left alone by a trim. -/
theorem Sound.trimPool_still (sound : m.Sound lost loans) (found : m.pool? p.id = some p)
    (still : p.heap.trim m.system = .ok ⟨0, p.heap, m.system⟩) : m.trimPool p.id = .ok 0 m := by
  simp only [Machine.trimPool, found, still, Nat.lt_irrefl, if_false, sound.putHeap_self found]

/-- A trim of any pool gives exactly those segments back to the system heap that contain no live
block, and answers their bytes. The others stay in order, nothing is parked any more, and the live
blocks, their bytes, the other pools and the tags are left alone. A second trim finds nothing to do,
and a pool without live blocks in segments holds none afterwards. -/
theorem Attempted.trimPool_returns_idle (attempted : Attempted m) (inPools : p ∈ m.pools) :
    ∃ step after, p.heap.Trims m.system step ∧ m.trimPool p.id = .ok step.answer after ∧
      after = { m.putHeap p.id step.heap step.system with
        events := m.events ++
          if 0 < step.answer then [.segmentsReturned p.id step.answer] else [] } ∧
      after.trimPool p.id = .ok 0 after ∧
      (LiveBlock.places p.heap.live = [] → step.heap.segments = []) := by
  obtain ⟨lost, loans, sound⟩ := attempted.sound
  have found := sound.pool?_eq inPools
  obtain ⟨step, trims, trimmed⟩ := sound.trimPool_trims found
  refine ⟨step, _, trims, trimmed, rfl, ?_, (sound.heap found).segments_of_trims trims⟩
  have after := (sound.trimPool p.id).1
  rw [trimmed] at after
  exact after.trimPool_still (p := { p with heap := step.heap })
    (pool?_putHeap step.heap step.system found) trims.again

/-- A pool that keeps one segment for a live block and another one for a parked chunk. -/
def sparse : Machine := Call.runAll
  (List.flatten [
    [.openPool { thread := 0 } {}, .allocate { thread := 0 } (some 1) (.plain 32)],
    List.replicate 8 (.allocate { thread := 0 } (some 1) (.plain 131056)),
    [.allocate { thread := 0 } (some 1) (.plain 300)],
    (List.range 8).map fun i =>
      .releaseBlock { thread := 0 } 1 (SystemHeap.slotBase 2 + 32 + i * 131056),
    [.releaseBlock { thread := 0 } 1 (SystemHeap.slotBase 2)]])
  (.start [2, 0])

theorem sparse_reachable : Reachable sparse := (Reachable.start [2, 0]).runAll _ (by decide +kernel)

/-- The segment with the parked chunk goes back. -/
theorem sparse_returns_idle :
    sparse.pools.map (fun p => p.heap.segments.map (·.base)) =
      [[SystemHeap.slotBase 0, SystemHeap.slotBase 2]] ∧
    (sparse.trimPool 1).answer = .ok 1048576 ∧
    (sparse.trimPool 1).machine.pools.map (fun p => p.heap.segments.map (·.base)) =
      [[SystemHeap.slotBase 0]] ∧
    ∃ p ∈ sparse.pools, p.id = 1 ∧ ∃ step after, p.heap.Trims sparse.system step ∧
      sparse.trimPool p.id = .ok step.answer after ∧
      after = { sparse.putHeap p.id step.heap step.system with
        events := sparse.events ++
          if 0 < step.answer then [.segmentsReturned p.id step.answer] else [] } ∧
      after.trimPool p.id = .ok 0 after ∧
      (LiveBlock.places p.heap.live = [] → step.heap.segments = []) := by
  obtain ⟨p, inPools, number⟩ : ∃ p ∈ sparse.pools, p.id = 1 := by decide +kernel
  exact ⟨by decide +kernel, by decide +kernel, by decide +kernel, p, inPools, number,
    Attempted.trimPool_returns_idle sparse_reachable.attempted inPools⟩

/-- What a trim returns is what the statistics call returnable and the segments that nothing but
parked chunks hold back. So the statistics are right if and only if a live block lies in every
segment that a parked chunk lies in. -/
theorem Attempted.trimPool_returnable (attempted : Attempted m) (inPools : p ∈ m.pools) :
    ∃ bytes, (m.trimPool p.id).answer = .ok bytes ∧
      bytes = p.heap.usage.returnable +
        segmentBytes * (p.heap.segments.filter p.heap.isHeldBack).length ∧
      (bytes = p.heap.usage.returnable ↔
        ∀ s ∈ p.heap.segments, ∀ c ∈ p.heap.parked, s.contains c.addr = true →
          ∃ b ∈ p.heap.live, s.contains b.addr = true) := by
  obtain ⟨lost, loans, sound⟩ := attempted.sound
  have found := sound.pool?_eq inPools
  obtain ⟨step, trims, trimmed⟩ := sound.trimPool_trims found
  exact ⟨step.answer, congrArg (·.answer) trimmed, (sound.heap found).answer_eq trims,
    (sound.heap found).answer_eq_returnable_iff trims⟩

/-- The statistics call nothing returnable, and yet a segment is returned. -/
theorem sparse_returnable : ∃ p ∈ sparse.pools, p.heap.usage.returnable = 0 ∧
    (sparse.trimPool p.id).answer = .ok 1048576 ∧
    ∃ bytes, (sparse.trimPool p.id).answer = .ok bytes ∧
      bytes = p.heap.usage.returnable +
        segmentBytes * (p.heap.segments.filter p.heap.isHeldBack).length ∧
      (bytes = p.heap.usage.returnable ↔
        ∀ s ∈ p.heap.segments, ∀ c ∈ p.heap.parked, s.contains c.addr = true →
          ∃ b ∈ p.heap.live, s.contains b.addr = true) := by
  obtain ⟨p, inPools, returnable, answer⟩ : ∃ p ∈ sparse.pools, p.heap.usage.returnable = 0 ∧
      (sparse.trimPool p.id).answer = .ok 1048576 := by decide +kernel
  exact ⟨p, inPools, returnable, answer,
    Attempted.trimPool_returnable sparse_reachable.attempted inPools⟩

/-- It is not the case that the statistics foretell what a trim returns. -/
theorem not_returnable_foretells : ¬ ∀ (m : Machine) (p : Pool), Reachable m → p ∈ m.pools →
    (m.trimPool p.id).answer = .ok p.heap.usage.returnable := by
  intro foretells
  let m := Call.runAll
    [.openPool { thread := 0 } {}, .allocate { thread := 0 } (some 1) (.plain 32),
      .releaseBlock { thread := 0 } 1 (SystemHeap.slotBase 0)] (.start [0])
  have reached : Reachable m := (Reachable.start [0]).runAll _ (by decide +kernel)
  obtain ⟨p, inPools, differs⟩ : ∃ p ∈ m.pools,
      (m.trimPool p.id).answer ≠ .ok p.heap.usage.returnable := by decide +kernel
  exact differs (foretells m p reached inPools)

end Machine

end PooledMemory
