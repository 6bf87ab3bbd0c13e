import PooledMemory.Proofs.Machine.Reachable

namespace PooledMemory

namespace Machine

variable {m : Machine} {lost : List (Address × PoolId)} {loans : List SystemBlock} {p : Pool}

theorem Sound.books (sound : m.Sound lost loans) (inPools : p ∈ m.pools) :
    p.heap.allocated = sumBy (·.size) p.heap.live ∧
      p.heap.footprint = sumBy (·.size) p.heap.live + p.heap.live.length * blockOverhead ∧
      sumBy (·.size) p.heap.live + p.heap.live.length * blockOverhead ≤ p.settings.maxSize ∧
      p.settings.maxSize < wordSize := by
  obtain ⟨budget, limit⟩ := sound.budgets p inPools
  have heap := sound.heap (sound.pool?_eq inPools)
  refine ⟨heap.allocated_eq budget, heap.footprint_eq budget, ?_, ?_⟩
  · rw [← limit]
    exact budget.within
  · rw [← limit]
    exact budget.limit

/-- In all states that programs reach, with failed calls or without, the counters of a pool are the
sums that they stand for, and these stay in its budget. -/
theorem Attempted.books_balance (attempted : Attempted m) : ∀ p ∈ m.pools,
    p.heap.allocated = sumBy (·.size) p.heap.live ∧
      p.heap.footprint = sumBy (·.size) p.heap.live + p.heap.live.length * blockOverhead ∧
      sumBy (·.size) p.heap.live + p.heap.live.length * blockOverhead ≤ p.settings.maxSize ∧
      p.settings.maxSize < wordSize := by
  obtain ⟨lost, loans, sound⟩ := attempted.sound
  exact fun p inPools => sound.books inPools

/-- The books balance in two pools after a block of one was released into the other. -/
theorem books_after_rejection :
    let m := (busy.free { thread := 0 } (some 2) (SystemHeap.slotBase 3 + 352)).machine
    (m.pools.map fun p => (p.heap.allocated, p.heap.footprint)) = [(200112, 200144), (5008, 5024)] ∧
      ∀ p ∈ m.pools,
        p.heap.allocated = sumBy (·.size) p.heap.live ∧
        p.heap.footprint = sumBy (·.size) p.heap.live + p.heap.live.length * blockOverhead ∧
        sumBy (·.size) p.heap.live + p.heap.live.length * blockOverhead ≤ p.settings.maxSize ∧
        p.settings.maxSize < wordSize := by
  refine ⟨by decide +kernel, ?_⟩
  have stopped : (busy.free { thread := 0 } (some 2) (SystemHeap.slotBase 3 + 352)).answer =
      .error (.wrongOwner (SystemHeap.slotBase 3 + 352) 1) := by decide +kernel
  exact Attempted.books_balance (.stopped (.free _ _ _) busy_reachable.attempted stopped)

end Machine

end PooledMemory
