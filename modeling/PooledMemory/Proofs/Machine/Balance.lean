import PooledMemory.Proofs.Machine.Journal

namespace PooledMemory

namespace Pool

variable {refits : Prop} {block : Option Address} {p q : Pool} {new : List Event}

/-- Whatever a pool does, it keeps count of its memory. -/
theorem Deed.tallied (deed : p.Deed refits block q new) (tallied : p.heap.Tallied) :
    q.heap.Tallied := by
  induction deed with
  | rests _ heap => exact heap ▸ tallied
  | serves _ _ _ allocated heap _ => exact heap ▸ tallied.allocate allocated
  | resizes _ _ sound resized heap => exact heap ▸ tallied.resize sound resized
  | releases _ sound released heap => exact heap ▸ tallied.release sound released
  | trims _ _ _ trimmed heap _ => exact heap ▸ tallied.trim trimmed
  | defers _ _ _ heap _ => exact heap ▸ tallied
  | ends _ _ _ heap => exact heap ▸ tallied.releaseAll _
  | follows _ _ _ _ sound released heap =>
    exact heap ▸ (tallied.release sound released).releaseAll _
  | returns _ _ _ _ sound released heap ih => exact heap ▸ ih.release sound released

end Pool

namespace Machine

variable {m after : Machine} {lost : List (Address × PoolId)} {loans : List SystemBlock}
  {refits : PoolId → Prop} {block : Option Address} {p : Pool}

/-- Every pool keeps count of its memory. -/
def Tallied (m : Machine) : Prop := ∀ id p, m.pool? id = some p → p.heap.Tallied

theorem Does.tallied (does : Does refits block m after) (tallied : m.Tallied) : after.Tallied := by
  intro id q found
  obtain ⟨new, _, fate⟩ := does id
  have before := tallied id
  rw [found] at fate
  generalize m.pool? id = known at before fate
  cases fate with
  | opened _ heap => exact heap ▸ Heap.empty_tallied _
  | goesOn _ deed => exact deed.tallied (before _ rfl)

theorem Attempted.tallied (attempted : Attempted m) : m.Tallied :=
  attempted.of_does (fun _ _ _ found => nomatch found) Does.tallied

/-- In all states that programs reach, whatever they pass, the statistics of every pool agree with
each other and with what the pool holds. -/
theorem Attempted.statistics_balance (attempted : Attempted m) (inPools : p ∈ m.pools) :
    p.heap.Balanced := by
  obtain ⟨_, _, sound⟩ := attempted.sound
  have found := sound.pool?_eq inPools
  exact (sound.heap found).balanced (attempted.tallied p.id p found) (sound.budgets p inPools).1

/-- A pool holds a segment and a region, and a released chunk is parked in the segment. -/
theorem busy_balanced : ∃ p ∈ busy.pools,
    (p.heap.usage.segmentBytes = 1048576 ∧ p.heap.usage.regionBytes = 200000 ∧
      p.heap.usage.parkedBytes = 48 ∧ p.heap.usage.allocated = 200112) ∧ p.heap.Balanced := by
  obtain ⟨p, inPools, values⟩ : ∃ p ∈ busy.pools, p.heap.usage.segmentBytes = 1048576 ∧
      p.heap.usage.regionBytes = 200000 ∧ p.heap.usage.parkedBytes = 48 ∧
      p.heap.usage.allocated = 200112 := by decide +kernel
  exact ⟨p, inPools, values, Attempted.statistics_balance busy_reachable.attempted inPools⟩

end Machine

end PooledMemory
