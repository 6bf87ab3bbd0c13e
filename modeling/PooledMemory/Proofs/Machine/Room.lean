import PooledMemory.Proofs.Heap.FirstFit
import PooledMemory.Proofs.Machine.Balance

namespace PooledMemory

namespace Machine

variable {m : Machine} {lost : List (Address × PoolId)} {loans : List SystemBlock} {p : Pool}
  {caller : Caller} {named : Option PoolId} {request : Request} {step : HeapStep (Option Address)}

/-- What a pool makes of a request: its heap takes `step`, of which nothing but the answer and the
memory reaches the state `after`. -/
structure Decides (m : Machine) (p : Pool) (request : Request) (answer : Except Failure Address)
    (step : HeapStep (Option Address)) (after : Machine) : Prop where
  allocated : p.heap.allocate m.system request.size request.align = .ok step
  answered : answer = match step.answer with
    | some addr => .ok addr
    | none => .error (.outOfMemory request.size (some p.id))
  stored : after.pool? p.id = some { p with heap := step.heap }
  below : after.system.blocks = step.system.blocks

theorem Sound.allocateIn_decides (sound : m.Sound lost loans) (found : m.pool? p.id = some p)
    (isLive : p.phase = .live)
    (allocated : p.heap.allocate m.system request.size request.align = .ok step) :
    ∃ answer after, m.allocateIn p.id request = .ok answer after ∧
      m.Decides p request answer step after := by
  have placing := sound.allocateIn_placing p.id request
  generalize served : m.allocateIn p.id request = o at placing
  cases placing with
  | unavailable =>
    -- a live pool never answers so
    simp only [Machine.allocateIn, found, isLive, ne_eq, not_true_eq_false, if_false, allocated]
      at served
    split at served
    · cases served
    · split at served
      · cases served
      · cases served
  | refused found' _ allocated' _ answer _ =>
    cases found.symm.trans found'
    cases allocated.symm.trans allocated'
    exact ⟨_, _, rfl, allocated, by rw [answer], pool?_putHeap _ _ found, rfl⟩
  | placed tags bytes events found' _ allocated' _ answer _ _ _ =>
    cases found.symm.trans found'
    cases allocated.symm.trans allocated'
    exact ⟨_, _, rfl, allocated, by rw [answer], pool?_putHeap _ { step.system with bytes } found, rfl⟩

/-- A request to a live pool, named or current, fails if and only if its size cannot be counted, the
budget does not allow it, or there is no place for the block: no region for a large or strictly
aligned one, and for any other one neither a parked chunk, nor free bytes, nor a new segment. The
system heap is asked for a segment only if the memory of the pool does not serve, and a segment that
it grants always does. The memory of the pool serves, apart from parked chunks, if enough aligned bytes
of a segment are in no block in use. -/
theorem Attempted.allocate_fails_iff (attempted : Attempted m) (inPools : p ∈ m.pools)
    (isLive : p.phase = .live) (routed : (m.target caller named).1 = .pool p.id) :
    ∃ answer step after, m.allocate caller named request = .ok answer after ∧
      m.Decides p request answer step after ∧
      ((∃ failure, answer = .error failure) ↔
        p.heap.Refuses m.system request.size request.align) ∧
      p.heap.Spares m.system (wholeSize request.size) (max request.align granule)
        (p.heap.allocate · request.size request.align) step ∧
      (p.heap.Affords (wholeSize request.size) (max request.align granule) ↔
        (max request.align granule = granule ∧ ∃ c ∈ p.heap.parked, c.size = wholeSize request.size) ∨
        ∃ a, Heap.Unoccupied p.heap.segments (LiveBlock.places p.heap.live) (wholeSize request.size)
          (max request.align granule) a) := by
  obtain ⟨lost, loans, sound⟩ := attempted.sound
  obtain ⟨threads, kept⟩ := target_machine m caller named
  have found := sound.pool?_eq inPools
  obtain ⟨step, allocated, refuses, spares⟩ := (sound.heap found).allocate_decides
    (attempted.tallied p.id p found) (sound.budgets p inPools).1 request.size request.align
  obtain ⟨answer, after, served, _, answered, stored, below⟩ :=
    (sound.withThreads threads).allocateIn_decides found isLive allocated
  refine ⟨answer, step, after, ?_, ⟨allocated, answered, stored, below⟩, ?_, spares,
    (sound.heap found).affords_iff (wholeSize_pos _)⟩
  · simp only [Machine.allocate, routed, kept, serve, served]
  · rw [← refuses, answered]
    cases step.answer with
    | none => simp
    | some addr => simp

/-- A pool has no place for half of the address space. -/
theorem busy_allocate_fails : ∃ p ∈ busy.pools, p.phase = .live ∧
    (busy.target { thread := 0 } none).1 = .pool p.id ∧
    (busy.allocate { thread := 0 } none (.plain 9223372036854775808)).answer =
      .ok (.error (.outOfMemory 9223372036854775808 (some p.id))) ∧
    ∃ answer step after,
      busy.allocate { thread := 0 } none (.plain 9223372036854775808) = .ok answer after ∧
      busy.Decides p (.plain 9223372036854775808) answer step after ∧
      ((∃ failure, answer = .error failure) ↔
        p.heap.Refuses busy.system 9223372036854775808 granule) ∧
      p.heap.Spares busy.system (wholeSize 9223372036854775808) (max granule granule)
        (p.heap.allocate · 9223372036854775808 granule) step ∧
      (p.heap.Affords (wholeSize 9223372036854775808) (max granule granule) ↔
        (max granule granule = granule ∧ ∃ c ∈ p.heap.parked, c.size = wholeSize 9223372036854775808) ∨
        ∃ a, Heap.Unoccupied p.heap.segments (LiveBlock.places p.heap.live)
          (wholeSize 9223372036854775808) (max granule granule) a) := by
  obtain ⟨p, inPools, isLive, routed, answer⟩ : ∃ p ∈ busy.pools, p.phase = .live ∧
      (busy.target { thread := 0 } none).1 = .pool p.id ∧
      (busy.allocate { thread := 0 } none (.plain 9223372036854775808)).answer =
        .ok (.error (.outOfMemory 9223372036854775808 (some p.id))) := by decide +kernel
  exact ⟨p, inPools, isLive, routed, answer,
    Attempted.allocate_fails_iff busy_reachable.attempted inPools isLive routed⟩

end Machine

end PooledMemory
