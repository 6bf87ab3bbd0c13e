import PooledMemory.Proofs.Heap.InPlace
import PooledMemory.Proofs.Machine.Room

namespace PooledMemory

namespace Machine

variable {m : Machine} {lost : List (Address × PoolId)} {loans : List SystemBlock} {p : Pool}
  {b : LiveBlock} {addr : Address} {size chunk : Nat} {step : HeapStep (Option Resized)}

/-- A pool answers where its heap has the block now, and keeps what the heap leaves behind. -/
theorem Sound.resizeIn_answers (sound : m.Sound lost loans) (owned : m.owner? addr = some p.id)
    (found : m.pool? p.id = some p) (resized : p.heap.resize m.system addr size = .ok step) :
    ∃ after, m.resizeIn p.id addr size = .ok (step.answer.map (·.addr)) after ∧
      after.pool? p.id = some { p with heap := step.heap } ∧ after.system = step.system := by
  have resizing := sound.resizeIn_resizing owned size
  have stored := pool?_putHeap step.heap step.system found
  generalize m.resizeIn p.id addr size = o at resizing
  cases resizing with
  | refused found' _ resized' _ answer _ _ =>
    cases found.symm.trans found'
    cases resized.symm.trans resized'
    exact ⟨_, by rw [answer]; rfl, stored, rfl⟩
  | resized tags found' _ _ resized' _ answer _ =>
    cases found.symm.trans found'
    cases resized.symm.trans resized'
    exact ⟨{ m.putHeap p.id step.heap step.system with tags }, by rw [answer]; rfl, stored, rfl⟩

/-- The record of a block that stays where it is stays, too. -/
theorem resizeIn_of_stays (found : m.pool? p.id = some p)
    (resized : p.heap.resize m.system addr size = .ok step)
    (answer : step.answer = some ⟨addr, false⟩) :
    m.resizeIn p.id addr size = .ok (some addr) (m.putHeap p.id step.heap step.system) := by
  simp only [Machine.resizeIn, found, resized, answer, Bool.false_eq_true, if_false]

/-- A live block in a segment of any pool, resized to what the budget allows, stays where it is if
and only if it does not need more bytes or all bytes that it needs are free in its segment, and one
free range tells. Then these bytes, or those that it gives up, are all that changes hands. Otherwise
it moves, or there is no place for it. -/
theorem Reachable.resizeBlock_stays_iff (reached : Reachable m) (inPools : p ∈ m.pools)
    (live : b ∈ p.heap.live) (placed : b.dedicated = false) (rounded : chunkSize? size = some chunk)
    (fits : b.size < chunk → p.heap.footprint + (chunk - b.size) ≤ p.heap.maxSize) :
    ∃ i s step after, p.heap.segments[i]? = some s ∧ s.contains b.addr = true ∧
      m.resizeBlock p.id b.addr size = .ok (step.answer.map (·.addr)) after ∧
      (step.answer.map (·.addr) = some b.addr ↔
        chunk ≤ b.size ∨ s.AllFree ⟨b.addr + b.size, chunk - b.size⟩) ∧
      p.heap.StaysOrMoves m.system b i s chunk step ∧
      (step.answer = some ⟨b.addr, false⟩ → after = m.putHeap p.id step.heap step.system) ∧
      after.pool? p.id = some { p with heap := step.heap } ∧ after.system = step.system := by
  obtain ⟨loans, sound⟩ := reached.sound
  have found := sound.pool?_eq inPools
  have heap := sound.heap found
  have budget := (sound.budgets p inPools).1
  have owned := sound.owner?_of_live ⟨p, inPools, rfl, b, live, rfl⟩
  have resizes : m.resizeBlock p.id b.addr size = m.resizeIn p.id b.addr size := if_pos owned
  rw [heap.footprint_eq budget] at fits
  obtain ⟨i, s, step, inSegments, starts, resized, decides⟩ :=
    heap.resize_decides (reached.attempted.tallied p.id p found) live placed rounded
      fun grows => (heap.fitsBudget_iff budget _).2 (fits grows)
  obtain ⟨after, answers, stored, below⟩ := sound.resizeIn_answers owned found resized
  refine ⟨i, s, step, after, inSegments, starts, resizes.trans answers, ?_, decides, ?_, stored, below⟩
  · rw [← decides.stays, Option.map_eq_some_iff]
    constructor
    · rintro ⟨r, answer, here⟩
      by_contra moves
      exact ((decides.moves moves).2 r answer).2 here
    · intro answer
      exact ⟨_, answer, rfl⟩
  · intro answer
    rw [resizeIn_of_stays found resized answer] at answers
    exact (congrArg (·.machine) answers).symm

/-- The last block of a segment grows over the free bytes behind it. -/
theorem busy_resizeBlock_stays : ∃ p ∈ busy.pools, ∃ b ∈ p.heap.live,
    (b.dedicated = false ∧ chunkSize? 1000 = some 1008 ∧
      (b.size < 1008 → p.heap.footprint + (1008 - b.size) ≤ p.heap.maxSize)) ∧
    (busy.resizeBlock p.id b.addr 1000).answer = .ok (some b.addr) ∧
    ∃ i s step after, p.heap.segments[i]? = some s ∧ s.contains b.addr = true ∧
      busy.resizeBlock p.id b.addr 1000 = .ok (step.answer.map (·.addr)) after ∧
      (step.answer.map (·.addr) = some b.addr ↔
        1008 ≤ b.size ∨ s.AllFree ⟨b.addr + b.size, 1008 - b.size⟩) ∧
      p.heap.StaysOrMoves busy.system b i s 1008 step ∧
      (step.answer = some ⟨b.addr, false⟩ → after = busy.putHeap p.id step.heap step.system) ∧
      after.pool? p.id = some { p with heap := step.heap } ∧ after.system = step.system := by
  obtain ⟨p, inPools, b, live, assumptions, answer⟩ : ∃ p ∈ busy.pools, ∃ b ∈ p.heap.live,
      (b.dedicated = false ∧ chunkSize? 1000 = some 1008 ∧
        (b.size < 1008 → p.heap.footprint + (1008 - b.size) ≤ p.heap.maxSize)) ∧
      (busy.resizeBlock p.id b.addr 1000).answer = .ok (some b.addr) := by decide +kernel
  obtain ⟨placed, rounded, fits⟩ := assumptions
  exact ⟨p, inPools, b, live, ⟨placed, rounded, fits⟩, answer,
    Reachable.resizeBlock_stays_iff busy_reachable inPools live placed rounded fits⟩

end Machine

end PooledMemory
