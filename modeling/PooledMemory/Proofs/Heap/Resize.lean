import PooledMemory.Proofs.Heap.Release

namespace PooledMemory.Heap

variable {h : Heap} {system : SystemHeap} {rest : List SystemBlock} {hole : List Span}

theorem setSize_live {addr : Nat} {b : LiveBlock} (unique : (h.live.map (·.addr)).Nodup)
    (found : h.block? addr = some b) (size : Nat) :
    (h.setSize addr size).live.Perm ({ b with size } :: (h.removeLive b).live) := by
  obtain ⟨member, rfl⟩ := block?_mem found
  simp only [setSize, found]
  exact Keyed.map_perm LiveBlock.addr unique member

theorem setSize_eq {addr : Nat} {b : LiveBlock} (found : h.block? addr = some b) (size : Nat) :
    (h.setSize addr size).segments = h.segments ∧ (h.setSize addr size).parked = h.parked ∧
      (h.setSize addr size).maxSize = h.maxSize ∧
      (h.setSize addr size).allocated = Word.add (Word.sub h.allocated b.size) size := by
  unfold setSize
  rw [found]
  exact ⟨rfl, rfl, rfl, rfl⟩

/-- The live block at an address has given way to another one of a new size, or nothing is
different. -/
structure Settles (h : Heap) (rest : List SystemBlock) (hole : List Span) (addr chunk : Nat)
    (b : LiveBlock) (step : HeapStep (Option Resized)) : Prop where
  sound : step.heap.Sound step.system rest hole
  maxSize : step.heap.maxSize = h.maxSize
  refused : step.answer = none → SameBooks h step.heap
  resized : ∀ r, step.answer = some r → ∃ new : LiveBlock, new.addr = r.addr ∧ new.size = chunk ∧
    new.align = b.align ∧ (r.moved = false → r.addr = addr) ∧
    step.heap.live.Perm (new :: (h.removeLive b).live)

/-- A block in a segment keeps its address when its place changes its size. -/
theorem Sound.resettle {segments : List Segment} {chunk : Nat} {b : LiveBlock}
    (sound : h.Sound system rest hole) (found : h.block? b.addr = some b)
    (placed : b.dedicated = false)
    (tiles : Tiles segments (⟨b.addr, chunk⟩ :: (hole ++ (h.removeLive b).places)))
    (frames : segments.map (·.frame) = h.segments.map (·.frame)) (bytes : Bytes) :
    Settles h rest hole b.addr chunk b ⟨some ⟨b.addr, false⟩,
      ({ h with segments } : Heap).setSize b.addr chunk, { system with bytes }⟩ := by
  have removed := sound.removeLive found placed
  have moved : ({ h.removeLive b with segments } : Heap).Sound system rest
      (⟨b.addr, chunk⟩ :: hole) := by
    refine ⟨⟨tiles, removed.aligned, removed.counted⟩, removed.below, ?_⟩
    simp only [holdings, frames]
    exact removed.held
  have aligned := sound.aligned b (block?_mem found).1
  have counted := Sound.addLive (b := { b with size := chunk }) placed aligned moved
  have found' : ({ h with segments } : Heap).block? b.addr = some b := found
  obtain ⟨segmentsEq, parkedEq, maxSizeEq, allocatedEq⟩ := setSize_eq found' chunk
  have live := setSize_live (h := { h with segments }) sound.addr_nodup found' chunk
  refine ⟨(counted.congr segmentsEq parkedEq live allocatedEq).withBytes bytes, maxSizeEq, by simp,
    fun r answer => ?_⟩
  cases answer
  exact ⟨{ b with size := chunk }, rfl, rfl, rfl, fun _ => rfl, live⟩

theorem Sound.shrink {chunk : Nat} {b : LiveBlock} (sound : h.Sound system rest hole)
    (found : h.block? b.addr = some b) (placed : b.dedicated = false) (filled : 0 < chunk)
    (smaller : chunk < b.size) :
    ∃ step, h.shrink system b chunk = .ok step ∧ Settles h rest hole b.addr chunk b step := by
  have removed := (sound.removeLive found placed).tiles
  have whole : b.span = ⟨b.addr, chunk + (b.size - chunk)⟩ := by
    rw [Nat.add_sub_cancel' (Nat.le_of_lt smaller)]
    rfl
  rw [whole] at removed
  have split := removed.split filled (Nat.sub_pos_of_lt smaller)
  obtain ⟨segments, returned, tiles, frames⟩ := Tiles.giveUp (h := h) split
  unfold Heap.shrink
  simp only [returned]
  exact ⟨_, rfl, sound.resettle found placed tiles frames _⟩

theorem Sound.growInPlace {chunk : Nat} {b : LiveBlock} {after : Heap}
    (sound : h.Sound system rest hole) (found : h.block? b.addr = some b)
    (placed : b.dedicated = false) (grows : b.size ≤ chunk)
    (grown : h.growInPlace b chunk = some after) :
    Settles h rest hole b.addr chunk b ⟨some ⟨b.addr, false⟩, after, system⟩ := by
  have removed := (sound.removeLive found placed).tiles
  unfold Heap.growInPlace at grown
  split at grown
  · cases grown
  · rename_i i index
    split at grown
    · cases grown
    · rename_i s inSegments
      obtain ⟨t, extended, rfl⟩ := Option.map_eq_some_iff.1 grown
      obtain ⟨tiles, frames⟩ := Tiles.extend (h := h) removed index inSegments grows extended
      exact sound.resettle found placed tiles frames system.bytes

theorem Sound.resizeRegion {chunk : Nat} {b : LiveBlock} (sound : h.Sound system rest hole)
    (found : h.block? b.addr = some b) (own : b.dedicated = true) (filled : 0 < chunk) :
    Settles h rest hole b.addr chunk b (h.resizeRegion system b chunk) := by
  have aligned := sound.aligned b (block?_mem found).1
  unfold Heap.resizeRegion
  split
  · exact ⟨sound, rfl, fun _ => .refl h, by simp⟩
  · rename_i addr after resized
    split at resized
    · have removed := sound.removeRegion found own
      obtain ⟨below, blocks⟩ :=
        removed.below.resize filled (removed.held.trans List.perm_middle) resized
      rw [Nat.max_eq_left aligned] at blocks
      have exchanged : (h.removeLive b).Sound after
          (({ b with addr, size := chunk } : LiveBlock).region :: rest) hole :=
        ⟨removed.toOrderly, below, blocks.trans List.perm_middle.symm⟩
      have counted := Sound.addRegion (b := { b with addr, size := chunk }) own aligned exchanged
      refine ⟨counted.congr rfl rfl (.refl _) rfl, rfl, by simp, fun r answer => ?_⟩
      cases answer
      exact ⟨{ b with addr, size := chunk }, rfl, rfl, rfl, fun still => by simpa using still,
        .refl _⟩
    · cases resized

/-- The old place is given up after the new one is taken, so that for a moment both count. -/
theorem Sound.growElsewhere {chunk : Nat} {b : LiveBlock} (sound : h.Sound system rest hole)
    (found : h.block? b.addr = some b) (filled : 0 < chunk) :
    ∃ step, h.growElsewhere system b chunk = .ok step ∧ Settles h rest hole b.addr chunk b step := by
  have aligned := sound.aligned b (block?_mem found).1
  obtain ⟨step, placed, soundPlaced, refused, issued⟩ := sound.place filled aligned
  unfold Heap.growElsewhere
  rw [placed]
  cases answer : step.answer with
  | none =>
    have books := refused answer
    simp only [answer]
    exact ⟨_, rfl, soundPlaced, books.maxSize, fun _ => books, by simp⟩
  | some addr =>
    obtain ⟨before, books, same⟩ := issued addr answer
    have copied := soundPlaced.withBytes (step.system.bytes.copy b.addr addr b.size)
    obtain ⟨last, released, soundLast, _, live, maxSize⟩ := copied.release b.addr
    have both : step.heap.live = ⟨addr, chunk, b.align, needsRegion chunk b.align⟩ :: h.live := by
      rw [same, ← books.live]
      rfl
    have fresh : addr ≠ b.addr := by
      have unique := soundPlaced.addr_nodup
      rw [both] at unique
      intro here
      exact (List.nodup_cons.1 unique).1
        (List.mem_map.2 ⟨b, (block?_mem found).1, here.symm⟩)
    have limit : last.heap.maxSize = h.maxSize := by
      rw [maxSize, same]
      exact books.maxSize
    simp only [answer, released]
    refine ⟨_, rfl, soundLast, limit, by simp, fun r resized => ?_⟩
    cases resized
    refine ⟨⟨addr, chunk, b.align, needsRegion chunk b.align⟩, rfl, rfl, rfl, by simp, ?_⟩
    rw [live, both, List.filter_cons_of_pos (by simpa using fresh)]
    exact .refl _

/-- Every way to resize a block gives one of the size asked for or leaves the old one alone, and
the larger size is within the budget. -/
theorem Sound.resize {b : LiveBlock} {addr size chunk : Nat} (sound : h.Sound system rest hole)
    (found : h.block? addr = some b) (rounded : chunkSize? size = some chunk) :
    ∃ step, h.resize system addr size = .ok step ∧ Settles h rest hole addr chunk b step ∧
      (step.answer.isSome → b.size < chunk → h.fitsBudget (chunk - b.size) = true) := by
  obtain ⟨member, rfl⟩ := block?_mem found
  have filled := chunkSize?_pos rounded
  unfold Heap.resize
  simp only [found, rounded]
  by_cases same : chunk = b.size
  · rw [if_pos same]
    refine ⟨_, rfl, ⟨sound, rfl, by simp, fun r answer => ?_⟩, by omega⟩
    cases answer
    exact ⟨b, rfl, same.symm, rfl, fun _ => rfl, sound.live_perm found⟩
  rw [if_neg same]
  by_cases excess : b.size < chunk ∧ ¬ h.fitsBudget (chunk - b.size)
  · rw [if_pos excess]
    exact ⟨_, rfl, ⟨sound, rfl, fun _ => .refl h, by simp⟩, by simp⟩
  rw [if_neg excess]
  have fits : b.size < chunk → h.fitsBudget (chunk - b.size) = true := by
    intro grows
    by_contra refused
    exact excess ⟨grows, refused⟩
  cases kind : b.dedicated with
  | true => exact ⟨_, rfl, sound.resizeRegion found kind filled, fun _ => fits⟩
  | false =>
    by_cases smaller : chunk < b.size
    · obtain ⟨step, shrunk, settles⟩ := sound.shrink found kind filled smaller
      simp only [Bool.false_eq_true, if_false, if_pos smaller]
      exact ⟨step, shrunk, settles, fun _ => fits⟩
    · simp only [Bool.false_eq_true, if_false, if_neg smaller]
      cases grown : h.growInPlace b chunk with
      | some after =>
        exact ⟨_, rfl, sound.growInPlace found kind (Nat.not_lt.1 smaller) grown, fun _ => fits⟩
      | none =>
        obtain ⟨step, moved, settles⟩ := sound.growElsewhere found filled
        exact ⟨step, moved, settles, fun _ => fits⟩

theorem resize_of_none {addr size : Nat}
    (missing : h.block? addr = none ∨ chunkSize? size = none) :
    h.resize system addr size = .ok ⟨none, h, system⟩ := by
  unfold Heap.resize
  rcases missing with missing | missing
  · simp only [missing]
  · cases h.block? addr with
    | none => rfl
    | some b => simp only [missing]

theorem Settles.inBudget {addr chunk : Nat} {b : LiveBlock} {step : HeapStep (Option Resized)}
    (sound : h.Sound system rest hole) (found : h.block? addr = some b)
    (settles : Settles h rest hole addr chunk b step) (budget : h.InBudget)
    (fits : step.answer.isSome → b.size < chunk → h.fitsBudget (chunk - b.size) = true) :
    step.heap.InBudget := by
  cases answer : step.answer with
  | none => exact (settles.refused answer).inBudget budget
  | some r =>
    obtain ⟨new, _, size, _, _, live⟩ := settles.resized r answer
    have old := sound.live_perm found
    have within := budget.within
    have fits' : b.size < chunk → h.spent + (chunk - b.size) ≤ h.maxSize := fun grows =>
      (sound.fitsBudget_iff budget _).1 (fits (by simp [answer]) grows)
    refine ⟨settles.maxSize ▸ budget.limit, ?_⟩
    rw [settles.maxSize]
    rw [spent, LiveBlock.bytes_perm old, LiveBlock.bytes_cons, old.length_eq] at within fits'
    rw [spent, LiveBlock.bytes_perm live, LiveBlock.bytes_cons, live.length_eq, size]
    simp only [List.length_cons] at *
    omega

end PooledMemory.Heap
