import PooledMemory.Proofs.Machine.Reachable

namespace PooledMemory

namespace Machine

variable {m : Machine} {lost : List (Address × PoolId)} {loans : List SystemBlock} {id : PoolId}

/-- What is recorded about blocks is what is live in the pools. -/
structure Recorded (m : Machine) : Prop where
  agree : m.tags.pairs.Perm m.livePairs
  unique : (m.livePairs.map (·.1)).Nodup
  owned : ∀ addr id, m.owner? addr = some id ↔ (m.blockSize? id addr).isSome = true
  counted : m.tags.count = sumBy (·.heap.live.length) m.pools
  empty : m.tags.isEmpty = true ↔ ∀ p ∈ m.pools, p.heap.live = []
  ascending : m.liveBlocks.Pairwise fun r s => r.addr < s.addr
  listed : (m.liveBlocks.map fun r => (r.addr, r.size, r.pool)).Perm
    (m.pools.flatMap fun p => p.heap.live.map fun b => (b.addr, b.size, p.id))
  usable : ∀ r ∈ m.liveBlocks, m.sizeOf r.addr = r.size

theorem blockSize?_isSome {addr : Address} : (m.blockSize? id addr).isSome = true ↔
    ∃ p b, m.pool? id = some p ∧ p.heap.block? addr = some b := by
  rw [blockSize?]
  cases m.pool? id with
  | none => simp
  | some p => simp [Heap.sizeOf?, Option.isSome_iff_exists]

theorem Sound.blockSize?_eq (sound : m.Sound lost loans) {p : Pool} {b : LiveBlock}
    (inPools : p ∈ m.pools) (inLive : b ∈ p.heap.live) : m.blockSize? p.id b.addr = some b.size := by
  have found := sound.pool?_eq inPools
  rw [blockSize?, found, Option.bind_some, Heap.sizeOf?, (sound.heap found).block?_eq inLive]
  rfl

theorem Sound.owned (sound : m.Sound [] loans) (addr : Address) (id : PoolId) :
    m.owner? addr = some id ↔ (m.blockSize? id addr).isSome = true := by
  rw [blockSize?_isSome, ← sound.mem_livePairs_iff]
  exact ⟨sound.live_of_tagged, fun live => sound.owner?_of_live (mem_livePairs.1 live)⟩

theorem Sound.tags_length (sound : m.Sound [] loans) :
    m.tags.toList.length = sumBy (·.heap.live.length) m.pools := by
  have lengths := sound.agree.length_eq
  rw [List.append_nil, TagTable.pairs, List.length_map, livePairs, ← sumBy_length] at lengths
  simpa only [Pool.pairs, List.length_map] using lengths

theorem Sound.empty (sound : m.Sound [] loans) :
    m.tags.isEmpty = true ↔ ∀ p ∈ m.pools, p.heap.live = [] := by
  have noPairs : m.livePairs = [] ↔ m.tags.toList = [] := by
    have lengths := sound.agree.length_eq
    rw [List.append_nil, TagTable.pairs, List.length_map] at lengths
    rw [← List.length_eq_zero_iff, ← lengths, List.length_eq_zero_iff]
  rw [sound.tags.isEmpty_iff, ← noPairs, livePairs, List.flatMap_eq_nil_iff]
  refine forall₂_congr fun p _ => ?_
  rw [Pool.pairs, List.map_eq_nil_iff]

/-- Every live block is listed once, with its size and its pool. -/
theorem Sound.listed (sound : m.Sound [] loans) :
    (m.liveBlocks.map fun r => (r.addr, r.size, r.pool)).Perm
      (m.pools.flatMap fun p => p.heap.live.map fun b => (b.addr, b.size, p.id)) := by
  let measure : Address × PoolId → Option (Address × Nat × PoolId) := fun e =>
    (m.blockSize? e.2 e.1).map fun size => (e.1, size, e.2)
  have sorted : (m.liveBlocks.map fun r => (r.addr, r.size, r.pool)).Perm
      (m.tags.pairs.filterMap measure) := by
    refine ((List.mergeSort_perm _ _).map _).trans (.of_eq ?_)
    rw [List.map_filterMap, TagTable.pairs, List.filterMap_map]
    refine List.filterMap_congr fun e _ => ?_
    simp [measure, Option.map_map, Function.comp_def]
  have agree := sound.agree
  rw [List.append_nil] at agree
  refine (sorted.trans (agree.filterMap measure)).trans (.of_eq ?_)
  rw [livePairs, List.filterMap_flatMap]
  refine List.flatMap_congr fun p inPools => ?_
  rw [Pool.pairs, List.filterMap_map]
  have each : ∀ b ∈ p.heap.live, (measure ∘ fun b => (b.addr, p.id)) b =
      (some ∘ fun b : LiveBlock => (b.addr, b.size, p.id)) b := by
    intro b inLive
    simp only [Function.comp_apply, measure, sound.blockSize?_eq inPools inLive, Option.map_some]
  rw [List.filterMap_congr each, List.filterMap_eq_map]

theorem Sound.ascending (sound : m.Sound [] loans) :
    m.liveBlocks.Pairwise fun r s => r.addr < s.addr := by
  have ordered : m.liveBlocks.Pairwise fun r s => r.addr ≤ s.addr := by
    refine (List.pairwise_mergeSort ?_ ?_ _).imp fun le => of_decide_eq_true le
    · intro r s t le le'
      simp only [decide_eq_true_eq] at le le' ⊢
      exact Nat.le_trans le le'
    · intro r s
      simpa using Nat.le_total r.addr s.addr
  have unique : (m.liveBlocks.map (·.addr)).Nodup := by
    have starts := (sound.listed.map (·.1)).nodup_iff.2 ?_
    · rwa [List.map_map] at starts
    · have live := sound.addr_nodup
      rw [livePairs, List.map_flatMap] at live
      rw [List.map_flatMap]
      simpa [Pool.pairs, Function.comp_def] using live
  refine ordered.imp₂ ?_ (List.pairwise_map.1 unique)
  intro r s le other
  exact Nat.lt_of_le_of_ne le other

theorem Sound.usable (sound : m.Sound [] loans) {r : BlockReport} (listed : r ∈ m.liveBlocks) :
    m.sizeOf r.addr = r.size := by
  have member := sound.listed.subset (List.mem_map_of_mem listed)
  obtain ⟨p, inPools, inside⟩ := List.mem_flatMap.1 member
  obtain ⟨b, inLive, same⟩ := List.mem_map.1 inside
  obtain ⟨start, size, _⟩ : b.addr = r.addr ∧ b.size = r.size ∧ p.id = r.pool := by
    simpa using same
  have owner := sound.owner?_of_live ⟨p, inPools, rfl, b, inLive, start⟩
  rw [sizeOf, owner, ← start]
  simp only [sound.blockSize?_eq inPools inLive, Option.getD_some, size]

/-- In all states that programs reach, the records and the pools agree. -/
theorem Reachable.recorded (reached : Reachable m) : m.Recorded := by
  obtain ⟨loans, sound⟩ := reached.sound
  refine ⟨?_, sound.addr_nodup, sound.owned, sound.tags.counted.trans sound.tags_length, sound.empty,
    sound.ascending, sound.listed, fun r listed => sound.usable listed⟩
  have agree := sound.agree
  rwa [List.append_nil] at agree

/-- A region that has been resized where it is, if the system heap does so, is still recorded. -/
theorem busy_recorded :
    let resized := Call.runAll [.reallocate { thread := 0 } none SystemHeap.firstBlock 150000] roomy
    ((busy.tags.count = 3 ∧ busy.owner? (SystemHeap.slotBase 3 + 352) = some 1) ∧ busy.Recorded) ∧
      (resized.owner? SystemHeap.firstBlock = some 1 ∧
        resized.sizeOf SystemHeap.firstBlock = 150000) ∧ resized.Recorded :=
  ⟨⟨by decide +kernel, Reachable.recorded busy_reachable⟩, by decide +kernel,
    Reachable.recorded (roomy_reachable.runAll _ (by decide +kernel))⟩

end Machine

end PooledMemory
