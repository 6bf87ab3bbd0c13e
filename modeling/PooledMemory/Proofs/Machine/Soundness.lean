import PooledMemory.Machine.Basic
import PooledMemory.Proofs.Heap.Resize
import PooledMemory.Proofs.TagTable

namespace PooledMemory

/-- The address of each live block of the pool, with the pool. -/
def Pool.pairs (p : Pool) : List (Address × PoolId) := p.heap.live.map fun b => (b.addr, p.id)

/-- The address of each recorded block, with the pool that issued it. -/
def TagTable.pairs (t : TagTable) : List (Address × PoolId) := t.toList.map fun e => (e.1, e.2.pool)

namespace Machine

def others (m : Machine) (id : PoolId) : List Pool := m.pools.filter (·.id != id)

/-- The blocks of the system heap that all pools but one hold. -/
def rest (m : Machine) (id : PoolId) : List SystemBlock := (m.others id).flatMap (·.heap.holdings)

def livePairs (m : Machine) : List (Address × PoolId) := m.pools.flatMap (·.pairs)

/-- The pools hold disjoint parts of the memory of the system heap, which they keep in order and
within their budgets; `loans` is the rest of it. The live blocks are the recorded ones and those in
`lost`. -/
structure Sound (m : Machine) (lost : List (Address × PoolId)) (loans : List SystemBlock) :
    Prop where
  below : m.system.Sound
  held : m.system.blocks.Perm (m.pools.flatMap (·.heap.holdings) ++ loans)
  heaps : ∀ p ∈ m.pools, p.heap.Orderly []
  budgets : ∀ p ∈ m.pools, p.heap.InBudget ∧ p.heap.maxSize = p.settings.maxSize
  ids : (m.pools.map (·.id)).Nodup
  numbered : ∀ p ∈ m.pools, p.id < m.nextId
  tags : m.tags.Sound
  agree : (m.tags.pairs ++ lost).Perm m.livePairs

variable {m after : Machine} {lost lost' : List (Address × PoolId)} {loans loans' : List SystemBlock}
  {id : PoolId} {p new : Pool}

theorem start_sound (slots : List Nat) : (start slots).Sound [] [] where
  below := SystemHeap.start_sound slots
  held := .refl _
  heaps := by simp [start]
  budgets := by simp [start]
  ids := .nil
  numbered := by simp [start]
  tags := TagTable.empty_sound
  agree := .refl _

/-- Only the system heap, the pools, their numbers and the tags matter. -/
theorem Sound.congr (sound : m.Sound lost loans) (below : after.system.Sound)
    (blocks : after.system.blocks = m.system.blocks) (pools : after.pools = m.pools)
    (nextId : after.nextId = m.nextId) (tags : after.tags = m.tags) : after.Sound lost loans where
  below := below
  held := by
    rw [blocks, pools]
    exact sound.held
  heaps := pools ▸ sound.heaps
  budgets := pools ▸ sound.budgets
  ids := pools ▸ sound.ids
  numbered := by
    rw [pools, nextId]
    exact sound.numbered
  tags := tags ▸ sound.tags
  agree := by
    rw [tags, livePairs, pools]
    exact sound.agree

theorem Sound.frame (sound : m.Sound lost loans) (system : after.system = m.system)
    (pools : after.pools = m.pools) (nextId : after.nextId = m.nextId) (tags : after.tags = m.tags) :
    after.Sound lost loans :=
  sound.congr (system ▸ sound.below) (congrArg _ system) pools nextId tags

theorem Sound.withBytes (sound : m.Sound lost loans) (bytes : Bytes) :
    { m with system := { m.system with bytes } }.Sound lost loans :=
  sound.congr (sound.below.restrict (.refl _) rfl rfl) rfl rfl rfl rfl

theorem Sound.withLost (sound : m.Sound lost loans) (perm : lost.Perm lost') :
    m.Sound lost' loans where
  below := sound.below
  held := sound.held
  heaps := sound.heaps
  budgets := sound.budgets
  ids := sound.ids
  numbered := sound.numbered
  tags := sound.tags
  agree := (perm.symm.append_left _).trans sound.agree

theorem pool?_mem (found : m.pool? id = some p) : p ∈ m.pools ∧ p.id = id :=
  ⟨List.mem_of_find?_eq_some found, pool?_id found⟩

/-- No two pools have the same number. -/
theorem Sound.eq_of_id {q : Pool} (sound : m.Sound lost loans) (inPools : p ∈ m.pools)
    (inPools' : q ∈ m.pools) (same : p.id = q.id) : p = q :=
  List.inj_on_of_nodup_map sound.ids inPools inPools' same

theorem Sound.pool?_eq (sound : m.Sound lost loans) (member : p ∈ m.pools) :
    m.pool? p.id = some p := by
  obtain ⟨q, found⟩ : ∃ q, m.pool? p.id = some q :=
    Option.isSome_iff_exists.1 (List.find?_isSome.2 ⟨p, member, by simp⟩)
  obtain ⟨inPools, same⟩ := pool?_mem found
  rw [found, sound.eq_of_id inPools member same]

theorem Sound.pools_perm (sound : m.Sound lost loans) (found : m.pool? id = some p) :
    m.pools.Perm (p :: m.others id) := by
  obtain ⟨member, rfl⟩ := pool?_mem found
  exact Keyed.perm_cons_filter Pool.id sound.ids member

theorem Sound.updatePool_perm (sound : m.Sound lost loans) (found : m.pool? id = some p)
    (f : Pool → Pool) : (m.updatePool id f).pools.Perm (f p :: m.others id) := by
  obtain ⟨member, rfl⟩ := pool?_mem found
  exact Keyed.map_perm Pool.id sound.ids member

theorem pool?_putHeap (heap : Heap) (system : SystemHeap) (found : m.pool? id = some p) :
    (m.putHeap id heap system).pool? id = some { p with heap } := by
  refine (pool?_updatePool (f := ({ · with heap })) fun _ => rfl).trans ?_
  rw [found, Option.map_some, if_pos (pool?_mem found).2]

theorem Sound.livePairs_perm (sound : m.Sound lost loans) (found : m.pool? id = some p) :
    m.livePairs.Perm (p.pairs ++ (m.others id).flatMap (·.pairs)) := by
  have perm := (sound.pools_perm found).flatMap_right (·.pairs)
  rwa [List.flatMap_cons] at perm

/-- Each pool is a sound heap beside all the others. -/
theorem Sound.heap (sound : m.Sound lost loans) (found : m.pool? id = some p) :
    p.heap.Sound m.system (m.rest id ++ loans) [] where
  toOrderly := sound.heaps p (pool?_mem found).1
  below := sound.below
  held := by
    have perm := (sound.pools_perm found).flatMap_right (·.heap.holdings)
    rw [List.flatMap_cons] at perm
    rw [← List.append_assoc]
    exact sound.held.trans (perm.append_right _)

/-- One pool may be exchanged for another one of the same number that is sound beside the others. -/
theorem Sound.exchange (sound : m.Sound lost loans) (found : m.pool? id = some p)
    (pools : after.pools.Perm (new :: m.others id)) (nextId : after.nextId = m.nextId)
    (same : new.id = p.id) (heap : new.heap.Sound after.system (m.rest id ++ loans') [])
    (budget : new.heap.InBudget ∧ new.heap.maxSize = new.settings.maxSize)
    (tags : after.tags.Sound)
    (agree : (after.tags.pairs ++ lost').Perm (new.pairs ++ (m.others id).flatMap (·.pairs))) :
    after.Sound lost' loans' where
  below := heap.below
  held := by
    have perm := pools.flatMap_right (·.heap.holdings)
    rw [List.flatMap_cons] at perm
    refine heap.held.trans ?_
    rw [← List.append_assoc]
    exact perm.symm.append_right _
  heaps := fun q member => by
    rcases List.mem_cons.1 (pools.subset member) with rfl | other
    · exact heap.toOrderly
    · exact sound.heaps q (List.mem_of_mem_filter other)
  budgets := fun q member => by
    rcases List.mem_cons.1 (pools.subset member) with rfl | other
    · exact budget
    · exact sound.budgets q (List.mem_of_mem_filter other)
  ids := by
    have before := ((sound.pools_perm found).map (·.id)).nodup_iff.1 sound.ids
    refine (pools.map (·.id)).nodup_iff.2 ?_
    rw [List.map_cons, same]
    exact before
  numbered := fun q member => by
    rw [nextId]
    rcases List.mem_cons.1 (pools.subset member) with rfl | other
    · rw [same]
      exact sound.numbered p (pool?_mem found).1
    · exact sound.numbered q (List.mem_of_mem_filter other)
  tags := tags
  agree := by
    have perm := pools.flatMap_right (·.pairs)
    rw [List.flatMap_cons] at perm
    exact agree.trans perm.symm

/-- What a heap operation leaves behind may be stored, with the live blocks that come or go added to
or taken from the ones without a tag. -/
theorem Sound.putHeap {heap : Heap} {system : SystemHeap} (sound : m.Sound lost loans)
    (found : m.pool? id = some p) (sound' : heap.Sound system (m.rest id ++ loans') [])
    (budget : heap.InBudget) (maxSize : heap.maxSize = p.heap.maxSize)
    (exchange : ((heap.live.map fun b => (b.addr, id)) ++ lost).Perm (p.pairs ++ lost')) :
    (m.putHeap id heap system).Sound lost' loans' := by
  have same := (pool?_mem found).2
  have limit := (sound.budgets p (pool?_mem found).1).2
  have before := sound.agree.trans (sound.livePairs_perm found)
  refine sound.exchange found (sound.updatePool_perm found _) rfl rfl sound'
    ⟨budget, maxSize.trans limit⟩ sound.tags ?_
  -- both sides are compared with the lost pairs from before added
  refine (List.perm_append_right_iff lost).1 ?_
  have left : (m.tags.pairs ++ lost' ++ lost).Perm ((m.tags.pairs ++ lost) ++ lost') := by
    rw [List.append_assoc, List.append_assoc]
    exact List.perm_append_comm.append_left _
  have swap : ((p.pairs ++ (m.others id).flatMap (·.pairs)) ++ lost').Perm
      ((p.pairs ++ lost') ++ (m.others id).flatMap (·.pairs)) := by
    rw [List.append_assoc, List.append_assoc]
    exact List.perm_append_comm.append_left _
  have right := ((left.trans (before.append_right lost')).trans swap).trans
    (exchange.symm.append_right _)
  refine right.trans ?_
  show List.Perm _ (((heap.live.map fun b => (b.addr, p.id)) ++ _) ++ lost)
  rw [same, List.append_assoc, List.append_assoc]
  exact List.perm_append_comm.append_left _

/-- A change that leaves every pool its number, settings and heap. -/
theorem Sound.updatePool {f : Pool → Pool} (sound : m.Sound lost loans)
    (keeps : ∀ p, (f p).id = p.id ∧ (f p).settings = p.settings ∧ (f p).heap = p.heap) :
    (m.updatePool id f).Sound lost loans := by
  cases found : m.pool? id with
  | some p =>
    obtain ⟨number, settings, heap⟩ := keeps p
    have pairs : (f p).pairs = p.pairs := by
      rw [Pool.pairs, Pool.pairs, number, heap]
    refine sound.exchange found (sound.updatePool_perm found f) rfl number ?_ ?_ sound.tags ?_
    · rw [heap]
      exact sound.heap found
    · rw [heap, settings]
      exact sound.budgets p (pool?_mem found).1
    · rw [pairs]
      exact sound.agree.trans (sound.livePairs_perm found)
  | none =>
    refine sound.frame rfl ?_ rfl rfl
    refine (List.map_congr_left fun q member => if_neg ?_).trans (List.map_id' _)
    have other := List.find?_eq_none.1 found q member
    simpa using other

theorem Sound.cover_le (sound : m.Sound lost loans) (x : Nat) :
    Span.cover (m.pools.flatMap fun p => p.heap.live.map (·.span)) x ≤
      Span.cover ((m.pools.flatMap (·.heap.holdings)).map (·.span)) x := by
  have each : ∀ p ∈ m.pools, Span.cover (p.heap.live.map (·.span)) x ≤
      Span.cover (p.heap.holdings.map (·.span)) x :=
    fun p member => (sound.heap (sound.pool?_eq member)).cover_le x
  revert each
  generalize m.pools = pools
  intro each
  induction pools with
  | nil => exact Nat.le_refl _
  | cons p rest ih =>
    obtain ⟨first, others⟩ := List.forall_mem_cons.1 each
    have behind := ih others
    rw [List.flatMap_cons, List.flatMap_cons, List.map_append, Span.cover_append, Span.cover_append]
    omega

/-- What pools hold and what is handed out has no byte in common. -/
theorem Sound.cover_held_le_one (sound : m.Sound lost loans) (x : Nat) :
    Span.cover ((m.pools.flatMap (·.heap.holdings)).map (·.span)) x +
      Span.cover (loans.map (·.span)) x ≤ 1 := by
  have all : Span.cover (m.system.blocks.map (·.span)) x ≤ 1 :=
    Span.cover_le_one (List.pairwise_map.2 sound.below.apart) x
  rwa [Span.cover_perm (sound.held.map (·.span)), List.map_append, Span.cover_append] at all

theorem Sound.filled (sound : m.Sound lost loans) {s : Span}
    (member : s ∈ m.pools.flatMap fun p => p.heap.live.map (·.span)) : 0 < s.size := by
  obtain ⟨p, inPools, inside⟩ := List.mem_flatMap.1 member
  obtain ⟨b, inLive, rfl⟩ := List.mem_map.1 inside
  exact (sound.heap (sound.pool?_eq inPools)).filled inLive

/-- Live blocks of any pools have no byte in common. -/
theorem Sound.apart (sound : m.Sound lost loans) :
    (m.pools.flatMap fun p => p.heap.live.map (·.span)).Pairwise Span.Apart := by
  refine Span.pairwise_apart (fun s member => sound.filled member) fun x => ?_
  have own := sound.cover_le x
  have all := sound.cover_held_le_one x
  omega

theorem Sound.addr_nodup (sound : m.Sound lost loans) : (m.livePairs.map (·.1)).Nodup := by
  have starts : m.livePairs.map (·.1) =
      (m.pools.flatMap fun p => p.heap.live.map (·.span)).map (·.addr) := by
    simp [livePairs, Pool.pairs, List.map_flatMap, Function.comp_def, LiveBlock.span]
  rw [starts]
  exact Span.starts_nodup sound.apart fun s member => sound.filled member

theorem mem_livePairs {addr : Address} :
    (addr, id) ∈ m.livePairs ↔ ∃ p ∈ m.pools, p.id = id ∧ ∃ b ∈ p.heap.live, b.addr = addr := by
  constructor
  · intro member
    obtain ⟨p, inPools, inside⟩ := List.mem_flatMap.1 member
    obtain ⟨b, inLive, same⟩ := List.mem_map.1 inside
    cases same
    exact ⟨p, inPools, rfl, b, inLive, rfl⟩
  · rintro ⟨p, inPools, rfl, b, inLive, rfl⟩
    exact List.mem_flatMap.2 ⟨p, inPools, List.mem_map.2 ⟨b, inLive, rfl⟩⟩

/-- No live block starts where a block of the system heap starts that no pool holds. -/
theorem Sound.not_live_of_loan (sound : m.Sound lost loans) {addr : Address}
    (loaned : addr ∈ loans.map (·.addr)) : (addr, id) ∉ m.livePairs := by
  intro live
  obtain ⟨p, inPools, _, b, inLive, start⟩ := mem_livePairs.1 live
  obtain ⟨c, inLoans, start'⟩ := List.mem_map.1 loaned
  have inList : b.span ∈ m.pools.flatMap fun p => p.heap.live.map (·.span) :=
    List.mem_flatMap.2 ⟨p, inPools, List.mem_map_of_mem inLive⟩
  have stored : c ∈ m.system.blocks := sound.held.symm.subset (List.mem_append_right _ inLoans)
  have filled := sound.filled inList
  have filled' := sound.below.filled c stored
  have first : b.span.hits addr = 1 := Span.hits_of_has (Nat.le_of_eq start) (by
    rw [← start]
    exact Nat.lt_add_of_pos_right filled)
  have second : c.span.hits addr = 1 := Span.hits_of_has (Nat.le_of_eq start') (by
    rw [← start']
    exact Nat.lt_add_of_pos_right filled')
  have inLives := Span.hits_le_cover inList addr
  have others := Span.hits_le_cover (List.mem_map_of_mem (f := (·.span)) inLoans) addr
  have own := sound.cover_le addr
  have all := sound.cover_held_le_one addr
  omega

theorem Sound.mem_livePairs_iff (sound : m.Sound lost loans) {addr : Address} :
    (addr, id) ∈ m.livePairs ↔ ∃ p b, m.pool? id = some p ∧ p.heap.block? addr = some b := by
  rw [mem_livePairs]
  constructor
  · rintro ⟨p, inPools, rfl, b, inLive, rfl⟩
    have found := sound.pool?_eq inPools
    exact ⟨p, b, found, (sound.heap found).block?_eq inLive⟩
  · rintro ⟨p, b, found, live⟩
    obtain ⟨inPools, same⟩ := pool?_mem found
    obtain ⟨inLive, start⟩ := Heap.block?_mem live
    exact ⟨p, inPools, same, b, inLive, start⟩

end Machine

end PooledMemory
