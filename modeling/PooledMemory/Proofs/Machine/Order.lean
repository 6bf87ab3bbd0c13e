import PooledMemory.Proofs.Heap.Order
import PooledMemory.Proofs.Machine.Balance
import PooledMemory.Proofs.Machine.GivingBack

namespace PooledMemory

namespace Machine

variable {m : Machine} {p : Pool} {h : Heap} {gone blocks blocks' : List LiveBlock}
  {calls calls' : List Call}

/-- Blocks of a live pool that are given back one after the other are released from its heap. -/
theorem Reachable.givesBackAll (reached : Reachable m) (found : m.pool? p.id = some p)
    (isLive : p.phase = .live) (freed : h.Freed p.heap gone)
    (give : List.Forall₂ (fun c b => c.GivesBack m.marks p.id b.addr) calls blocks)
    (theirs : ∀ b ∈ blocks, b ∈ p.heap.live) (once : blocks.Nodup) :
    Call.allServed calls m ∧ Reachable (Call.runAll calls m) ∧
      ∃ after, (Call.runAll calls m).pool? p.id = some { p with heap := after } ∧
        h.Freed after (blocks.reverse ++ gone) := by
  induction calls generalizing m p gone blocks with
  | nil =>
    cases give
    exact ⟨trivial, reached, p.heap, found, freed⟩
  | cons c rest ih =>
    obtain ⟨b, others, gives, giveRest, rfl⟩ := List.forall₂_cons_left_iff.1 give
    obtain ⟨live, theirsRest⟩ := List.forall_mem_cons.1 theirs
    obtain ⟨fresh, onceRest⟩ := List.nodup_cons.1 once
    obtain ⟨inPools, _⟩ := pool?_mem found
    obtain ⟨loans, sound⟩ := reached.sound
    obtain ⟨caller, dropped, step, released, frees, runs⟩ := sound.givesBack inPools live gives
    rw [if_neg (by simp [isLive])] at runs
    have reached' := reached.step c (proper_of_givesBack inPools live gives)
    have next : (c.run m).machine = m.relieved p.id b.addr step dropped := congrArg (·.machine) runs
    have stillTheirs : ∀ a ∈ others, a ∈ step.heap.live := by
      intro a member
      have differs : a.addr ≠ b.addr := fun same => fresh
        (List.inj_on_of_nodup_map (sound.heap found).addr_nodup (theirsRest a member) live same ▸
          member)
      rw [frees.live]
      exact List.mem_filter.2 ⟨theirsRest a member, by simpa using differs⟩
    rw [next] at reached'
    obtain ⟨served, reachedLast, after, foundLast, freedLast⟩ :=
      ih reached' (p := { p with heap := step.heap }) (pool?_relieved dropped found) isLive
        (freed.release (sound.heap found) live released) giveRest stillTheirs onceRest
    refine ⟨⟨congrArg (·.answer) runs, next ▸ served⟩, ?_, after, ?_, ?_⟩
    · rw [Call.runAll, List.foldl_cons, next]
      exact reachedLast
    · rw [Call.runAll, List.foldl_cons, next]
      exact foundLast
    · rw [List.reverse_cons, List.append_assoc]
      exact freedLast

/-- What is trimmed is the heap of the pool. -/
theorem trimPool_eq {heap : Heap} {step : HeapStep Nat}
    (found : m.pool? p.id = some { p with heap }) (trimmed : heap.trim m.system = .ok step) :
    (m.trimPool p.id).answer = .ok step.answer ∧
      (m.trimPool p.id).machine.pool? p.id = some { p with heap := step.heap } := by
  have put := pool?_putHeap step.heap step.system found
  simp only [Machine.trimPool, found, trimmed, Outcome.ok, true_and]
  split
  · exact put
  · exact put

/-- Blocks of a live pool may be given back in any order and in any way. But for the order of the
parked chunks of one size, the pool is the same afterwards, and not even that shows after a trim. -/
theorem Reachable.order_immaterial (reached : Reachable m) (inPools : p ∈ m.pools)
    (isLive : p.phase = .live) (theirs : ∀ b ∈ blocks, b ∈ p.heap.live) (once : blocks.Nodup)
    (reordered : blocks.Perm blocks')
    (give : List.Forall₂ (fun c b => c.GivesBack m.marks p.id b.addr) calls blocks)
    (give' : List.Forall₂ (fun c b => c.GivesBack m.marks p.id b.addr) calls' blocks') :
    (Call.allServed calls m ∧ Call.allServed calls' m) ∧
      (∃ h h', (Call.runAll calls m).pool? p.id = some { p with heap := h } ∧
        (Call.runAll calls' m).pool? p.id = some { p with heap := h' } ∧ h.SameButBins h') ∧
      ∃ bytes trimmed, ∀ last ∈ [Call.runAll calls m, Call.runAll calls' m],
        (last.trimPool p.id).answer = .ok bytes ∧
          (last.trimPool p.id).machine.pool? p.id = some { p with heap := trimmed } := by
  obtain ⟨_, sound⟩ := reached.sound
  have found := sound.pool?_eq inPools
  obtain ⟨served, reachedLast, h, foundLast, freed⟩ :=
    reached.givesBackAll found isLive (.refl p.heap) give theirs once
  obtain ⟨served', reachedLast', h', foundLast', freed'⟩ :=
    reached.givesBackAll found isLive (.refl p.heap) give'
      (fun b member => theirs b (reordered.mem_iff.2 member)) (reordered.nodup_iff.1 once)
  obtain ⟨_, soundLast⟩ := reachedLast.sound
  obtain ⟨_, soundLast'⟩ := reachedLast'.sound
  have heap := soundLast.heap foundLast
  have heap' := soundLast'.heap foundLast'
  have perm : (blocks.reverse ++ []).Perm (blocks'.reverse ++ []) := by
    rw [List.append_nil, List.append_nil]
    exact (List.reverse_perm _).trans (reordered.trans (List.reverse_perm _).symm)
  have same := freed.sameButBins freed' perm heap.toOrderly heap'.toOrderly
    (reachedLast.attempted.tallied p.id _ foundLast)
    (reachedLast'.attempted.tallied p.id _ foundLast')
  obtain ⟨step, trimmed, _⟩ := heap.trim
  obtain ⟨step', trimmed', _⟩ := heap'.trim
  obtain ⟨heaps, bytes⟩ := same.trim heap heap' trimmed trimmed'
  obtain ⟨answer, left⟩ := trimPool_eq foundLast trimmed
  obtain ⟨answer', left'⟩ := trimPool_eq foundLast' trimmed'
  rw [bytes] at answer'
  rw [heaps] at left'
  refine ⟨⟨served, served'⟩, ⟨h, h', foundLast, foundLast', same⟩, step.answer, step.heap, ?_⟩
  exact List.forall_mem_cons.2 ⟨⟨answer, left⟩, List.forall_mem_singleton.2 ⟨answer', left'⟩⟩

/-- A pool with neighbouring blocks, two of which are parked when they are released. -/
def stocked : Machine := Call.runAll
  [.openPool { thread := 0 } {}, .allocate { thread := 0 } (some 1) (.plain 100),
    .allocate { thread := 0 } (some 1) (.plain 32), .allocate { thread := 0 } (some 1) (.plain 20),
    .allocate { thread := 0 } (some 1) (.plain 300)]
  (.start [0])

theorem stocked_reachable : Reachable stocked := (Reachable.start [0]).runAll _ (by decide +kernel)

/-- The blocks of the pool are released forwards and backwards. -/
theorem stocked_order_immaterial :
    let at' (offset : Nat) : Address := SystemHeap.slotBase 0 + offset
    let calls : List Call := [.free { thread := 0 } (some 1) (at' 0),
      .releaseBlock { thread := 1 } 1 (at' 112), .free { thread := 0 } none (at' 144),
      .freeLayout { thread := 0 } (at' 176)]
    let calls' : List Call := [.freeLayout { thread := 1 } (at' 176),
      .free { thread := 0 } none (at' 144), .dropBox { thread := 0 } ⟨at' 112, .int64⟩,
      .releaseBlock { thread := 0 } 1 (at' 0)]
    ((Call.runAll calls stocked).pools.map (·.heap.parked.map (·.addr)) = [[at' 144, at' 112]] ∧
      (Call.runAll calls' stocked).pools.map (·.heap.parked.map (·.addr)) = [[at' 112, at' 144]]) ∧
    ∃ p ∈ stocked.pools, (Call.allServed calls stocked ∧ Call.allServed calls' stocked) ∧
      (∃ h h', (Call.runAll calls stocked).pool? p.id = some { p with heap := h } ∧
        (Call.runAll calls' stocked).pool? p.id = some { p with heap := h' } ∧ h.SameButBins h') ∧
      ∃ bytes trimmed, ∀ last ∈ [Call.runAll calls stocked, Call.runAll calls' stocked],
        (last.trimPool p.id).answer = .ok bytes ∧
          (last.trimPool p.id).machine.pool? p.id = some { p with heap := trimmed } := by
  intro at' calls calls'
  let block (offset size : Nat) : LiveBlock := ⟨at' offset, size, granule, false⟩
  obtain ⟨p, inPools, isId, isLive, theirs⟩ : ∃ p ∈ stocked.pools, p.id = 1 ∧ p.phase = .live ∧
      ∀ b ∈ [block 0 112, block 112 32, block 144 32, block 176 304], b ∈ p.heap.live := by
    decide +kernel
  refine ⟨by decide +kernel, p, inPools, ?_⟩
  refine Reachable.order_immaterial stocked_reachable inPools isLive theirs (by decide +kernel)
    (List.reverse_perm [block 0 112, block 112 32, block 144 32, block 176 304]).symm ?_ ?_
  · rw [isId]
    exact .cons (.free rfl (by decide +kernel)) <| .cons .releaseBlock <|
      .cons (.free rfl (by decide +kernel)) <| .cons (.freeLayout (by decide +kernel)) .nil
  · rw [isId]
    exact .cons (.freeLayout (by decide +kernel)) <| .cons (.free rfl (by decide +kernel)) <|
      .cons (.dropBox rfl) <| .cons .releaseBlock .nil

end Machine

end PooledMemory
