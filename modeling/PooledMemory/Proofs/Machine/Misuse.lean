import PooledMemory.Proofs.Machine.Interference
import PooledMemory.Proofs.Machine.Phases

namespace PooledMemory

namespace Machine

variable {m : Machine} {lost : List (Address × PoolId)} {loans : List SystemBlock} {id : PoolId}
  {p : Pool} {addr : Address}

/-- The heap of a pool knows no block at an address where none of its blocks is live. -/
theorem Sound.block?_of_not_live (sound : m.Sound lost loans) (found : m.pool? id = some p)
    (wrong : ¬ m.IsLiveIn id addr) : p.heap.block? addr = none := by
  refine Option.eq_none_iff_forall_not_mem.2 fun b start => wrong ?_
  exact mem_livePairs.1 (sound.mem_livePairs_iff.2 ⟨p, b, found, start⟩)

/-- Where a pool has no live block, resizing through its handle is a fault, and releasing is one if
the block is recorded for another pool or if the pool is not yet destroyed. Nothing changes in any
case, so that no delete-pending pool ends by it. In states that proper calls lead to, what is
recorded is what is live. -/
theorem Attempted.misuse_unaltered (attempted : Attempted m) (found : m.pool? id = some p)
    (wrong : ¬ m.IsLiveIn id addr) (caller : Caller) (size : Nat) :
    m.resizeBlock id addr size = .stop (.notOwned addr id) m ∧
      (∀ other, m.owner? addr = some other →
        m.releaseBlock caller id addr = .stop (.foreignBlock addr other id) m) ∧
      (m.owner? addr = none → p.phase ≠ .destroyed →
        m.releaseBlock caller id addr = .stop (.notLive addr id) m) ∧
      (m.owner? addr = none → p.phase = .destroyed →
        m.releaseBlock caller id addr = .ok () m) ∧
      (Reachable m → ∀ other, m.owner? addr = some other ↔ m.IsLiveIn other addr) := by
  obtain ⟨lost, loans, sound⟩ := attempted.sound
  have unrecorded : m.owner? addr ≠ some id := fun owned =>
    wrong (mem_livePairs.1 (sound.live_of_tagged owned))
  have missing := sound.block?_of_not_live found wrong
  refine ⟨?_, fun other owned => ?_, fun unowned here => ?_, fun unowned gone => ?_,
    fun reached other => ⟨fun owned => ?_, fun live => ?_⟩⟩
  · rw [Machine.resizeBlock, if_neg unrecorded]
  · have differs : other ≠ id := by
      rintro rfl
      exact unrecorded owned
    simp only [Machine.releaseBlock, owned, if_neg differs]
  · simp only [Machine.releaseBlock, unowned, sound.releaseIn_of_missing caller found missing,
      if_neg here]
  · simp only [Machine.releaseBlock, unowned, sound.releaseIn_of_missing caller found missing,
      if_pos gone]
  · exact mem_livePairs.1 (sound.live_of_tagged owned)
  · obtain ⟨_, exact'⟩ := reached.sound
    exact exact'.owner?_of_live live

/-- The first pool is destroyed while the second one holds a block. -/
def survived : Machine := Call.runAll
  [.openPool { thread := 0 } {}, .openPool { thread := 0 } {},
    .allocate { thread := 0 } (some 2) (.plain 40), .dropPool { thread := 0 } 1]
  (.start [3])

/-- An address within the block that a delete-pending pool waits for, a chunk that a live pool has
parked, the live block of another pool given to a destroyed one, and an address of nobody. -/
theorem waiting_misuse :
    (waiting.releaseBlock { thread := 0 } 1 (SystemHeap.slotBase 3 + 16) =
        .stop (.notLive (SystemHeap.slotBase 3 + 16) 1) waiting ∧
      busy.releaseBlock { thread := 0 } 1 (SystemHeap.slotBase 3) =
        .stop (.notLive (SystemHeap.slotBase 3) 1) busy ∧
      survived.releaseBlock { thread := 0 } 1 (SystemHeap.slotBase 3) =
        .stop (.foreignBlock (SystemHeap.slotBase 3) 2 1) survived ∧
      survived.releaseBlock { thread := 0 } 1 7 = .ok () survived) ∧
    survived.resizeBlock 1 7 100 = .stop (.notOwned 7 1) survived := by
  have pending : Attempted waiting :=
    ((Reachable.start [3]).runAll _ (by decide +kernel)).attempted
  have ended : Attempted survived :=
    ((Reachable.start [3]).runAll _ (by decide +kernel)).attempted
  have opened : ∀ {m : Machine} (known : (m.pool? 1).isSome = true),
      m.pool? 1 = some ((m.pool? 1).get known) := fun known => (Option.some_get known).symm
  have interior := pending.misuse_unaltered (opened (by decide +kernel))
    (show ¬ waiting.IsLiveIn 1 (SystemHeap.slotBase 3 + 16) by decide +kernel) { thread := 0 } 100
  have parked := busy_reachable.attempted.misuse_unaltered (opened (by decide +kernel))
    (show ¬ busy.IsLiveIn 1 (SystemHeap.slotBase 3) by decide +kernel) { thread := 0 } 100
  have other := ended.misuse_unaltered (opened (by decide +kernel))
    (show ¬ survived.IsLiveIn 1 (SystemHeap.slotBase 3) by decide +kernel) { thread := 0 } 100
  have nobody := ended.misuse_unaltered (opened (by decide +kernel))
    (show ¬ survived.IsLiveIn 1 7 by decide +kernel) { thread := 0 } 100
  exact ⟨⟨interior.2.2.1 (by decide +kernel) (by decide +kernel),
    parked.2.2.1 (by decide +kernel) (by decide +kernel), other.2.1 2 (by decide +kernel),
    nobody.2.2.2.1 (by decide +kernel) (by decide +kernel)⟩, nobody.1⟩

end Machine

end PooledMemory
