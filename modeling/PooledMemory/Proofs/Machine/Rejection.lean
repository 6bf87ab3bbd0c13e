import PooledMemory.Proofs.Machine.Reachable

namespace PooledMemory

namespace Machine

variable {m : Machine} {lost : List (Address × PoolId)} {loans : List SystemBlock}
  {owner : PoolId} {addr : Address}

/-- A block is live in its pool, but it is not recorded any more, and releasing it leaves it where
it is. All else is as before. -/
structure Orphaned (m after : Machine) (owner : PoolId) (addr : Address) : Prop where
  rest : after = { m with tags := after.tags }
  tags : after.tags.toList.Perm (m.tags.toList.filter (·.1 != addr))
  live : after.IsLiveIn owner addr
  unowned : after.owner? addr = none
  unlisted : ∀ r ∈ after.liveBlocks, r.addr ≠ addr
  stuck : ∀ caller, (after.free caller none addr).machine.pools = after.pools

theorem liveBlocks_tagged {r : BlockReport} (listed : r ∈ m.liveBlocks) :
    ∃ tag, (r.addr, tag) ∈ m.tags.toList := by
  obtain ⟨⟨a, tag⟩, inTags, report⟩ := List.mem_filterMap.1 (List.mem_mergeSort.1 listed)
  obtain ⟨size, _, rfl⟩ := Option.map_eq_some_iff.1 report
  exact ⟨tag, inTags⟩

/-- Blocks that are not recorded are never released into a pool. -/
theorem Sound.free_unowned (sound : m.Sound lost loans) (caller : Caller)
    (unowned : m.owner? addr = none) : (m.free caller none addr).machine.pools = m.pools := by
  unfold Machine.free
  by_cases marked : m.marks.contains addr = true
  · rw [if_pos marked]
    rfl
  · rw [if_neg marked]
    obtain returned | ⟨holder, _, stopped⟩ := sound.release_of_unowned caller none unowned
    · rw [returned]
      rfl
    · rw [stopped]
      rfl

theorem Sound.orphaned (sound : m.Sound lost loans) (owned : m.owner? addr = some owner) :
    Orphaned m (m.untag addr) owner addr := by
  have after := sound.untag owned
  have unowned : (m.untag addr).owner? addr = none :=
    after.tags.owner?_eq_none_iff.2 (after.untagged (List.mem_cons_self ..))
  refine ⟨rfl, (sound.tags.without addr).2, mem_livePairs.1 (sound.live_of_tagged owned), unowned,
    fun r listed same => ?_, fun caller => after.free_unowned caller unowned⟩
  obtain ⟨tag, inTags⟩ := liveBlocks_tagged listed
  rw [same] at inTags
  exact after.tags.owner?_eq_none_iff.1 unowned tag inTags

/-- A live block that is released into its own pool is released. If another pool is named, the call
stops, but only after the block has lost its record. -/
theorem Reachable.free_named (reached : Reachable m) (live : m.IsLiveIn owner addr)
    (unmarked : m.marks.contains addr = false) (caller : Caller) (named : PoolId) :
    (named = owner → (m.free caller (some named) addr).answer = .ok ()) ∧
      (named ≠ owner →
        (m.free caller (some named) addr).answer = .error (.wrongOwner addr owner) ∧
        Orphaned m (m.free caller (some named) addr).machine owner addr) := by
  obtain ⟨loans, sound⟩ := reached.sound
  have owned := sound.owner?_of_live live
  have goes : m.free caller (some named) addr = m.release caller (some named) addr := by
    rw [Machine.free, unmarked]
    rfl
  rw [goes]
  refine ⟨fun same => ?_, fun wrong => ?_⟩
  · subst same
    exact (sound.release_owned caller owned (by simp)).1
  · rw [sound.release_misnamed caller owned wrong]
    exact ⟨rfl, sound.orphaned owned⟩

theorem busy_block_orphaned :
    busy.IsLiveIn 1 (SystemHeap.slotBase 3 + 352) ∧
      Orphaned busy (busy.free { thread := 0 } (some 2) (SystemHeap.slotBase 3 + 352)).machine 1
        (SystemHeap.slotBase 3 + 352) := by
  have live : busy.IsLiveIn 1 (SystemHeap.slotBase 3 + 352) := by decide +kernel
  have rejected := (Reachable.free_named busy_reachable live (by decide +kernel)
    { thread := 0 } 2).2 (by decide)
  exact ⟨live, rejected.2⟩

/-- It is not the case that a release into the wrong pool changes nothing. -/
theorem not_free_misnamed_unchanged : ¬ ∀ (m : Machine) (caller : Caller) (owner named : PoolId)
    (addr : Address), Reachable m → m.IsLiveIn owner addr → m.marks.contains addr = false →
      named ≠ owner → (m.free caller (some named) addr).machine = m := by
  intro unchanged
  have same := unchanged busy { thread := 0 } 1 2 (SystemHeap.slotBase 3 + 352) busy_reachable
    (by decide +kernel) (by decide +kernel) (by decide)
  have before : busy.owner? (SystemHeap.slotBase 3 + 352) = some 1 := by decide +kernel
  have after : (busy.free { thread := 0 } (some 2) (SystemHeap.slotBase 3 + 352)).machine.owner?
      (SystemHeap.slotBase 3 + 352) = none := by decide +kernel
  rw [same, before] at after
  cases after

end Machine

end PooledMemory
