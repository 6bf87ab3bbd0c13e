import PooledMemory.Proofs.Machine.Dispatch
import PooledMemory.Proofs.Machine.Interference
import PooledMemory.Session.Run

namespace PooledMemory

namespace Machine

/-- What threads remember when a pool, if any, has ended on one of them: that one forgets the pool if
it was its current one. -/
def forgetting (threads : ThreadId → Register) (thread : ThreadId) (ended : Option PoolId) :
    ThreadId → Register :=
  fun t =>
    if t = thread ∧ (threads t).current = ended then { threads t with current := none }
    else threads t

/-- Releasing a block comes to one state, wherever it happens and whatever threads remember. Only the
thread where the owner of the block ends with it forgets this pool. -/
structure ReleasedAnywhere (m after : Machine) (b : Block) : Prop where
  anywhere : ∀ (threads : ThreadId → Register) (caller : Caller),
    ({ m with threads } : Machine).free caller none b.addr = .ok ()
      { after with
        threads := forgetting threads caller.thread (b.owner.filter (after.HasEnded ·)) }
  /-- A pool that ends has waited for nothing but this block. -/
  waited : ∀ id, b.owner = some id → after.HasEnded id →
    ∃ p ∈ m.pools, p.id = id ∧ p.phase = .deletePending ∧ p.issued = [b]
  /-- The block goes out of use, none comes into use, and no other one is written to. -/
  exchanges : Exchanges m after [b] [] []
  /-- The system heap gets back memory and hands out none. -/
  returns : ∃ returned : List Address, after.system =
    { returned.foldl SystemHeap.release m.system with bytes := after.system.bytes }
  confined : Confined (fun id => b.owner = some id) m after

variable {m after : Machine} {lost : List (Address × PoolId)} {loans : List SystemBlock}
  {id : PoolId} {p : Pool}

theorem forgetting_none (threads : ThreadId → Register) (thread : ThreadId) :
    forgetting threads thread none = threads := by
  funext t
  refine ite_eq_right_iff.2 fun ⟨_, current⟩ => ?_
  rw [← current]

theorem clearCurrent_threads (m : Machine) (thread : ThreadId) (id : PoolId) :
    m.clearCurrent thread id = { m with threads := forgetting m.threads thread (some id) } := by
  unfold Machine.clearCurrent
  split
  · rename_i current
    have threads : (m.setCurrent thread none).threads =
        forgetting m.threads thread (some id) := by
      funext t
      by_cases here : t = thread
      · simp [setCurrent, threads_updateRegister, forgetting, here, current]
      · simp [setCurrent, threads_updateRegister, forgetting, here]
    rw [← threads]
    rfl
  · rename_i other
    have threads : forgetting m.threads thread (some id) = m.threads := by
      funext t
      refine if_neg fun both => other ?_
      exact both.1 ▸ both.2
    rw [threads]

/-- Where a pool ends matters to what this thread remembers and to nothing else. -/
theorem destroy_threads (m : Machine) (q : Pool) (threads : ThreadId → Register)
    (caller caller' : Caller) : ({ m with threads } : Machine).destroy caller q =
      { m.destroy caller' q with threads := forgetting threads caller.thread (some q.id) } := by
  simp only [Machine.destroy, finishTearDown, clearCurrent_threads]
  rfl

theorem hasEnded_destroy (caller : Caller) (inPools : p ∈ m.pools) :
    (m.destroy caller p).HasEnded p.id := by
  obtain ⟨threads, destroyed⟩ := destroy_eq m caller p
  rw [destroyed]
  exact ⟨Pool.emptied _ p, List.mem_map.2 ⟨p, inPools, if_pos rfl⟩, rfl, rfl⟩

theorem Sound.not_hasEnded_putHeap (sound : m.Sound lost loans) (inPools : p ∈ m.pools)
    (stands : p.phase ≠ .destroyed) (heap : Heap) (system : SystemHeap) :
    ¬ (m.putHeap p.id heap system).HasEnded p.id := by
  rintro ⟨q, inAfter, number, ended⟩
  obtain ⟨r, member, rfl⟩ := List.mem_map.1 inAfter
  by_cases here : r.id = p.id
  · obtain rfl := sound.eq_of_id member inPools here
    rw [if_pos rfl] at ended
    exact stands ended
  · rw [if_neg here] at number
    exact here number

/-- A pool takes back a live block and ends if it has waited for nothing else. -/
theorem Sound.releaseIn_eq {b : LiveBlock} {step : HeapStep (Option Nat)}
    (sound : m.Sound lost loans) (caller : Caller) (found : m.pool? p.id = some p)
    (live : p.heap.block? b.addr = some b)
    (released : p.heap.release m.system b.addr = .ok step) :
    m.releaseIn caller p.id b.addr = .ok ()
      (if p.phase = .deletePending ∧ step.heap.live = [] then
        (m.putHeap p.id step.heap step.system).destroy caller { p with heap := step.heap }
      else m.putHeap p.id step.heap step.system) := by
  have releasing := sound.releaseIn_releasing caller found live
  generalize m.releaseIn caller p.id b.addr = o at releasing
  cases releasing with
  | goesOn released' _ occupied =>
    cases released.symm.trans released'
    rw [if_neg fun last => occupied last.1 last.2]
  | ends released' _ pending nothing =>
    cases released.symm.trans released'
    rw [if_pos ⟨pending, nothing⟩]

/-- A pool takes back a block in the same way for every thread. -/
theorem Sound.owned_anywhere {b : LiveBlock} (sound : m.Sound [] loans) (inPools : p ∈ m.pools)
    (live : b ∈ p.heap.live) (stands : p.phase ≠ .destroyed)
    (unmarked : m.marks.contains b.addr = false) :
    m.ReleasedAnywhere (m.release { thread := 0 } none b.addr).machine (b.issuedBy p.id) := by
  have found := sound.pool?_eq inPools
  have start := (sound.heap found).block?_eq live
  have owned : m.owner? b.addr = some p.id := sound.owner?_of_live ⟨p, inPools, rfl, b, live, rfl⟩
  have untagged := sound.untag owned
  obtain ⟨step, released, frees⟩ := (sound.heap found).release b.addr
  let left : Machine := (m.untag b.addr).putHeap p.id step.heap step.system
  let ending : Pool := { p with heap := step.heap }
  have releases : ∀ (threads : ThreadId → Register) (caller : Caller),
      ({ m with threads } : Machine).release caller none b.addr = .ok ()
        (if p.phase = .deletePending ∧ step.heap.live = [] then
          ({ left with threads } : Machine).destroy caller ending
        else { left with threads }) := by
    intro threads caller
    rw [(sound.withThreads threads).release_recorded caller owned rfl]
    exact (untagged.withThreads threads).releaseIn_eq caller found start released
  have free : ∀ (threads : ThreadId → Register) (caller : Caller),
      ({ m with threads } : Machine).free caller none b.addr =
        ({ m with threads } : Machine).release caller none b.addr :=
    fun _ _ => if_neg (by simp [unmarked])
  have here : (m.release { thread := 0 } none b.addr).machine =
      if p.phase = .deletePending ∧ step.heap.live = [] then left.destroy { thread := 0 } ending
      else left := congrArg Outcome.machine (releases m.threads { thread := 0 })
  obtain ⟨_, exchanges, _, _, system⟩ := sound.release_takenBack { thread := 0 } inPools live
  have confined : Confined (fun id => m.owner? b.addr = some id) m
      (m.release { thread := 0 } none b.addr).machine :=
    sound.release_confined { thread := 0 } (.inl ⟨p.id, owned⟩) fun _ _ => rfl
  refine ⟨fun threads caller => ?_, fun id own ended => ?_, exchanges, ⟨_, system⟩,
    confined.mono fun id same => owned.symm.trans same⟩
  · refine (free threads caller).trans ((releases threads caller).trans ?_)
    rw [here]
    by_cases last : p.phase = .deletePending ∧ step.heap.live = []
    · have ended : (left.destroy { thread := 0 } ending).HasEnded p.id :=
        hasEnded_destroy (p := ending) _ (List.mem_map.2 ⟨p, inPools, if_pos rfl⟩)
      have forgotten : (b.issuedBy p.id).owner.filter
          ((left.destroy { thread := 0 } ending).HasEnded ·) = some p.id :=
        Option.filter_eq_some_iff.2 ⟨rfl, decide_eq_true ended⟩
      simp only [if_pos last]
      rw [destroy_threads left ending threads caller { thread := 0 }, ← forgotten]
    · have still : ¬ left.HasEnded p.id :=
        untagged.not_hasEnded_putHeap inPools stands step.heap step.system
      have nothing : (b.issuedBy p.id).owner.filter (left.HasEnded ·) = none :=
        Option.filter_eq_none_iff.2 fun _ same => by cases same; simpa using still
      simp only [if_neg last]
      have same : forgetting threads caller.thread
          ((b.issuedBy p.id).owner.filter (left.HasEnded ·)) = threads := by
        rw [nothing, forgetting_none]
      exact congrArg (fun threads => Outcome.ok () { left with threads }) same.symm
  · cases own
    rw [here] at ended
    by_cases last : p.phase = .deletePending ∧ step.heap.live = []
    · have perm := (sound.heap found).live_perm start
      rw [← show _ = (p.heap.removeLive b).live from frees.live, last.2] at perm
      refine ⟨p, inPools, rfl, last.1, ?_⟩
      rw [Pool.issued, List.perm_singleton.1 perm]
      rfl
    · rw [if_neg last] at ended
      exact absurd ended (untagged.not_hasEnded_putHeap inPools stands step.heap step.system)

/-- A block that callers have from the system heap goes back there in the same way for every thread. -/
theorem Sound.lent_anywhere {b : SystemBlock} (sound : m.Sound [] loans) (loaned : b ∈ loans)
    (unmarked : m.marks.contains b.addr = false) :
    m.ReleasedAnywhere (m.releaseToSystem b.addr) b.lent := by
  have given : b.addr ∈ loans.map (·.addr) := List.mem_map_of_mem loaned
  obtain ⟨others, split⟩ := sound.loan_of_inUse (inUse_of_loan sound loaned)
  refine ⟨fun threads caller => ?_, nofun, split.giveBack_change.toExchanges, ⟨[b.addr], rfl⟩,
    .aside rfl rfl rfl rfl⟩
  have returned := (sound.withThreads threads).release_loaned caller none given
  have free : ({ m with threads } : Machine).free caller none b.addr =
      ({ m with threads } : Machine).release caller none b.addr := if_neg (by simp [unmarked])
  have same : b.lent.owner.filter ((m.releaseToSystem b.addr).HasEnded ·) = none := rfl
  rw [same, forgetting_none]
  exact free.trans returned

end Machine

namespace Session

variable {s s' : Session} {ref : BlockRef} {needsOwner : Bool} {next next' : Held → Address → Turn}

/-- Which block a command means is found out from the slots and the tags. -/
theorem withBlock_reply (slots : s'.slots = s.slots)
    (owner : ∀ addr, s'.machine.owner? addr = s.machine.owner? addr)
    (same : ∀ held addr, (next' held addr).map (·.1) = (next held addr).map (·.1)) :
    (s'.withBlock ref needsOwner next').map (·.1) = (s.withBlock ref needsOwner next).map (·.1) := by
  have replied : ∀ (s : Session) (r : Reply), (s.reply r).map (·.1) = .ok r := fun _ _ => rfl
  have region : ∀ held, s'.lostRegion held = s.lostRegion held := by simp [lostRegion, owner]
  have orphan : ∀ held, s'.isOrphan held = s.isOrphan held := by simp [isOrphan, owner]
  simp only [withBlock, slots, region, orphan]
  cases s.slots.lookup ref.slot with
  | none => rfl
  | some slot => simp only [apply_ite (Except.map fun turn : Reply × Session => turn.1), replied, same]

theorem run_sizeOf (s : Session) (thread : ThreadId) (ref : BlockRef) :
    s.run thread (.sizeOf ref) =
      s.withBlock ref true fun _ addr => s.reply (.number (s.sizeAt ref addr)) := by
  unfold run
  rfl

theorem run_ownerOf (s : Session) (thread : ThreadId) (ref : BlockRef) :
    s.run thread (.ownerOf ref) =
      s.withBlock ref false fun _ addr => s.reply (.pool (s.machine.owner? addr)) := by
  unfold run
  rfl

end Session

namespace Machine

variable {m : Machine} {b : Block}

/-- In all states that programs reach, a block in use that is not marked can be released on any thread
with one result, and how large it is and who owns it is the same on all threads. -/
theorem Reachable.released_anywhere (reached : Reachable m) (used : m.InUse b)
    (unmarked : m.marks.contains b.addr = false) :
    (∃ after, m.ReleasedAnywhere after b) ∧
      (∀ threads, ({ m with threads } : Machine).sizeOf b.addr = m.sizeOf b.addr ∧
        ({ m with threads } : Machine).owner? b.addr = b.owner) ∧
      ∀ (s : Session) (threads : ThreadId → Register) (thread thread' : ThreadId)
        (ref : Session.BlockRef), s.machine = m →
        ∀ c ∈ ([.sizeOf ref, .ownerOf ref] : List Session.Command),
          (({ s with machine := { m with threads } } : Session).run thread c).map (·.1) =
            (s.run thread' c).map (·.1) := by
  obtain ⟨loans, sound⟩ := reached.sound
  refine ⟨?_, fun threads => ⟨rfl, sound.owner?_of_inUse used⟩,
    fun s threads thread thread' ref same c asks => ?_⟩
  · rcases List.mem_append.1 (sound.inUse_iff.1 used) with own | lent
    · obtain ⟨p, inPools, issued⟩ := List.mem_flatMap.1 own
      obtain ⟨c, live, rfl⟩ := mem_issued.1 issued
      have stands : p.phase ≠ .destroyed := by
        intro ended
        rw [(reached.enrolled.vacant p inPools ended).live] at live
        cases live
      exact ⟨_, sound.owned_anywhere inPools live stands unmarked⟩
    · obtain ⟨c, loaned, rfl⟩ := List.mem_map.1 lent
      exact ⟨_, sound.lent_anywhere loaned unmarked⟩
  · subst same
    rcases List.mem_pair.1 asks with rfl | rfl
    · rw [Session.run_sizeOf, Session.run_sizeOf]
      exact Session.withBlock_reply rfl (fun _ => rfl) fun _ _ => rfl
    · rw [Session.run_ownerOf, Session.run_ownerOf]
      exact Session.withBlock_reply rfl (fun _ => rfl) fun _ _ => rfl

/-- The last block of a pool that waits for it is released on a thread that has this pool current. No
other thread forgets the pool. -/
theorem waiting_released_anywhere :
    let b : Block := ⟨some 1, SystemHeap.slotBase 3, 48, 16⟩
    let threads : ThreadId → Register := fun _ => ⟨some 1, some 1⟩
    (waiting.InUse b ∧ waiting.marks.contains b.addr = false) ∧
      ∃ after, after.HasEnded 1 ∧ waiting.ReleasedAnywhere after b ∧
        ∀ thread, ({ waiting with threads } : Machine).free { thread } none b.addr =
          .ok () { after with threads := fun t => ⟨if t = thread then none else some 1, some 1⟩ } := by
  have reached : Reachable waiting := (Reachable.start [3]).runAll _ (by decide +kernel)
  have used : waiting.InUse ⟨some 1, SystemHeap.slotBase 3, 48, 16⟩ := by decide +kernel
  have unmarked : waiting.marks.contains (SystemHeap.slotBase 3) = false := by decide +kernel
  obtain ⟨⟨after, released⟩, _⟩ := Reachable.released_anywhere reached used unmarked
  have pools : after.pools =
      (waiting.free { thread := 0 } none (SystemHeap.slotBase 3)).machine.pools :=
    (congrArg (·.machine.pools) (released.anywhere waiting.threads { thread := 0 })).symm
  have ended : after.HasEnded 1 := by
    rw [HasEnded, pools]
    decide +kernel
  refine ⟨⟨used, unmarked⟩, after, ended, released, fun thread => ?_⟩
  rw [released.anywhere]
  have owner : (some 1 : Option PoolId).filter (after.HasEnded ·) = some 1 :=
    Option.filter_eq_some_iff.2 ⟨rfl, decide_eq_true ended⟩
  simp only [owner]
  congr
  funext t
  by_cases here : t = thread
  · simp [forgetting, here]
  · simp [forgetting, here]

end Machine

end PooledMemory
