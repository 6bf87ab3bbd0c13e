import PooledMemory.Proofs.Machine.Milestones
import PooledMemory.Proofs.Machine.Retirement
import PooledMemory.Session.Run

namespace PooledMemory

namespace Pool

/-- What the end of its thread makes of a live pool. It waits for live blocks if it is to be deleted
lazily or must not release them, and ends otherwise. -/
structure Reaped (p q : Pool) : Prop where
  waits : p.heap.live ≠ [] → p.settings.lazy = true ∨ p.settings.policy = .mustNotReleaseBlocks →
    q = { p with phase := .deletePending }
  ended : p.heap.live = [] ∨ p.settings.lazy = false ∧ p.settings.policy ≠ .mustNotReleaseBlocks →
    ∃ heap : Heap, heap.Vacant ∧ q = { p with phase := .destroyed, heap }

variable {p q : Pool}

theorem keepsBlocks_iff :
    p.keepsBlocks = true ↔ p.settings.lazy = true ∨ p.settings.policy = .mustNotReleaseBlocks := by
  simp [keepsBlocks]

theorem Retired.reaped (retired : p.Retired q) (isLive : p.phase = .live) : p.Reaped q := by
  cases retired with
  | settled dead => exact absurd isLive dead
  | ended _ free vacant =>
    refine ⟨fun occupied keeps => ?_, fun _ => ⟨_, vacant, rfl⟩⟩
    rw [keepsBlocks_iff.2 keeps] at free
    exact absurd (free.resolve_right nofun) occupied
  | waits _ occupied keeps =>
    refine ⟨fun _ _ => rfl, ?_⟩
    rintro (free | ⟨eager, may⟩)
    · exact absurd free occupied
    · exact (keepsBlocks_iff.1 keeps).elim (fun lazy => nomatch eager.symm.trans lazy) (absurd · may)

end Pool

namespace Machine

/-- A pool serves no requests any more, and nothing else happens when its handle is dropped. -/
structure Inert (m : Machine) (id : PoolId) : Prop where
  allocate : ∀ caller request,
    m.allocate caller (some id) request = .ok (.error (.unavailable id)) m
  box : ∀ caller value,
    m.box caller (some id) value = .ok (.error (.unavailable id)) (m.dropValue value)
  boxOrAbort : ∀ caller value, m.boxOrAbort caller (some id) value =
    .stop (.abortedOnFailure (.unavailable id)) (m.dropValue value)
  drop : ∀ caller, m.dropPool caller id = .ok () (m.updatePool id ({ · with held := false }))

/-- The end of a thread, which ends its live pools or leaves them waiting. Their handles are of no use
from then on, whatever is done meanwhile. Other pools, the blocks of all pools that have not ended and
the registers of other threads are as they were. -/
structure Reaps (m : Machine) (thread : ThreadId) (after : Machine) : Prop where
  pools : ∃ become : Pool → Pool, after.pools = m.pools.map become ∧ ∀ p ∈ m.pools,
    if p.owner = some thread ∧ p.phase = .live then p.Reaped (become p) else become p = p
  none_live : ∀ p ∈ after.pools, p.owner = some thread → p.phase ≠ .live
  threads : after.threads = fun t => if t = thread then .empty else m.threads t
  tags : ∀ addr, after.tags.get? addr =
    (m.tags.get? addr).filter fun tag => !decide (after.HasEnded tag.pool)
  bytes : after.system.bytes = m.system.bytes
  marks : after.marks = m.marks
  dropped : after.dropped = m.dropped
  inert : ∀ p ∈ m.pools, p.owner = some thread → ∀ calls : List Call,
    (Call.runAll calls after).Inert p.id

variable {m after : Machine} {lost : List (Address × PoolId)} {loans : List SystemBlock} {id : PoolId}
  {p q : Pool} {thread : ThreadId} {phase : Phase}

theorem Forgets.later {thread : Option ThreadId} (forgets : Forgets thread m after)
    (before : m.phase? id = some phase) :
    ∃ later, after.phase? id = some later ∧ phase.rank ≤ later.rank := by
  have phases := forgets.phases id
  rw [before] at phases
  cases later : after.phase? id with
  | none =>
    rw [later] at phases
    cases phases
  | some q =>
    rw [later] at phases
    cases phases with
    | some le => exact ⟨q, rfl, le⟩

/-- No call takes a pool back to an earlier phase. -/
theorem phase_run (c : Call) (before : m.phase? id = some phase) :
    ∃ later, (c.run m).machine.phase? id = some later ∧ phase.rank ≤ later.rank := by
  cases c with
  | openPool caller settings =>
    obtain ⟨p, opened⟩ := openPool_pools m caller settings
    obtain ⟨q, found, same⟩ := Option.map_eq_some_iff.1 before
    refine ⟨phase, ?_, Nat.le_refl _⟩
    have kept : (m.openPool caller settings).2.pool? id = some q := by
      rw [pool?, opened, List.find?_append, ← pool?, found]
      rfl
    exact Option.map_eq_some_iff.2 ⟨q, kept, same⟩
  | select caller named => cases named <;> exact ⟨phase, before, Nat.le_refl _⟩
  | restore => exact ⟨phase, before, Nat.le_refl _⟩
  | exitThread thread =>
    obtain ⟨middle, forgets, same⟩ := exitThread_forgets m thread
    obtain ⟨later, found, le⟩ := forgets.later before
    exact ⟨later, (congrArg (Machine.phase? · id) same).trans found, le⟩
  | _ => exact (run_forgets m rfl).later before

theorem phase_runAll (calls : List Call) (before : m.phase? id = some phase) :
    ∃ later, (Call.runAll calls m).phase? id = some later ∧ phase.rank ≤ later.rank := by
  induction calls generalizing m phase with
  | nil => exact ⟨phase, before, Nat.le_refl _⟩
  | cons c rest ih =>
    obtain ⟨middle, next, le⟩ := phase_run c before
    obtain ⟨later, last, le'⟩ := ih next
    exact ⟨later, last, Nat.le_trans le le'⟩

theorem inert_of_phase (known : m.phase? id = some phase) (dead : phase ≠ .live) : m.Inert id := by
  obtain ⟨p, found, same⟩ := Option.map_eq_some_iff.1 known
  have settled : p.phase ≠ .live := same ▸ dead
  have allocate : ∀ caller request,
      m.allocate caller (some id) request = .ok (.error (.unavailable id)) m := by
    intro caller request
    simp only [Machine.allocate, target, serve, allocateIn, found, if_pos settled]
  have box : ∀ caller value,
      m.box caller (some id) value = .ok (.error (.unavailable id)) (m.dropValue value) := by
    intro caller value
    rw [Machine.box, allocate]
    rfl
  refine ⟨allocate, box, fun caller value => ?_, fun caller => ?_⟩
  · rw [Machine.boxOrAbort, box]
    rfl
  · simp only [dropPool, retire, found, if_pos settled]

theorem exitThread_threads (m : Machine) (thread : ThreadId) :
    (m.exitThread thread).threads = fun t => if t = thread then .empty else m.threads t := by
  obtain ⟨middle, forgets, same⟩ := exitThread_forgets m thread
  funext t
  rw [same, threads_updateRegister]
  split
  · rfl
  · rename_i other
    exact forgets.others t fun here => other (Option.some.inj here).symm

theorem Sound.reaps (sound : m.Sound lost loans) (enrolled : m.Enrolled)
    (thread : ThreadId) : m.Reaps thread (m.exitThread thread) := by
  have retires := sound.exitThread_retires enrolled thread
  obtain ⟨become, pools, fates⟩ := retires.pools
  have settled : ∀ p ∈ m.pools, p.owner = some thread → (become p).phase ≠ .live :=
    fun p inPools owner => ((fates p inPools).retired owner).not_live
  refine ⟨⟨become, pools, fun p inPools => ?_⟩, ?_, exitThread_threads m thread, retires.tags,
    retires.bytes, retires.marks, retires.dropped, fun p inPools owner calls => ?_⟩
  · split
    · rename_i mine
      exact ((fates p inPools).retired mine.1).reaped mine.2
    · rename_i other
      by_cases isLive : p.phase = .live
      · exact (fates p inPools).kept fun owner => other ⟨owner, isLive⟩
      · exact (fates p inPools).eq_of_not_live isLive
  · rw [pools]
    refine List.forall_mem_map.2 fun p inPools owner => ?_
    exact settled p inPools ((fates p inPools).remains.owner ▸ owner)
  · obtain ⟨lost', _, sound'⟩ := sound.exitThread thread
    have ended : (m.exitThread thread).phase? p.id = some (become p).phase := by
      rw [← (fates p inPools).remains.id]
      exact congrArg (Option.map Pool.phase)
        (sound'.pool?_eq (pools ▸ List.mem_map_of_mem inPools))
    obtain ⟨later, known, rank⟩ := phase_runAll calls ended
    refine inert_of_phase known fun isLive => settled p inPools owner ?_
    rw [isLive] at rank
    cases phase : (become p).phase with
    | live => rfl
    | deletePending => exact absurd (phase ▸ rank) (by decide)
    | destroyed => exact absurd (phase ▸ rank) (by decide)

/-- The end of a thread, which is never a fault, reaps exactly the live pools of that thread. -/
theorem Attempted.exitThread_reaps (attempted : Attempted m) (thread : ThreadId) :
    m.Reaps thread (m.exitThread thread) ∧
      ∀ s : Session, s.machine = m → thread ∈ s.running →
        ∃ s', s.run thread .exitThread = .ok (.done, s') ∧ s'.machine = m.exitThread thread := by
  obtain ⟨lost, loans, sound⟩ := attempted.sound
  refine ⟨sound.reaps attempted.enrolled thread, ?_⟩
  rintro s rfl runs
  refine ⟨_, if_pos (List.contains_iff_mem.2 runs), rfl⟩

/-- A thread owns pools of all kinds. Some of them have blocks, and one waits already. Another thread
has a pool too, and one pool has no owner. -/
def crew : Machine := Call.runAll
  [.openPool { thread := 1 } { owned := true }, .openPool { thread := 0 } {},
    .openPool { thread := 0 } { owned := true },
    .openPool { thread := 0 } { owned := true, policy := .mustNotReleaseBlocks },
    .openPool { thread := 0 } { owned := true, lazy := true },
    .openPool { thread := 0 } { owned := true, lazy := true, policy := .mustNotReleaseBlocks },
    .openPool { thread := 0 } { owned := true, lazy := true },
    .allocate { thread := 1 } none (.plain 16), .allocate { thread := 0 } (some 2) (.plain 16),
    .allocate { thread := 0 } (some 3) (.plain 16), .allocate { thread := 0 } (some 4) (.plain 16),
    .allocate { thread := 0 } (some 5) (.plain 16), .allocate { thread := 0 } none (.plain 16),
    .dropPool { thread := 0 } 7]
  (.start [0, 1, 2, 3, 4, 5])

theorem crew_reachable : Reachable crew :=
  (Reachable.start [0, 1, 2, 3, 4, 5]).runAll _ (by decide +kernel)

/-- Two of the four live pools of the thread end and two are left waiting. -/
theorem crew_reaped :
    crew.pools.map (·.phase) = [.live, .live, .live, .live, .live, .live, .deletePending] ∧
      (crew.exitThread 0).pools.map (·.phase) =
        [.live, .live, .destroyed, .deletePending, .deletePending, .destroyed, .deletePending] ∧
      ((crew.exitThread 0).threads 1).current = some 1 ∧ crew.Reaps 0 (crew.exitThread 0) ∧
      ∃ s', ({ machine := crew, running := [0, 1] } : Session).run 0 .exitThread =
        .ok (.done, s') ∧ s'.machine = crew.exitThread 0 := by
  obtain ⟨reaps, served⟩ := Attempted.exitThread_reaps crew_reachable.attempted 0
  exact ⟨by decide +kernel, by decide +kernel, by decide +kernel, reaps,
    served { machine := crew, running := [0, 1] } rfl (List.mem_cons_self ..)⟩

end Machine

end PooledMemory
