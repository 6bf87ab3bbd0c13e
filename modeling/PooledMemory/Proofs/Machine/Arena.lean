import PooledMemory.Proofs.Machine.Journal
import PooledMemory.Proofs.Machine.Peak

namespace PooledMemory

namespace Event

def isReservation : Event → Bool
  | segmentReserved _ => true
  | _ => false

def returnedBytes : Event → Nat
  | segmentsReturned _ bytes => bytes
  | _ => 0

/-- The bytes of the segments that a log says were reserved. -/
def reserved (log : List Event) : Nat := segmentBytes * log.countP (·.isReservation)

/-- The bytes of the segments that a log says were returned to the system heap. -/
def returned (log : List Event) : Nat := sumBy (·.returnedBytes) log

theorem reserved_append (log new : List Event) :
    reserved (log ++ new) = reserved log + reserved new := by
  rw [reserved, List.countP_append, Nat.mul_add, reserved, reserved]

theorem returned_append (log new : List Event) :
    returned (log ++ new) = returned log + returned new :=
  sumBy_append ..

end Event

namespace Pool

variable {refits : Prop} [Decidable refits] {block : Option Address} {p q : Pool}
  {new : List Event}

/-- The bytes that a pool holds in segments. -/
def arena (p : Pool) : Nat := p.heap.usage.segmentBytes

/-- The statistics count whole segments. -/
def Whole (p : Pool) : Prop := p.arena = segmentBytes * p.heap.segments.length

theorem whole_of_sound {system : SystemHeap} {rest : List SystemBlock} {hole : List Span}
    (sound : p.heap.Sound system rest hole) : p.Whole := sound.segmentBytes_eq

theorem Whole.arena_eq (before : p.Whole) (behind : q.Whole)
    (count : q.heap.segments.length = p.heap.segments.length) : q.arena = p.arena := by
  rw [before, behind, count]

/-- The bytes by which segments grow while a pool resizes a block. They are not logged. -/
def unlogged (refits : Prop) [Decidable refits] (before behind : Nat) : Nat :=
  if refits then behind - before else 0

@[simp] theorem unlogged_self (n : Nat) : unlogged refits n n = 0 := by
  simp [unlogged]

/-- What a pool logs about its segments makes up for the difference between what it holds before and
after, apart from what it brings when it resizes a block. -/
theorem Deed.arena (deed : p.Deed refits block q new) (before : p.Whole) (behind : q.Whole)
    (stands : q.phase ≠ .destroyed) : q.arena + Event.returned new =
      p.arena + Event.reserved new + unlogged refits p.arena q.arena := by
  have nothing : ∀ {q : Pool}, q.arena = p.arena → q.arena + Event.returned [] =
      p.arena + Event.reserved [] + unlogged refits p.arena q.arena := by
    intro q same
    rw [same, unlogged_self]
    rfl
  induction deed with
  | rests _ heap => exact nothing (congrArg (·.usage.segmentBytes) heap)
  | @serves q _ _ _ step new plain _ _ allocated heap logged =>
    have quiet : unlogged refits p.arena q.arena = 0 := if_neg plain
    rw [logged, quiet]
    obtain same | ⟨_, more⟩ := Heap.allocate_count allocated
    · rw [← heap] at same
      rw [if_neg (by omega), before.arena_eq behind same]
      rfl
    · rw [← heap] at more
      rw [if_pos (by omega), behind, before, more, Nat.mul_succ]
      rfl
  | @resizes q _ _ _ _ step own _ sound resized heap =>
    have count := sound.resize_count resized
    rw [← heap] at count
    have more := Nat.mul_le_mul_left segmentBytes count
    rw [← before, ← behind] at more
    show q.arena + 0 = p.arena + 0 + unlogged refits p.arena q.arena
    rw [unlogged, if_pos own]
    omega
  | releases _ _ released heap =>
    exact nothing (before.arena_eq behind (heap ▸ Heap.release_count released))
  | @trims q _ _ step new plain _ sound trimmed heap logged =>
    have left : q.arena + step.answer = p.arena := by
      have less := sound.trim_returned trimmed
      rwa [← heap] at less
    have quiet : unlogged refits p.arena q.arena = 0 := if_neg plain
    rw [logged, quiet]
    by_cases some' : 0 < step.answer
    · rw [if_pos some']
      exact left
    · rw [if_neg some']
      show q.arena + 0 = p.arena + 0 + 0
      omega
  | @defers q _ _ _ heap _ =>
    have same : q.arena = p.arena := congrArg (·.usage.segmentBytes) heap
    rw [same, unlogged_self]
    rfl
  | ends _ _ ended _ => exact absurd ended stands
  | follows _ _ ended _ _ _ _ => exact absurd ended stands
  | @returns middle q _ _ _ _ new _ _ isLive _ sound released heap ih =>
    have whole : middle.Whole := whole_of_sound sound
    have same : q.arena = middle.arena :=
      whole.arena_eq behind (heap ▸ Heap.release_count released)
    rw [same]
    exact ih whole (by rw [isLive]; exact nofun)

/-- A destroyed pool stays destroyed. -/
theorem Deed.destroyed {refits : Prop} (deed : p.Deed refits block q new)
    (ended : p.phase = .destroyed) : q.phase = .destroyed := by
  induction deed with
  | rests phase _ => exact phase.trans ended
  | serves _ isLive _ _ _ _ => cases isLive.symm.trans ended
  | resizes _ phase _ _ _ => exact phase.trans ended
  | releases phase _ _ _ => exact phase.trans ended
  | trims _ phase _ _ _ _ => exact phase.trans ended
  | defers _ isLive _ _ _ => cases isLive.symm.trans ended
  | ends _ _ behind _ => exact behind
  | follows _ _ behind _ _ _ _ => exact behind
  | returns _ _ isLive _ _ _ _ ih => cases isLive.symm.trans ih

end Pool

namespace Machine

variable {m after : Machine} {lost lost' : List (Address × PoolId)}
  {loans loans' : List SystemBlock} {id : PoolId} {p : Pool} {block : Option Address}
  {steps : List (Machine × Call)}

/-- The bytes that a pool holds in segments. -/
def arena (m : Machine) (id : PoolId) : Nat := ((m.pool? id).map (·.arena)).getD 0

theorem arena_eq (found : m.pool? id = some p) : m.arena id = p.arena := by
  rw [arena, found]
  rfl

/-- If the pool exists, it is not destroyed. -/
def Stands (m : Machine) (id : PoolId) : Prop := ∀ p, m.pool? id = some p → p.phase ≠ .destroyed

/-- What one call does to the segments of a pool is logged, unless the pool resizes a block. -/
theorem Does.arena {refits : PoolId → Prop} [DecidablePred refits]
    (does : Does refits block m after) (sound : m.Sound lost loans)
    (sound' : after.Sound lost' loans') (stands : after.Stands id) :
    m.Stands id ∧ ∃ new, after.log id = m.log id ++ new ∧
      after.arena id + Event.returned new =
        m.arena id + Event.reserved new + Pool.unlogged (refits id) (m.arena id) (after.arena id) := by
  obtain ⟨new, log, fate⟩ := does id
  have before : ∀ p, m.pool? id = some p → p.Whole := fun p found =>
    Pool.whole_of_sound (sound.heap found)
  have behind : ∀ q, after.pool? id = some q → q.Whole := fun q found =>
    Pool.whole_of_sound (sound'.heap found)
  unfold Stands at stands ⊢
  unfold Machine.arena
  generalize m.pool? id = known at before fate
  generalize after.pool? id = found at behind stands fate
  cases fate with
  | absent =>
    refine ⟨nofun, [], log, ?_⟩
    rw [Pool.unlogged_self]
    rfl
  | @opened q phase heap =>
    have empty : q.arena = 0 := congrArg (·.usage.segmentBytes) heap
    refine ⟨nofun, _, log, ?_⟩
    simp only [Option.map_none, Option.map_some, Option.getD_none, Option.getD_some, empty,
      Pool.unlogged_self]
    rfl
  | @goesOn p q _ _ deed =>
    have ends := stands q rfl
    refine ⟨fun r same => ?_, new, log, deed.arena (before p rfl) (behind q rfl) ends⟩
    cases same
    exact fun ended => ends (deed.destroyed ended)

/-- The bytes by which the segments of a pool have grown in calls that resized a block of it. -/
def unlogged (id : PoolId) : List (Machine × Call) → Nat
  | [] => 0
  | (m, c) :: before =>
    Pool.unlogged (c.refitter? m = some id) (m.arena id) ((c.run m).machine.arena id) +
      unlogged id before

theorem Trail.segments (trail : Trail steps m) (id : PoolId) (stands : m.Stands id) :
    m.arena id + Event.returned (m.log id) = Event.reserved (m.log id) + unlogged id steps := by
  induction trail with
  | start slots => rfl
  | @step m before c trail may ih =>
    obtain ⟨_, _, sound⟩ := trail.attempted.sound
    obtain ⟨_, _, sound'⟩ := (trail.step c may).attempted.sound
    obtain ⟨stood, new, log, balance⟩ := (sound.run_does c).arena sound sound' stands
    have old := ih stood
    rw [log, Event.returned_append, Event.reserved_append, unlogged]
    omega

/-- Calls that bring nothing while they resize a block leave nothing out. -/
theorem unlogged_eq_zero (loud : ∀ s ∈ steps, s.2.refitter? s.1 = some id →
    (s.2.run s.1).machine.arena id ≤ s.1.arena id) : unlogged id steps = 0 := by
  induction steps with
  | nil => rfl
  | cons s before ih =>
    obtain ⟨first, later⟩ := List.forall_mem_cons.1 loud
    rw [unlogged, ih later, Nat.add_zero, Pool.unlogged]
    split
    · rename_i own
      exact Nat.sub_eq_zero_of_le (first own)
    · rfl

/-- The events of a pool that is not destroyed account for its segments, up to those that it has
brought when it resized a block. Where no call has done that, they account for all of them. -/
theorem Trail.segments_accounted (trail : Trail steps m) (inPools : p ∈ m.pools)
    (stands : p.phase ≠ .destroyed) :
    p.heap.usage.segmentBytes + Event.returned (m.log p.id) =
        Event.reserved (m.log p.id) + unlogged p.id steps ∧
      ((∀ s ∈ steps, s.2.refitter? s.1 = some p.id →
          (s.2.run s.1).machine.arena p.id ≤ s.1.arena p.id) →
        p.heap.usage.segmentBytes + Event.returned (m.log p.id) =
          Event.reserved (m.log p.id)) := by
  obtain ⟨_, _, sound⟩ := trail.attempted.sound
  have found := sound.pool?_eq inPools
  have balance := trail.segments p.id fun q other => by
    cases found.symm.trans other
    exact stands
  rw [arena_eq found] at balance
  refine ⟨balance, fun loud => ?_⟩
  rw [unlogged_eq_zero loud] at balance
  exact balance

/-- Blocks fill a segment, so that one of them has to move to a new segment when it grows. Then it
is released, and the new segment goes back to the system heap. -/
def crowded : List Call :=
  .openPool { thread := 0 } {} ::
      List.replicate 7 (.allocate { thread := 0 } (some 1) (.plain 131056)) ++
    [.allocate { thread := 0 } (some 1) (.plain 100),
      .allocate { thread := 0 } (some 1) (.plain 100),
      .resizeBlock 1 (SystemHeap.slotBase 3 + 917392) 131056,
      .releaseBlock { thread := 0 } 1 (SystemHeap.slotBase 1), .trimPool 1]

/-- The events account for the segment that requests have brought, and for both only together with
what they do not mention. -/
theorem crowded_accounted :
    (∀ p ∈ (Call.runAll (crowded.take 10) (.start [3, 1])).pools,
      p.heap.usage.segmentBytes = 1048576 ∧
      p.heap.usage.segmentBytes +
          Event.returned ((Call.runAll (crowded.take 10) (.start [3, 1])).log p.id) =
        Event.reserved ((Call.runAll (crowded.take 10) (.start [3, 1])).log p.id)) ∧
    ∀ p ∈ (Call.runAll crowded (.start [3, 1])).pools, p.heap.usage.segmentBytes = 1048576 ∧
      unlogged p.id (Call.trace [] crowded (.start [3, 1])) = 1048576 ∧
      p.heap.usage.segmentBytes + Event.returned ((Call.runAll crowded (.start [3, 1])).log p.id) =
        Event.reserved ((Call.runAll crowded (.start [3, 1])).log p.id) +
          unlogged p.id (Call.trace [] crowded (.start [3, 1])) := by
  have first := (Trail.start [3, 1]).runAll (.start [3, 1]) (crowded.take 10) (by decide +kernel)
  have second := (Trail.start [3, 1]).runAll (.start [3, 1]) crowded (by decide +kernel)
  have values : ∀ p ∈ (Call.runAll (crowded.take 10) (.start [3, 1])).pools,
      p.id = 1 ∧ p.phase = .live ∧ p.heap.usage.segmentBytes = 1048576 := by decide +kernel
  have values' : ∀ p ∈ (Call.runAll crowded (.start [3, 1])).pools,
      p.id = 1 ∧ p.phase = .live ∧ p.heap.usage.segmentBytes = 1048576 := by decide +kernel
  refine ⟨fun p inPools => ?_, fun p inPools => ?_⟩
  · obtain ⟨number, isLive, value⟩ := values p inPools
    refine ⟨value, (Trail.segments_accounted first inPools (by simp [isLive])).2 ?_⟩
    rw [number]
    decide +kernel
  · obtain ⟨number, isLive, value⟩ := values' p inPools
    refine ⟨value, ?_, (Trail.segments_accounted second inPools (by simp [isLive])).1⟩
    rw [number]
    decide +kernel

/-- It is not the case that the events of a pool account for all of its segments. -/
theorem not_segments_accounted : ¬ ∀ (steps : List (Machine × Call)) (m : Machine) (p : Pool),
    Trail steps m → p ∈ m.pools → p.phase ≠ .destroyed →
      p.heap.usage.segmentBytes + Event.returned (m.log p.id) = Event.reserved (m.log p.id) := by
  intro accounted
  have trail := (Trail.start [3, 1]).runAll (.start [3, 1]) (crowded.take 11) (by decide +kernel)
  have exceeds : ∃ p ∈ (Call.runAll (crowded.take 11) (.start [3, 1])).pools,
      p.phase ≠ .destroyed ∧
        Event.reserved ((Call.runAll (crowded.take 11) (.start [3, 1])).log p.id) <
          p.heap.usage.segmentBytes := by decide +kernel
  obtain ⟨p, inPools, stands, exceeds⟩ := exceeds
  have balance := accounted _ _ p trail inPools stands
  omega

end Machine

end PooledMemory
