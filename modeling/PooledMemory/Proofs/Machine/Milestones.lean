import PooledMemory.Proofs.Machine.Journal
import PooledMemory.Proofs.Machine.Peak

namespace PooledMemory

namespace Event

/-- The turning points in the life of a pool. -/
inductive Milestone
  | creation
  | deferral
  | destruction
  deriving DecidableEq

def milestone? : Event → Option Milestone
  | poolCreated _ _ _ _ _ => some .creation
  | deletionDeferred _ _ _ => some .deferral
  | poolDestroyed _ _ _ => some .destruction
  | _ => none

/-- The events of a log that tell how the life of a pool begins and ends. -/
def milestones (log : List Event) : List Event := log.filter (·.milestone?.isSome)

theorem milestones_append (log new : List Event) :
    milestones (log ++ new) = milestones log ++ milestones new :=
  List.filter_append ..

/-- A log has reached a milestone. -/
def Reaches (log : List Event) (milestone : Milestone) : Prop :=
  ∃ e ∈ log, e.milestone? = some milestone

instance (log : List Event) (milestone : Milestone) : Decidable (Reaches log milestone) :=
  inferInstanceAs (Decidable (∃ e ∈ log, e.milestone? = some milestone))

theorem reaches_milestones {log : List Event} {milestone : Milestone} :
    Reaches (milestones log) milestone ↔ Reaches log milestone := by
  refine exists_congr fun e => ?_
  rw [milestones, List.mem_filter, and_assoc]
  refine and_congr_right fun _ => and_iff_right_of_imp fun reached => ?_
  rw [reached]
  rfl

end Event

namespace Pool

/-- What a call adds to the life of a pool. The numbers in the events are those of its live blocks
at that moment: a call that defers or destroys a live pool names no block, and one that destroys a
pool after its last block names that block. -/
inductive Chapter (block : Option Address) : Option Pool → List Event → Option Pool → Prop
  | absent : Chapter block none [] none
  | opened {q : Pool} : q.phase = .live → q.heap.live = [] →
    Chapter block none [q.created] (some q)
  | stays {p q : Pool} : q.phase = p.phase → Chapter block (some p) [] (some q)
  | defers {p q : Pool} : block = none → p.phase = .live → q.phase = .deletePending →
    q.heap.live = p.heap.live → p.heap.live ≠ [] →
    Chapter block (some p) [.deletionDeferred p.id p.name p.heap.live.length] (some q)
  | ends {p q : Pool} : block = none → p.phase = .live → q.phase = .destroyed →
    Chapter block (some p) [.poolDestroyed p.id p.name p.heap.live.length] (some q)
  | follows {p q : Pool} {b : LiveBlock} : block = some b.addr → p.phase = .deletePending →
    p.heap.live = [b] → q.phase = .destroyed →
    Chapter block (some p) [.poolDestroyed p.id p.name 0] (some q)

/-- The milestones of a pool in each phase of its life. -/
inductive Story (p : Pool) : List Event → Prop
  | lives : p.phase = .live → Story p [p.created]
  | waits {n : Nat} : p.phase = .deletePending → 0 < n →
    Story p [p.created, .deletionDeferred p.id p.name n]
  | ended {n : Nat} : p.phase = .destroyed → Story p [p.created, .poolDestroyed p.id p.name n]
  | endedLate {n : Nat} : p.phase = .destroyed → 0 < n →
    Story p [p.created, .deletionDeferred p.id p.name n, .poolDestroyed p.id p.name 0]

variable {refits : Prop} {block : Option Address} {p q : Pool} {past new : List Event}

theorem Deed.chapter (deed : p.Deed refits block q new) :
    Chapter block (some p) (Event.milestones new) (some q) := by
  induction deed with
  | rests phase _ => exact .stays phase
  | serves _ before behind _ _ logged =>
    rw [logged]
    split <;> exact .stays (behind.trans before.symm)
  | resizes _ phase _ _ _ => exact .stays phase
  | releases phase _ _ _ => exact .stays phase
  | trims _ phase _ _ _ logged =>
    rw [logged]
    split <;> exact .stays phase
  | defers unnamed before behind heap occupied =>
    exact .defers unnamed before behind (congrArg Heap.live heap) occupied
  | ends unnamed before behind _ => exact .ends unnamed before behind
  | follows named before behind last _ _ _ => exact .follows named before last behind
  | @returns middle q _ _ _ _ new _ _ isLive behind _ _ _ ih =>
    -- a pool that is live afterwards has reached no milestone
    generalize Event.milestones new = passed at ih
    cases ih with
    | stays phase => exact .stays (behind.trans (isLive.symm.trans phase))
    | defers _ _ waits _ _ => cases isLive.symm.trans waits
    | ends _ _ ended => cases isLive.symm.trans ended
    | follows _ _ _ ended => cases isLive.symm.trans ended

theorem Remains.created (remains : p.Remains q) : q.created = p.created := by
  rw [Pool.created, Pool.created, Pool.name, Pool.name, remains.id, remains.settings]

theorem Remains.name (remains : p.Remains q) : q.name = p.name := by
  rw [Pool.name, Pool.name, remains.settings]

/-- Each chapter carries the story on. -/
theorem Story.chapter (story : p.Story past) (remains : p.Remains q)
    (chapter : Chapter block (some p) new (some q)) : q.Story (past ++ new) := by
  have created := remains.created
  have name := remains.name
  have id := remains.id
  cases chapter with
  | stays phase =>
    rw [List.append_nil]
    cases story with
    | lives isLive => exact created ▸ .lives (phase.trans isLive)
    | waits pending some' =>
      rw [← created, ← name, ← id]
      exact .waits (phase.trans pending) some'
    | ended gone =>
      rw [← created, ← name, ← id]
      exact .ended (phase.trans gone)
    | endedLate gone some' =>
      rw [← created, ← name, ← id]
      exact .endedLate (phase.trans gone) some'
  | defers _ isLive waits _ occupied =>
    cases story with
    | lives _ =>
      rw [← created, ← name, ← id]
      exact .waits waits (List.length_pos_iff.2 occupied)
    | waits pending _ => cases isLive.symm.trans pending
    | ended gone => cases isLive.symm.trans gone
    | endedLate gone _ => cases isLive.symm.trans gone
  | ends _ isLive gone =>
    cases story with
    | lives _ =>
      rw [← created, ← name, ← id]
      exact .ended gone
    | waits pending _ => cases isLive.symm.trans pending
    | ended gone' => cases isLive.symm.trans gone'
    | endedLate gone' _ => cases isLive.symm.trans gone'
  | follows _ pending _ gone =>
    cases story with
    | lives isLive => cases isLive.symm.trans pending
    | waits _ some' =>
      rw [← created, ← name, ← id]
      exact .endedLate gone some'
    | ended gone' => cases pending.symm.trans gone'
    | endedLate gone' _ => cases pending.symm.trans gone'

/-- A story always begins with the creation of the pool, and it is over when the pool is destroyed.
As long as it is not, the pool waits for its blocks from the deferral on. -/
theorem Story.reaches (story : p.Story past) : Event.Reaches past .creation ∧
    (Event.Reaches past .destruction ↔ p.phase = .destroyed) ∧
    (p.phase ≠ .destroyed → (Event.Reaches past .deferral ↔ p.phase = .deletePending)) := by
  cases story with
  | lives isLive => simp [isLive, Event.Reaches, Pool.created, Event.milestone?]
  | waits pending _ => simp [pending, Event.Reaches, Pool.created, Event.milestone?]
  | ended gone => simp [gone, Event.Reaches, Pool.created, Event.milestone?]
  | endedLate gone _ => simp [gone, Event.Reaches, Pool.created, Event.milestone?]

end Pool

namespace Machine

variable {m after : Machine} {lost : List (Address × PoolId)} {loans : List SystemBlock}
  {refits : PoolId → Prop} {block : Option Address} {id : PoolId} {p : Pool}

/-- What a pool has told of its life so far. -/
def milestones (m : Machine) (id : PoolId) : List Event := Event.milestones (m.log id)

/-- Each pool has gone through the milestones that its phase demands, and nothing has been heard of
pools that do not exist. -/
structure Storied (m : Machine) : Prop where
  unknown : ∀ id, m.pool? id = none → m.log id = []
  told : ∀ id p, m.pool? id = some p → p.Story (m.milestones id)

theorem Does.chapter (does : Does refits block m after) (id : PoolId) :
    ∃ new, after.milestones id = m.milestones id ++ new ∧
      Pool.Chapter block (m.pool? id) new (after.pool? id) := by
  obtain ⟨new, log, fate⟩ := does id
  refine ⟨Event.milestones new, by rw [milestones, log, Event.milestones_append, milestones], ?_⟩
  generalize m.pool? id = known at fate
  generalize after.pool? id = found at fate
  cases fate with
  | absent => exact .absent
  | opened phase heap => exact .opened phase (by rw [heap]; rfl)
  | goesOn _ deed => exact deed.chapter

theorem Does.storied (does : Does refits block m after) (storied : m.Storied) : after.Storied := by
  have each : ∀ id, (after.pool? id = none → after.log id = []) ∧
      ∀ q, after.pool? id = some q → q.Story (after.milestones id) := by
    intro id
    obtain ⟨new, log, fate⟩ := does id
    have unknown := storied.unknown id
    have told := storied.told id
    have later : after.milestones id = m.milestones id ++ Event.milestones new := by
      rw [milestones, log, Event.milestones_append, milestones]
    rw [later, log]
    generalize m.pool? id = known at unknown told fate
    generalize after.pool? id = found at fate
    cases fate with
    | absent => exact ⟨fun _ => by rw [unknown rfl]; rfl, nofun⟩
    | @opened q phase _ =>
      refine ⟨nofun, fun r same => ?_⟩
      cases same
      rw [milestones, unknown rfl]
      exact .lives phase
    | goesOn remains deed =>
      refine ⟨nofun, fun r same => ?_⟩
      cases same
      exact (told _ rfl).chapter remains deed.chapter
  exact ⟨fun id => (each id).1, fun id => (each id).2⟩

theorem Attempted.storied (attempted : Attempted m) : m.Storied :=
  attempted.of_does (fun _ => ⟨fun _ _ => rfl, nofun⟩) Does.storied

theorem Attempted.enrolled (attempted : Attempted m) : m.Enrolled := by
  induction attempted with
  | start slots => exact start_enrolled slots
  | step c attempted sane recorded ih =>
    obtain ⟨_, _, sound⟩ := attempted.sound
    exact ((attempted.conduct (.inl ⟨sane, recorded⟩)).enrolled sound ih).1
  | stopped c attempted stopped ih =>
    obtain ⟨_, _, sound⟩ := attempted.sound
    exact ((attempted.conduct (.inr ⟨_, stopped⟩)).enrolled sound ih).1

/-- The pools that a listing shows are those that are not destroyed. -/
theorem Sound.reports_perm (sound : m.Sound lost loans) (enrolled : m.Enrolled) :
    m.poolReports.Perm ((m.pools.filter (·.phase != .destroyed)).map (·.report)) :=
  (sound.listed_perm enrolled).map _

theorem Sound.reported_iff (sound : m.Sound lost loans) (enrolled : m.Enrolled) {r : PoolReport} :
    r ∈ m.poolReports ↔ ∃ p, m.pool? r.id = some p ∧ p.phase ≠ .destroyed ∧ p.report = r := by
  rw [(sound.reports_perm enrolled).mem_iff, List.mem_map]
  constructor
  · rintro ⟨p, member, rfl⟩
    obtain ⟨inPools, stands⟩ := List.mem_filter.1 member
    exact ⟨p, sound.pool?_eq inPools, by simpa using stands, rfl⟩
  · rintro ⟨p, found, stands, rfl⟩
    exact ⟨p, List.mem_filter.2 ⟨(pool?_mem found).1, by simpa using stands⟩, rfl⟩

theorem Sound.reports_nodup (sound : m.Sound lost loans) (enrolled : m.Enrolled) :
    (m.poolReports.map (·.id)).Nodup := by
  have perm := (sound.reports_perm enrolled).map (·.id)
  rw [List.map_map] at perm
  refine perm.nodup_iff.2 ?_
  have all : (m.pools.map (·.id)).Nodup := sound.ids
  exact all.sublist (List.filter_sublist.map _)

/-- What pools log about their lives matches the listing. Each pool logs its creation, then at
most a deferral, then at most its destruction, and after a deferral no block is left behind. The
listing shows, once each, the pools whose creation is logged and whose destruction is not, and
marks those whose deferral is. What a call adds to the life of a pool is logged with the number
of live blocks. -/
theorem Attempted.chronicled (attempted : Attempted m) :
    (∀ id, (m.pool? id = none → m.log id = []) ∧
      ∀ p, m.pool? id = some p → p.Story (m.milestones id)) ∧
    ((m.poolReports.map (·.id)).Nodup ∧
      (∀ id, (∃ r ∈ m.poolReports, r.id = id) ↔
        Event.Reaches (m.log id) .creation ∧ ¬ Event.Reaches (m.log id) .destruction) ∧
      ∀ r ∈ m.poolReports, r.deletePending = true ↔ Event.Reaches (m.log r.id) .deferral) ∧
    ∀ (c : Call) (id : PoolId), ∃ new,
      (c.run m).machine.milestones id = m.milestones id ++ new ∧
        Pool.Chapter c.block? (m.pool? id) new ((c.run m).machine.pool? id) := by
  obtain ⟨_, _, sound⟩ := attempted.sound
  have enrolled := attempted.enrolled
  obtain ⟨unknown, told⟩ := attempted.storied
  refine ⟨fun id => ⟨unknown id, told id⟩, ⟨sound.reports_nodup enrolled, fun id => ?_,
    fun r member => ?_⟩, fun c id => (sound.run_does c).chapter id⟩
  · cases found : m.pool? id with
    | none =>
      have nothing : ∀ milestone, ¬ Event.Reaches (m.log id) milestone := by
        rw [unknown id found]
        rintro milestone ⟨_, ⟨⟩, _⟩
      refine iff_of_false ?_ fun both => nothing _ both.1
      rintro ⟨r, member, rfl⟩
      obtain ⟨p, found', _⟩ := (sound.reported_iff enrolled).1 member
      cases found.symm.trans found'
    | some p =>
      obtain ⟨created, ended, _⟩ := (told id p found).reaches
      rw [milestones, Event.reaches_milestones] at created ended
      rw [ended, and_iff_right created]
      constructor
      · rintro ⟨r, member, rfl⟩
        obtain ⟨q, found', stands, _⟩ := (sound.reported_iff enrolled).1 member
        cases found.symm.trans found'
        exact stands
      · obtain ⟨_, rfl⟩ := pool?_mem found
        exact fun stands => ⟨p.report, (sound.reported_iff enrolled).2 ⟨p, found, stands, rfl⟩, rfl⟩
  · obtain ⟨p, found, stands, rfl⟩ := (sound.reported_iff enrolled).1 member
    obtain ⟨_, _, deferred⟩ := (told _ p found).reaches
    rw [milestones, Event.reaches_milestones] at deferred
    rw [deferred stands]
    exact beq_iff_eq

/-- A pool that waits for its only block is listed as delete-pending. When the block moves away, the
pool is destroyed, and it leaves nothing behind. -/
theorem waiting_chronicled :
    let c : Call := .reallocate { thread := 1 } none (SystemHeap.slotBase 3) 60
    let after := (c.run waiting).machine
    (waiting.poolReports.map (·.deletePending) = [true] ∧
      ∀ r ∈ waiting.poolReports,
        r.deletePending = true ↔ Event.Reaches (waiting.log r.id) .deferral) ∧
    after.milestones 1 = [.poolCreated 1 "" 18446744073709551615 false true,
      .deletionDeferred 1 "" 1, .poolDestroyed 1 "" 0] ∧
    ∃ new, after.milestones 1 = waiting.milestones 1 ++ new ∧
      Pool.Chapter (some (SystemHeap.slotBase 3)) (waiting.pool? 1) new (after.pool? 1) := by
  have reached : Reachable waiting := (Reachable.start [3]).runAll _ (by decide +kernel)
  obtain ⟨_, ⟨_, _, pending⟩, chapter⟩ := Attempted.chronicled reached.attempted
  exact ⟨⟨by decide +kernel, pending⟩, by decide +kernel, chapter _ 1⟩

end Machine

end PooledMemory
