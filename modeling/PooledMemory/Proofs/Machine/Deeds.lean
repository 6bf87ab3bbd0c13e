import PooledMemory.Proofs.Heap.Bins
import PooledMemory.Proofs.Machine.Interference

namespace PooledMemory

/-- The pool that tells of itself with an event: that it begins or ends, or how its memory grows and
shrinks. -/
def Event.reporter? : Event → Option PoolId
  | poolCreated id _ _ _ _ => some id
  | segmentReserved id => some id
  | segmentsReturned id _ => some id
  | deletionDeferred id _ _ => some id
  | poolDestroyed id _ _ => some id
  | _ => none

namespace Pool

/-- What a pool logs when it is opened. -/
def created (p : Pool) : Event :=
  .poolCreated p.id p.name p.settings.maxSize p.settings.owned p.settings.lazy

/-- What a pool does during one call, and what it logs. Whether it is to resize a block of its own
is given as `refits`, and `block` is the block that the call names. -/
inductive Deed (refits : Prop) (block : Option Address) (p : Pool) : Pool → List Event → Prop
  | rests {q : Pool} : q.phase = p.phase → q.heap = p.heap → Deed refits block p q []
  | serves {q : Pool} {system : SystemHeap} {size align : Nat}
    {step : HeapStep (Option Address)} {new : List Event} : ¬ refits → p.phase = .live →
    q.phase = .live → p.heap.allocate system size align = .ok step → q.heap = step.heap →
    new = (if p.heap.segments.length < q.heap.segments.length then [.segmentReserved p.id] else []) →
    Deed refits block p q new
  | resizes {q : Pool} {system : SystemHeap} {rest : List SystemBlock} {addr : Address} {size : Nat}
    {step : HeapStep (Option Resized)} : refits → q.phase = p.phase →
    p.heap.Sound system rest [] → p.heap.resize system addr size = .ok step →
    q.heap = step.heap → Deed refits block p q []
  | releases {q : Pool} {system : SystemHeap} {rest : List SystemBlock} {addr : Address}
    {step : HeapStep (Option Nat)} : q.phase = p.phase → p.heap.Sound system rest [] →
    p.heap.release system addr = .ok step → q.heap = step.heap → Deed refits block p q []
  | trims {q : Pool} {system : SystemHeap} {rest : List SystemBlock} {step : HeapStep Nat}
    {new : List Event} : ¬ refits → q.phase = p.phase → p.heap.Sound system rest [] →
    p.heap.trim system = .ok step → q.heap = step.heap →
    new = (if 0 < step.answer then [.segmentsReturned p.id step.answer] else []) →
    Deed refits block p q new
  | defers {q : Pool} : block = none → p.phase = .live → q.phase = .deletePending →
    q.heap = p.heap → p.heap.live ≠ [] →
    Deed refits block p q [.deletionDeferred p.id p.name p.heap.live.length]
  | ends {q : Pool} {system : SystemHeap} : block = none → p.phase = .live →
    q.phase = .destroyed → q.heap = (p.heap.releaseAll system).1 →
    Deed refits block p q [.poolDestroyed p.id p.name p.heap.live.length]
  /-- The pool ends with the last of the blocks that it has waited for. -/
  | follows {q : Pool} {system : SystemHeap} {rest : List SystemBlock} {b : LiveBlock}
    {step : HeapStep (Option Nat)} : block = some b.addr → p.phase = .deletePending →
    q.phase = .destroyed → p.heap.live = [b] → p.heap.Sound system rest [] →
    p.heap.release system b.addr = .ok step → q.heap = (step.heap.releaseAll step.system).1 →
    Deed refits block p q [.poolDestroyed p.id p.name 0]
  /-- A block is handed back by the call that it was issued to, before any other one. -/
  | returns {middle q : Pool} {system : SystemHeap} {rest : List SystemBlock} {addr : Address}
    {step : HeapStep (Option Nat)} {new : List Event} : Deed refits block p middle new →
    ParkedChunk.Draws p.heap.parked middle.heap.parked →
    middle.phase = .live → q.phase = .live → middle.heap.Sound system rest [] →
    middle.heap.release system addr = .ok step → q.heap = step.heap → Deed refits block p q new

variable {refits : Prop} {block : Option Address} {p q r : Pool} {new : List Event}

/-- Handles and the like play no part in what a pool does. -/
theorem Deed.congr (deed : p.Deed refits block q new) (phase : r.phase = q.phase)
    (heap : r.heap = q.heap) : p.Deed refits block r new := by
  cases deed with
  | rests same still => exact .rests (phase.trans same) (heap.trans still)
  | serves plain before behind allocated stored logged =>
    exact .serves plain before (phase.trans behind) allocated (heap.trans stored) (heap ▸ logged)
  | resizes own same sound resized stored =>
    exact .resizes own (phase.trans same) sound resized (heap.trans stored)
  | releases same sound released stored =>
    exact .releases (phase.trans same) sound released (heap.trans stored)
  | trims plain same sound trimmed stored logged =>
    exact .trims plain (phase.trans same) sound trimmed (heap.trans stored) logged
  | defers unnamed before behind still occupied =>
    exact .defers unnamed before (phase.trans behind) (heap.trans still) occupied
  | ends unnamed before behind emptied =>
    exact .ends unnamed before (phase.trans behind) (heap.trans emptied)
  | follows named before behind last sound released emptied =>
    exact .follows named before (phase.trans behind) last sound released (heap.trans emptied)
  | returns deed draws middle behind sound released stored =>
    exact .returns deed draws middle (phase.trans behind) sound released (heap.trans stored)

/-- What becomes of a pool during one call, if there is one before or after it, and what it logs. -/
inductive Fate (refits : Prop) (block : Option Address) :
    Option Pool → List Event → Option Pool → Prop
  | absent : Fate refits block none [] none
  | opened {q : Pool} : q.phase = .live → q.heap = .empty q.settings.maxSize →
    Fate refits block none [q.created] (some q)
  | goesOn {p q : Pool} {new : List Event} : p.Remains q → p.Deed refits block q new →
    Fate refits block (some p) new (some q)

theorem Fate.silent (found : Option Pool) : Fate refits block found [] found := by
  cases found with
  | none => exact .absent
  | some p => exact .goesOn ⟨rfl, rfl, rfl⟩ (.rests rfl rfl)

end Pool

namespace Machine

/-- What a pool has told of itself so far, the oldest event first. -/
def log (m : Machine) (id : PoolId) : List Event := m.events.filter (·.reporter? == some id)

/-- A pool neither does nor logs anything. -/
structure Silent (m after : Machine) (id : PoolId) : Prop where
  pool : after.pool? id = m.pool? id
  log : after.log id = m.log id

/-- Each pool does one thing at most and logs what it does. -/
def Does (refits : PoolId → Prop) (block : Option Address) (m after : Machine) : Prop :=
  ∀ id, ∃ new, after.log id = m.log id ++ new ∧
    Pool.Fate (refits id) block (m.pool? id) new (after.pool? id)

/-- At most one pool does anything. -/
structure Deals (own : Option PoolId) (refits : PoolId → Prop) (block : Option Address)
    (m after : Machine) : Prop where
  does : Does refits block m after
  others : ∀ id, own ≠ some id → m.Silent after id

variable {m middle after : Machine} {lost : List (Address × PoolId)} {loans : List SystemBlock}
  {id : PoolId} {own : Option PoolId} {refits : PoolId → Prop} {block : Option Address}
  {p : Pool} {new : List Event}

theorem log_of_events (events : after.events = m.events ++ new) :
    after.log id = m.log id ++ new.filter (·.reporter? == some id) := by
  rw [log, events, List.filter_append, log]

theorem log_of_unreported (events : after.events = m.events ++ new)
    (unreported : ∀ e ∈ new, e.reporter? ≠ some id) : after.log id = m.log id := by
  have nothing : new.filter (·.reporter? == some id) = [] :=
    List.filter_eq_nil_iff.2 fun e member => by simpa using unreported e member
  rw [log_of_events events, nothing, List.append_nil]

theorem Silent.fate (silent : m.Silent after id) : ∃ new, after.log id = m.log id ++ new ∧
    Pool.Fate (refits id) block (m.pool? id) new (after.pool? id) :=
  ⟨[], by rw [silent.log, List.append_nil], silent.pool ▸ .silent _⟩

/-- Two operations follow each other, and no pool has a part in both. -/
theorem Does.trans (first : Does refits block m middle) (second : Does refits block middle after)
    (apart : ∀ id, m.Silent middle id ∨ middle.Silent after id) : Does refits block m after := by
  intro id
  rcases apart id with ⟨pool, log⟩ | ⟨pool, log⟩
  · rw [← pool, ← log]
    exact second id
  · rw [pool, log]
    exact first id

theorem Silent.trans (first : m.Silent middle id) (second : middle.Silent after id) :
    m.Silent after id :=
  ⟨second.pool.trans first.pool, second.log.trans first.log⟩

/-- Nothing about pools is different, and no event is one of a pool. -/
theorem Deals.noted (pools : after.pools = m.pools) (events : after.events = m.events ++ new)
    (unreported : ∀ e ∈ new, e.reporter? = none) : Deals own refits block m after := by
  have silent : ∀ id, m.Silent after id := fun id =>
    ⟨by rw [pool?, pool?, pools],
      log_of_unreported events fun e member => by simp [unreported e member]⟩
  exact ⟨fun id => (silent id).fate, fun id _ => silent id⟩

theorem Deals.aside (pools : after.pools = m.pools) (events : after.events = m.events) :
    Deals own refits block m after :=
  .noted pools (events.trans (List.append_nil _).symm) (List.forall_mem_nil _)

/-- One pool does something, and all events are its own. -/
theorem Deals.of_fate (others : ∀ other, other ≠ id → after.pool? other = m.pool? other)
    (events : after.events = m.events ++ new) (reported : ∀ e ∈ new, e.reporter? = some id)
    (fate : Pool.Fate (refits id) block (m.pool? id) new (after.pool? id)) :
    Deals (some id) refits block m after := by
  have silent : ∀ other, other ≠ id → m.Silent after other := fun other different =>
    ⟨others other different, log_of_unreported events fun e member same =>
      different (Option.some.inj (same.symm.trans (reported e member)))⟩
  refine ⟨fun other => ?_, fun other different => silent other fun same => different (same ▸ rfl)⟩
  by_cases same : other = id
  · subst same
    have all : new.filter (·.reporter? == some other) = new :=
      List.filter_eq_self.2 fun e member => by simpa using reported e member
    exact ⟨new, by rw [log_of_events events, all], fate⟩
  · exact (silent other same).fate

theorem Deals.turned {f : Pool → Pool} (found : m.pool? id = some p)
    (pools : after.pools = (m.updatePool id f).pools) (keeps : ∀ p, (f p).id = p.id)
    (events : after.events = m.events ++ new) (reported : ∀ e ∈ new, e.reporter? = some id)
    (remains : p.Remains (f p)) (deed : p.Deed (refits id) block (f p) new) :
    Deals (some id) refits block m after := by
  have everywhere : ∀ other, after.pool? other = (m.updatePool id f).pool? other := by
    intro other
    rw [pool?, pool?, pools]
  refine .of_fate (fun other different => ?_) events reported ?_
  · rw [everywhere, pool?_updatePool_of_ne keeps different]
  · rw [everywhere, pool?_updatePool keeps, found, Option.map_some, if_pos (pool?_id found)]
    exact .goesOn remains deed

/-- A pool has done something to its heap. -/
theorem Deals.put {heap : Heap} (found : m.pool? id = some p)
    (pools : after.pools = (m.updatePool id ({ · with heap })).pools)
    (events : after.events = m.events ++ new) (reported : ∀ e ∈ new, e.reporter? = some id)
    (deed : p.Deed (refits id) block { p with heap } new) : Deals (some id) refits block m after :=
  .turned (f := ({ · with heap })) found pools (fun _ => rfl) events reported ⟨rfl, rfl, rfl⟩ deed

theorem Deals.put_silent {heap : Heap} (found : m.pool? id = some p)
    (pools : after.pools = (m.updatePool id ({ · with heap })).pools)
    (events : after.events = m.events)
    (deed : p.Deed (refits id) block { p with heap } []) : Deals (some id) refits block m after :=
  .put found pools (events.trans (List.append_nil _).symm) (List.forall_mem_nil _) deed

theorem openPool_deals (sound : m.Sound lost loans) (caller : Caller) (settings : PoolSettings) :
    Deals (some m.nextId) refits block m (m.openPool caller settings).2 := by
  have unknown : m.pool? m.nextId = none := List.find?_eq_none.2 fun p inPools => by
    simpa using Nat.ne_of_lt (sound.numbered p inPools)
  have opened : ∀ {p : Pool} {after : Machine}, after.pools = m.pools ++ [p] → p.id = m.nextId →
      after.events = m.events ++ [p.created] → p.phase = .live →
      p.heap = .empty p.settings.maxSize → Deals (some m.nextId) refits block m after := by
    intro p after pools number events phase heap
    refine .of_fate (fun other different => ?_) events
      (List.forall_mem_singleton.2 (congrArg some number)) ?_
    · have notNew : (p.id == other) = false := by simpa [number] using Ne.symm different
      simp [pool?, pools, List.find?_append, notNew]
    · have found : after.pool? m.nextId = some p := by
        rw [pool?, pools, List.find?_append, ← pool?, unknown]
        simp [number]
      rw [unknown, found]
      exact .opened phase heap
  unfold Machine.openPool
  simp only
  split
  · exact opened rfl rfl rfl rfl rfl
  · exact opened rfl rfl rfl rfl rfl

theorem retire_deals (m : Machine) (caller : Caller) (id : PoolId) :
    Deals (some id) refits none m (m.retire caller id).2 := by
  unfold Machine.retire
  cases found : m.pool? id with
  | none => exact .aside rfl rfl
  | some p =>
    obtain ⟨_, rfl⟩ := pool?_mem found
    simp only
    split
    · exact .aside rfl rfl
    · rename_i isLive
      have live : p.phase = .live := not_not.1 isLive
      split
      · rename_i waits
        obtain ⟨threads, cleared⟩ :=
          clearCurrent_eq (m.setPhase p.id .deletePending) caller.thread p.id
        rw [cleared]
        exact .turned (f := ({ · with phase := .deletePending })) found rfl (fun _ => rfl) rfl
          (List.forall_mem_singleton.2 rfl) ⟨rfl, rfl, rfl⟩
          (.defers rfl live rfl rfl (List.ne_nil_of_length_pos waits.1))
      · obtain ⟨threads, same⟩ := destroy_eq m caller p
        rw [same]
        exact .turned (f := Pool.emptied (p.heap.releaseAll m.system).1) found rfl (fun _ => rfl)
          rfl (List.forall_mem_singleton.2 rfl) ⟨rfl, rfl, rfl⟩ (.ends rfl live rfl rfl)

/-- The pool does what it does, and then nobody holds its handle any more. -/
theorem Deals.letGo (deals : Deals (some id) refits block m middle) :
    Deals (some id) refits block m (middle.updatePool id ({ · with held := false })) := by
  have keeps : ∀ p : Pool, ({ p with held := false } : Pool).id = p.id := fun _ => rfl
  refine ⟨fun other => ?_, fun other different => ?_⟩
  · obtain ⟨new, log, fate⟩ := deals.does other
    refine ⟨new, log, ?_⟩
    rw [pool?_updatePool keeps]
    revert fate
    cases middle.pool? other with
    | none => exact fun fate => fate
    | some q =>
      intro fate
      rw [Option.map_some]
      split
      · generalize m.pool? other = before at fate
        cases fate with
        | opened phase heap =>
          exact Pool.Fate.opened (q := { q with held := false }) phase heap
        | goesOn remains deed =>
          exact .goesOn ⟨remains.id, remains.settings, remains.owner⟩ (deed.congr rfl rfl)
      · exact fate
  · obtain ⟨pool, log⟩ := deals.others other different
    refine ⟨?_, log⟩
    rw [pool?_updatePool_of_ne keeps fun same => different (congrArg some same.symm), pool]

theorem dropPool_deals (m : Machine) (caller : Caller) (id : PoolId) :
    Deals (some id) refits none m (m.dropPool caller id).machine := by
  have letGo : Deals (some id) refits none m
      ((m.retire caller id).2.updatePool id ({ · with held := false })) :=
    (retire_deals m caller id).letGo
  unfold Machine.dropPool
  simp only
  split
  · split <;> exact letGo
  · exact letGo

theorem Sound.trimPool_deals (sound : m.Sound lost loans) (id : PoolId) (plain : ¬ refits id) :
    Deals (some id) refits block m (m.trimPool id).machine := by
  unfold Machine.trimPool
  cases found : m.pool? id with
  | none => exact .aside rfl rfl
  | some p =>
    obtain ⟨_, rfl⟩ := pool?_mem found
    simp only
    cases trimmed : p.heap.trim m.system with
    | error fault => exact .aside rfl rfl
    | ok step =>
      have heap := sound.heap found
      simp only [Outcome.ok]
      split
      · rename_i some'
        exact .put found rfl rfl (List.forall_mem_singleton.2 rfl)
          (.trims plain rfl heap trimmed rfl (if_pos some').symm)
      · rename_i none'
        exact .put_silent found rfl rfl (.trims plain rfl heap trimmed rfl (if_neg none').symm)

/-- A request that is served is logged if it brings a segment. -/
theorem allocateIn_events {request : Request} {addr : Address} {step : HeapStep (Option Address)}
    (found : m.pool? id = some p)
    (allocated : p.heap.allocate m.system request.size request.align = .ok step)
    (answer : (m.allocateIn id request).answer = .ok (.ok addr)) :
    (m.allocateIn id request).machine.events = m.events ++
      if p.heap.segments.length < step.heap.segments.length then [.segmentReserved id] else [] := by
  unfold Machine.allocateIn at answer ⊢
  simp only [found, allocated] at answer ⊢
  by_cases ended : p.phase ≠ .live
  · simp only [if_pos ended] at answer
    cases answer
  simp only [if_neg ended] at answer ⊢
  cases taken : step.answer with
  | none =>
    simp only [taken] at answer
    cases answer
  | some place =>
    simp only [taken] at answer ⊢
    cases inserted : (m.putHeap id step.heap step.system).tags.insert place
        ⟨id, request.origin⟩ with
    | error twice =>
      simp only [inserted] at answer
      cases answer
    | ok tags =>
      simp only
      by_cases grown : p.heap.segments.length < step.heap.segments.length
      · simp only [if_pos grown]
        split <;> rfl
      · simp only [if_neg grown, List.append_nil]
        split <;> rfl

theorem Sound.allocateIn_deals (sound : m.Sound lost loans) (id : PoolId) (request : Request)
    (plain : ¬ refits id) : Deals (some id) refits block m (m.allocateIn id request).machine := by
  have placing := sound.allocateIn_placing id request
  have logged := fun p step addr => @allocateIn_events m id p request addr step
  generalize m.allocateIn id request = o at placing logged
  cases placing with
  | unavailable => exact .aside rfl rfl
  | @refused p step found isLive allocated grants answer _ =>
    obtain ⟨_, rfl⟩ := pool?_mem found
    have count : step.heap.segments.length = p.heap.segments.length := by
      obtain same | ⟨⟨addr, served⟩, _⟩ := Heap.allocate_count allocated
      · exact same
      · cases answer.symm.trans served
    exact .put_silent found rfl rfl (.serves plain isLive isLive allocated rfl
      (if_neg (Nat.not_lt_of_le (Nat.le_of_eq count))).symm)
  | @placed p step addr tags bytes events found isLive allocated grants answer _ _ _ =>
    obtain ⟨_, rfl⟩ := pool?_mem found
    refine .put found rfl (logged p step addr found allocated rfl) ?_
      (.serves plain isLive isLive allocated rfl rfl)
    split
    · exact List.forall_mem_singleton.2 rfl
    · exact List.forall_mem_nil _

theorem Sound.resizeIn_deals (sound : m.Sound lost loans) {addr : Address}
    (owned : m.owner? addr = some id) (size : Nat) (own : refits id) :
    Deals (some id) refits block m (m.resizeIn id addr size).machine := by
  have resizing := sound.resizeIn_resizing owned size
  generalize m.resizeIn id addr size = o at resizing
  cases resizing with
  | refused found _ resized _ _ _ _ =>
    exact .put_silent found rfl rfl (.resizes own rfl (sound.heap found) resized rfl)
  | resized _ found _ _ resized _ _ _ =>
    exact .put_silent found rfl rfl (.resizes own rfl (sound.heap found) resized rfl)

theorem Sound.releaseIn_deals {addr : Address} (sound : m.Sound ((addr, id) :: lost) loans)
    (caller : Caller) :
    Deals (some id) refits (some addr) m (m.releaseIn caller id addr).machine := by
  obtain ⟨p, b, found, live, rfl, rfl⟩ := sound.live_of_lost
  have heap := sound.heap found
  have releasing := sound.releaseIn_releasing caller found live
  generalize m.releaseIn caller p.id b.addr = o at releasing
  cases releasing with
  | goesOn released _ _ => exact .put_silent found rfl rfl (.releases rfl heap released rfl)
  | @ends step released frees pending nothing =>
    have last : p.heap.live = [b] := frees.last heap live nothing
    obtain ⟨threads, same⟩ := destroy_eq (m.putHeap p.id step.heap step.system) caller
      { p with heap := step.heap }
    have twice : ((m.putHeap p.id step.heap step.system).updatePool p.id
        (Pool.emptied (step.heap.releaseAll step.system).1)).pools =
        (m.updatePool p.id (Pool.emptied (step.heap.releaseAll step.system).1)).pools :=
      pools_updatePool (f := ({ · with heap := step.heap })) rfl fun _ => rfl
    rw [same]
    refine .turned found twice (fun _ => rfl) rfl ?_ ⟨rfl, rfl, rfl⟩ ?_
    · exact List.forall_mem_singleton.2 rfl
    · simp only [nothing]
      exact .follows rfl pending rfl last heap released rfl

end Machine

end PooledMemory
