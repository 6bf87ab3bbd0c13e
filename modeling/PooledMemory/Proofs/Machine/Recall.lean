import PooledMemory.Proofs.Machine.Implicit
import PooledMemory.Proofs.Machine.Milestones

namespace PooledMemory

namespace Machine

/-- Where requests go that name no pool if threads remember nothing: the current pool is looked up
on the list, and it has to be live. -/
def listedTarget (m : Machine) (caller : Caller) : Target :=
  if caller.nested then .systemHeap
  else
    match (m.threads caller.thread).current with
    | none => .systemHeap
    | some id =>
      match m.listedPools.find? (·.id == id) with
      | some p => if p.phase = .live then .pool id else .unavailable id
      | none => .unavailable id

/-- The same state, but for the pools that threads remember to have looked up. -/
def withResolved (m : Machine) (resolved : ThreadId → Option PoolId) : Machine :=
  { m with threads := fun thread => { m.threads thread with resolved := resolved thread } }

/-- What threads remember decides nothing: the requests of a caller that name no pool go to where
the list of pools sends them. -/
structure Unswayed (m : Machine) (caller : Caller) : Prop where
  target : (m.currentTarget caller).1 = m.listedTarget caller
  /-- The memory of threads could also be any other. -/
  anyhow : ∀ resolved, ((m.withResolved resolved).currentTarget caller).1 = m.listedTarget caller
  /-- Finding out where requests go alters nothing but the memory of the thread itself. -/
  alters : ∃ resolved, (m.currentTarget caller).2 = m.withResolved resolved ∧
    ∀ thread, thread ≠ caller.thread → resolved thread = (m.threads thread).resolved
  /-- What comes of a request is the same, but for the memory of threads. -/
  served : ∀ resolved request, ∃ resolved',
    (m.withResolved resolved).allocate caller none request =
      (m.serve (m.listedTarget caller) request).withThreads (m.withResolved resolved').threads

variable {m : Machine} {id : PoolId} {caller : Caller}

/-- A pool that is not found has been destroyed or never opened. -/
theorem Enrolled.resolve_phase (enrolled : m.Enrolled) (thread : ThreadId) (id : PoolId) :
    (m.resolve thread id).1.map (·.phase) = some .live ↔ (m.pool? id).map (·.phase) = some .live := by
  unfold resolve
  split
  · rfl
  · split
    · rfl
    · rename_i unlisted
      refine ⟨nofun, fun isLive => absurd ?_ unlisted⟩
      exact List.contains_iff_mem.2 (enrolled.listed_of_live isLive)

/-- Where requests go, whatever the thread remembers to have looked up: to the current pool of the
thread if it is live. -/
theorem Enrolled.target_eq (enrolled : m.Enrolled) (caller : Caller) (named : Option PoolId) :
    (m.target caller named).1 =
      match named, caller.nested, (m.threads caller.thread).current with
      | some id, _, _ => .pool id
      | none, false, some id =>
        if (m.pool? id).map (·.phase) = some .live then .pool id else .unavailable id
      | none, _, _ => .systemHeap := by
  cases named with
  | some id => rfl
  | none =>
    simp only [target, currentTarget]
    cases caller.nested with
    | true => rfl
    | false =>
      cases (m.threads caller.thread).current with
      | none => rfl
      | some id =>
        have same := enrolled.resolve_phase caller.thread id
        simp only [← same, Bool.false_eq_true, if_false]
        cases (m.resolve caller.thread id).1 with
        | none => rfl
        | some p => simp

theorem find?_filterMap_pool? (m : Machine) (roster : List PoolId) (id : PoolId) :
    (roster.filterMap m.pool?).find? (·.id == id) = if id ∈ roster then m.pool? id else none := by
  induction roster with
  | nil => rfl
  | cons first rest ih =>
    cases found : m.pool? first with
    | none =>
      rw [List.filterMap_cons_none found, ih]
      by_cases same : id = first
      · rw [same, found, ite_self, ite_self]
      · simp only [List.mem_cons, same, false_or]
    | some p =>
      rw [List.filterMap_cons_some found, List.find?_cons, ih, pool?_id found]
      by_cases same : id = first
      · rw [same, beq_self_eq_true, if_pos (List.mem_cons_self ..), found]
      · rw [beq_eq_false_iff_ne.2 (Ne.symm same)]
        simp only [List.mem_cons, same, false_or]

/-- On the list, pools are found in no other state than that in which they are, and none that is
live is missing. -/
theorem Enrolled.listed_phase (enrolled : m.Enrolled) (id : PoolId) :
    (m.listedPools.find? (·.id == id)).map (·.phase) = some .live ↔
      (m.pool? id).map (·.phase) = some .live := by
  rw [listedPools, find?_filterMap_pool?]
  split
  · rfl
  · rename_i unlisted
    exact ⟨nofun, fun isLive => absurd (enrolled.listed_of_live isLive) unlisted⟩

theorem Enrolled.target_listed (enrolled : m.Enrolled) (caller : Caller) :
    (m.currentTarget caller).1 = m.listedTarget caller := by
  refine (enrolled.target_eq caller none).trans ?_
  unfold listedTarget
  cases caller.nested with
  | true => rfl
  | false =>
    cases (m.threads caller.thread).current with
    | none => rfl
    | some id =>
      simp only [← enrolled.listed_phase id, Bool.false_eq_true, if_false]
      cases m.listedPools.find? (·.id == id) with
      | none => rfl
      | some p => simp

theorem Enrolled.withResolved (enrolled : m.Enrolled) (resolved : ThreadId → Option PoolId) :
    (m.withResolved resolved).Enrolled :=
  ⟨enrolled.listed, enrolled.pending, enrolled.vacant⟩

theorem Enrolled.target_anyhow (enrolled : m.Enrolled) (resolved : ThreadId → Option PoolId)
    (caller : Caller) : ((m.withResolved resolved).currentTarget caller).1 = m.listedTarget caller :=
  (enrolled.withResolved resolved).target_listed caller

theorem currentTarget_machine (m : Machine) (caller : Caller) :
    ∃ resolved, (m.currentTarget caller).2 = m.withResolved resolved ∧
      ∀ thread, thread ≠ caller.thread → resolved thread = (m.threads thread).resolved := by
  obtain ⟨threads, same⟩ := m.target_machine caller none
  have current := m.target_current caller none
  have elsewhere : ∀ thread, thread ≠ caller.thread →
      (m.target caller none).2.threads thread = m.threads thread :=
    fun _ different => m.target_elsewhere caller none different
  rw [same] at current elsewhere
  refine ⟨fun thread => (threads thread).resolved, same.trans ?_,
    fun thread different => congrArg _ (elsewhere thread different)⟩
  have each : threads = fun thread =>
      { m.threads thread with resolved := (threads thread).resolved } :=
    funext fun thread => congrArg (Register.mk · (threads thread).resolved) (current thread)
  rw [Machine.withResolved, ← each]

theorem serve_threads (m : Machine) (target : Target) (threads : ThreadId → Register)
    (request : Request) : ({ m with threads } : Machine).serve target request =
      (m.serve target request).withThreads threads := by
  cases target with
  | pool id => exact m.allocateIn_threads id threads request
  | unavailable id => rfl
  | systemHeap =>
    simp only [serve]
    cases m.system.allocate? request.size request.align request.zeroed with
    | none => rfl
    | some found => rfl

theorem Enrolled.unswayed (enrolled : m.Enrolled) (caller : Caller) : m.Unswayed caller := by
  refine ⟨enrolled.target_listed caller, fun resolved => enrolled.target_anyhow resolved caller,
    m.currentTarget_machine caller, fun resolved request => ?_⟩
  obtain ⟨resolved', same, _⟩ := (m.withResolved resolved).currentTarget_machine caller
  refine ⟨resolved', ?_⟩
  have target := enrolled.target_anyhow resolved caller
  simp only [allocate, Machine.target, target, same]
  exact m.serve_threads _ _ request

/-- In all states that programs and their mistakes lead to, requests go to where they would go if
threads remembered nothing, or anything else. -/
theorem Attempted.never_swayed (attempted : Attempted m) (caller : Caller) : m.Unswayed caller :=
  attempted.enrolled.unswayed caller

/-- A pool has gone with its thread, but its handle is kept, and another thread still remembers it
and has it current. A third thread remembers a live pool, and a fourth one has that pool current
without ever having looked it up. -/
def mindful : Machine := Call.runAll
  [.openPool { thread := 0 } { owned := true }, .openPool { thread := 0 } {},
    .select { thread := 1 } (some 1), .select { thread := 2 } (some 2), .restore 3 (some 2),
    .exitThread 0]
  (.start [])

theorem mindful_reachable : Reachable mindful := (Reachable.start []).runAll _ (by decide +kernel)

/-- The memory of the second thread names a pool that is no longer listed, and still its requests go
nowhere. Those of the two others go to the live pool, which only one of them remembers. -/
theorem mindful_unswayed :
    (mindful.isReferenced 1 = true ∧ mindful.roster = [2] ∧
      [1, 2, 3].map (fun thread => (mindful.threads thread).resolved) = [some 1, some 2, none] ∧
      [1, 2, 3].map (fun thread => (mindful.currentTarget { thread }).1) =
        [.unavailable 1, .pool 2, .pool 2]) ∧
    ∀ caller, mindful.Unswayed caller :=
  ⟨by decide +kernel, Attempted.never_swayed mindful_reachable.attempted⟩

end Machine

end PooledMemory
