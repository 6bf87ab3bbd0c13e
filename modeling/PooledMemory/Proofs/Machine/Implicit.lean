import PooledMemory.Proofs.Machine.Interference
import PooledMemory.Session.Run

namespace PooledMemory

/-- The same outcome, but for what threads remember. -/
def Outcome.withThreads {α : Type} (o : Outcome α) (threads : ThreadId → Register) : Outcome α :=
  ⟨o.answer, { o.machine with threads }⟩

namespace Machine

/-- Whichever request without a named pool a caller makes, a block that it gets has this owner. -/
structure ServedBy (m : Machine) (caller : Caller) (owner : Option PoolId) : Prop where
  allocate : ∀ request addr after,
    m.allocate caller none request = .ok (.ok addr) after → after.owner? addr = owner
  allocateLayout : ∀ size align zeroed addr after,
    m.allocateLayout caller size align zeroed = .ok (.ok addr) after → after.owner? addr = owner
  box : ∀ value boxed after,
    m.box caller none value = .ok (.ok boxed) after → after.owner? boxed.addr = owner
  boxOrAbort : ∀ value boxed after,
    m.boxOrAbort caller none value = .ok boxed after → after.owner? boxed.addr = owner
  command : ∀ (s : Session) slot demand place size shown aligned after, s.machine = m →
    s.runBlock caller (.allocate slot none demand) =
      .ok (.block place size shown aligned, after) → shown = owner

/-- Every request without a named pool is refused in the name of this pool. All that is left of it
is what the thread has looked up, and a value that was to be put into a box is dropped. -/
structure RefusedBy (m : Machine) (caller : Caller) (id : PoolId) (threads : ThreadId → Register) :
    Prop where
  allocate : ∀ request,
    m.allocate caller none request = .ok (.error (.unavailable id)) { m with threads }
  allocateLayout : ∀ size align zeroed,
    m.allocateLayout caller size align zeroed = .ok (.error (.unavailable id)) { m with threads }
  box : ∀ value, m.box caller none value =
    .ok (.error (.unavailable id)) (({ m with threads } : Machine).dropValue value)
  boxOrAbort : ∀ value, m.boxOrAbort caller none value =
    .stop (.abortedOnFailure (.unavailable id)) (({ m with threads } : Machine).dropValue value)
  command : ∀ (s : Session) slot demand, s.machine = m → ∃ after,
    s.runBlock caller (.allocate slot none demand) = .ok (.nothing, after) ∧
      (after.machine = m ∨ after.machine = { m with threads })
  current : ∀ thread, (threads thread).current = (m.threads thread).current
  elsewhere : ∀ thread, thread ≠ caller.thread → threads thread = m.threads thread

/-- What comes of a request to a named pool is the same whoever makes it, and whatever threads
remember. A box is recorded with the place in the program that asks for it, so that is to be the same,
too. -/
structure ServedAnyway (m : Machine) (id : PoolId) : Prop where
  allocate : ∀ caller caller' threads request,
    ({ m with threads } : Machine).allocate caller (some id) request =
      (m.allocate caller' (some id) request).withThreads threads
  box : ∀ (caller caller' : Caller) threads value,
    ({ m with threads } : Machine).box caller (some id) value =
      (m.box { caller' with site := caller.site } (some id) value).withThreads threads
  boxOrAbort : ∀ (caller caller' : Caller) threads value,
    ({ m with threads } : Machine).boxOrAbort caller (some id) value =
      (m.boxOrAbort { caller' with site := caller.site } (some id) value).withThreads threads

variable {m : Machine} {lost : List (Address × PoolId)} {loans : List SystemBlock} {id : PoolId}
  {caller : Caller}

theorem resolve_elsewhere (m : Machine) {thread other : ThreadId} (id : PoolId)
    (different : other ≠ thread) : (m.resolve thread id).2.threads other = m.threads other := by
  unfold resolve
  split
  · rfl
  · split
    · exact if_neg different
    · rfl

theorem target_elsewhere (m : Machine) (caller : Caller) (named : Option PoolId) {thread : ThreadId}
    (different : thread ≠ caller.thread) :
    (m.target caller named).2.threads thread = m.threads thread := by
  cases named with
  | some id => rfl
  | none =>
    simp only [target, currentTarget]
    split
    · rfl
    · cases (m.threads caller.thread).current with
      | none => rfl
      | some id =>
        have kept := resolve_elsewhere m id different
        simp only
        split
        · exact kept
        · exact kept

/-- A thread finds a pool in no other state than that in which it is. -/
theorem resolve_found {thread : ThreadId} {p : Pool} (found : (m.resolve thread id).1 = some p) :
    m.pool? id = some p := by
  unfold resolve at found
  split at found
  · exact found
  · split at found
    · exact found
    · cases found

/-- Where requests go that name no pool: to the current one if it is live and else nowhere, and to the
system heap only if none is current. -/
theorem target_none (m : Machine) (outside : caller.nested = false) :
    (m.threads caller.thread).current = none ∧ (m.target caller none).1 = .systemHeap ∨
      ∃ id, (m.threads caller.thread).current = some id ∧
        ((m.pool? id).map (·.phase) = some .live ∧ (m.target caller none).1 = .pool id ∨
          (m.target caller none).1 = .unavailable id) := by
  simp only [target, currentTarget, outside, Bool.false_eq_true, if_false]
  cases (m.threads caller.thread).current with
  | none => exact .inl ⟨rfl, rfl⟩
  | some id =>
    refine .inr ⟨id, rfl, ?_⟩
    simp only
    cases found : (m.resolve caller.thread id).1 with
    | none => exact .inr rfl
    | some p =>
      by_cases live : p.phase = .live
      · rw [resolve_found found, Option.map_some, live]
        exact .inl ⟨rfl, if_pos live⟩
      · exact .inr (if_neg live)

/-- The owner of a block is where the request for it has gone. -/
theorem Sound.serve_owner (sound : m.Sound lost loans) {target : Target} {request : Request}
    {addr : Address} {after : Machine} (served : m.serve target request = .ok (.ok addr) after) :
    after.owner? addr = target.owner := by
  cases target with
  | pool id =>
    have placing := sound.allocateIn_placing id request
    rw [show m.allocateIn id request = _ from served] at placing
    cases placing with
    | placed tags bytes events _ _ _ _ _ perm _ sound' =>
      exact sound'.tags.owner?_eq_some_iff.2 ⟨_, perm.mem_iff.2 (List.mem_cons_self ..), rfl⟩
  | unavailable id => cases served
  | systemHeap =>
    simp only [Machine.serve] at served
    cases taken : m.system.allocate? request.size request.align request.zeroed with
    | none =>
      rw [taken] at served
      cases served
    | some found =>
      rw [taken] at served
      cases served
      have filled : 0 < max request.size 1 := by omega
      exact (sound.takeLoan filled taken).unowned_of_loan (List.mem_cons_self ..)

/-- A block that a request without a named pool gets belongs to the pool that is current. -/
theorem Sound.allocate_owner (sound : m.Sound lost loans) (outside : caller.nested = false)
    {request : Request} {addr : Address} {after : Machine}
    (served : m.allocate caller none request = .ok (.ok addr) after) :
    after.owner? addr = (m.threads caller.thread).current := by
  have owner : after.owner? addr = (m.target caller none).1.owner :=
    (sound.target caller none).1.serve_owner served
  rcases m.target_none outside with ⟨current, target⟩ | ⟨id, current, ⟨_, target⟩ | target⟩
  · rw [owner, target, current]
    rfl
  · rw [owner, target, current]
    rfl
  · rw [owner, target, current]
    rfl

theorem box_placed {named : Option PoolId} {value : Value} {boxed : Boxed} {after : Machine}
    (placed : m.box caller named value = .ok (.ok boxed) after) :
    ∃ request before, m.allocate caller named request = .ok (.ok boxed.addr) before ∧
      after.tags = before.tags := by
  simp only [Machine.box] at placed
  refine ⟨value.type.request caller.site, ?_⟩
  generalize m.allocate caller named (value.type.request caller.site) = o
    at placed
  obtain ⟨answer, before⟩ := o
  cases answer with
  | error fault => cases placed
  | ok served =>
    cases served with
    | error failure => cases placed
    | ok addr =>
      cases placed
      exact ⟨before, rfl, rfl⟩

theorem boxOrAbort_placed {named : Option PoolId} {value : Value} {boxed : Boxed} {after : Machine}
    (placed : m.boxOrAbort caller named value = .ok boxed after) :
    m.box caller named value = .ok (.ok boxed) after := by
  simp only [Machine.boxOrAbort] at placed
  generalize m.box caller named value = o at placed
  obtain ⟨answer, before⟩ := o
  cases answer with
  | error fault => cases placed
  | ok served =>
    cases served with
    | error failure => cases placed
    | ok addr =>
      cases placed
      rfl

end Machine

namespace Session

variable {s after : Session} {caller : Caller} {slot : Nat} {demand : Demand}

/-- The owner that is shown of a new block is the one that it has. -/
theorem runBlock_shown {at' : Place} {size : Nat} {shown : Option PoolId} {aligned : Option Bool}
    (replies : s.runBlock caller (.allocate slot none demand) =
      .ok (.block at' size shown aligned, after)) :
    ∃ request addr machine, s.machine.allocate caller none request = .ok (.ok addr) machine ∧
      shown = machine.owner? addr := by
  simp only [runBlock, withNamed] at replies
  cases possible : demand.request? caller.site with
  | none =>
    rw [possible] at replies
    cases replies
  | some request =>
    simp only [possible] at replies
    refine ⟨request, ?_⟩
    generalize s.machine.allocate caller none request = o at replies
    obtain ⟨answer, machine⟩ := o
    cases answer with
    | error fault =>
      simp only [finish] at replies
      split at replies
      · cases replies
      · cases replies
    | ok served =>
      cases served with
      | error failure => cases replies
      | ok addr =>
        cases replies
        exact ⟨addr, machine, rfl, rfl⟩

end Session

namespace Machine

variable {m : Machine} {lost : List (Address × PoolId)} {loans : List SystemBlock} {id : PoolId}
  {caller : Caller}

theorem Sound.servedBy (sound : m.Sound lost loans) (outside : caller.nested = false) :
    m.ServedBy caller (m.threads caller.thread).current := by
  have box : ∀ value boxed after, m.box caller none value = .ok (.ok boxed) after →
      after.owner? boxed.addr = (m.threads caller.thread).current := by
    intro value boxed after placed
    obtain ⟨request, before, served, tags⟩ := box_placed placed
    rw [Machine.owner?, tags]
    exact sound.allocate_owner outside served
  refine ⟨fun _ _ _ => sound.allocate_owner outside, fun _ _ _ _ _ => sound.allocate_owner outside,
    box, fun value boxed after placed => box value boxed after (boxOrAbort_placed placed), ?_⟩
  rintro s slot demand _ _ shown _ after rfl replies
  obtain ⟨request, addr, machine, served, rfl⟩ := Session.runBlock_shown replies
  exact sound.allocate_owner outside served

/-- A thread that has a pool current which is not live gets nothing without naming another one. -/
theorem refusedBy (outside : caller.nested = false)
    (current : (m.threads caller.thread).current = some id)
    (dead : ∀ p ∈ m.pools, p.id = id → p.phase ≠ .live) :
    m.RefusedBy caller id (m.target caller none).2.threads := by
  have target : (m.target caller none).1 = .unavailable id := by
    rcases m.target_none outside with ⟨nothing, _⟩ | ⟨other, same, ⟨live, _⟩ | target⟩
    · cases current.symm.trans nothing
    · cases current.symm.trans same
      obtain ⟨p, found, phase⟩ := Option.map_eq_some_iff.1 live
      obtain ⟨inPools, number⟩ := pool?_mem found
      exact absurd phase (dead p inPools number)
    · cases current.symm.trans same
      exact target
  obtain ⟨threads, machine⟩ := target_machine m caller none
  have allocate : ∀ request, m.allocate caller none request =
      .ok (.error (.unavailable id)) { m with threads } := by
    intro request
    simp only [Machine.allocate, target, machine, serve]
  have box : ∀ value, m.box caller none value =
      .ok (.error (.unavailable id)) (({ m with threads } : Machine).dropValue value) := by
    intro value
    simp only [Machine.box, allocate]
    rfl
  have kept := target_current m caller none
  have others : ∀ thread, thread ≠ caller.thread →
      (m.target caller none).2.threads thread = m.threads thread :=
    fun _ different => target_elsewhere m caller none different
  rw [machine] at kept others ⊢
  refine ⟨allocate, fun _ _ _ => allocate _, box, fun value => ?_, ?_, kept, others⟩
  · simp only [Machine.boxOrAbort, box]
    rfl
  · rintro s slot demand rfl
    simp only [Session.runBlock, Session.withNamed]
    cases demand.request? caller.site with
    | none => exact ⟨s, rfl, .inl rfl⟩
    | some request =>
      simp only [allocate]
      exact ⟨_, rfl, .inr rfl⟩

theorem allocateIn_threads (m : Machine) (id : PoolId) (threads : ThreadId → Register)
    (request : Request) : ({ m with threads } : Machine).allocateIn id request =
      (m.allocateIn id request).withThreads threads := by
  unfold allocateIn
  have same : ({ m with threads } : Machine).pool? id = m.pool? id := rfl
  rw [same]
  cases m.pool? id with
  | none => rfl
  | some p =>
    simp only
    split
    · rfl
    · cases p.heap.allocate m.system request.size request.align with
      | error fault => rfl
      | ok step =>
        obtain ⟨answer, heap, system⟩ := step
        cases answer with
        | none => rfl
        | some addr =>
          simp only [putHeap, updatePool]
          cases m.tags.insert addr ⟨id, request.origin⟩ with
          | error twice => rfl
          | ok tags =>
            simp only
            split
            · split
              · rfl
              · rfl
            · split
              · rfl
              · rfl

theorem servedAnyway (m : Machine) (id : PoolId) : m.ServedAnyway id := by
  have allocate : ∀ (caller caller' : Caller) threads request,
      ({ m with threads } : Machine).allocate caller (some id) request =
        (m.allocate caller' (some id) request).withThreads threads :=
    fun _ _ threads request => m.allocateIn_threads id threads request
  have box : ∀ (caller caller' : Caller) threads value,
      ({ m with threads } : Machine).box caller (some id) value =
        (m.box { caller' with site := caller.site } (some id) value).withThreads threads := by
    intro caller caller' threads value
    simp only [Machine.box, allocate caller { caller' with site := caller.site }]
    generalize m.allocate _ (some id) _ = o
    obtain ⟨answer, before⟩ := o
    cases answer with
    | error fault => rfl
    | ok served =>
      cases served with
      | error failure => rfl
      | ok addr => rfl
  refine ⟨allocate, box, fun caller caller' threads value => ?_⟩
  simp only [Machine.boxOrAbort, box caller caller']
  generalize m.box _ (some id) value = o
  obtain ⟨answer, before⟩ := o
  cases answer with
  | error fault => rfl
  | ok served =>
    cases served with
    | error failure => rfl
    | ok boxed => rfl

/-- In all states that programs and their mistakes lead to, a request without a named pool is served
from the pool that is current on the thread or, if none is, from the system heap. If that pool is not
live, the request is refused. A request to a named pool depends on no thread. -/
theorem Attempted.implicit (attempted : Attempted m) (outside : caller.nested = false) :
    m.ServedBy caller (m.threads caller.thread).current ∧
      (∀ id, (m.threads caller.thread).current = some id →
        (∀ p ∈ m.pools, p.id = id → p.phase ≠ .live) → ∃ threads, m.RefusedBy caller id threads) ∧
      ∀ id, m.ServedAnyway id := by
  obtain ⟨lost, loans, sound⟩ := attempted.sound
  exact ⟨sound.servedBy outside, fun id current dead => ⟨_, refusedBy outside current dead⟩,
    m.servedAnyway⟩

/-- A thread has a pool current that has ended on another one. -/
def outlived : Machine := Call.runAll
  [.openPool { thread := 0 } { lazy := true }, .select { thread := 1 } (some 1),
    .allocate { thread := 1 } none (.plain 40), .dropPool { thread := 0 } 1,
    .free { thread := 0 } none (SystemHeap.slotBase 3)]
  (.start [3])

/-- The thread gets no memory until it gives the pool up, while another thread is served from the pool
that it has current. -/
theorem outlived_implicit :
    ((outlived.threads 1).current = some 1 ∧ outlived.pools.map (·.phase) = [.destroyed] ∧
      ∃ threads, outlived.RefusedBy { thread := 1 } 1 threads) ∧
    ∃ after, busy.allocate { thread := 0 } none (.plain 40) =
      .ok (.ok (SystemHeap.slotBase 3)) after ∧ after.owner? (SystemHeap.slotBase 3) = some 1 := by
  have reached : Reachable outlived := (Reachable.start [3]).runAll _ (by decide +kernel)
  have current : (outlived.threads 1).current = some 1 := by decide +kernel
  have ended : outlived.pools.map (·.phase) = [.destroyed] := by decide +kernel
  have dead : ∀ p ∈ outlived.pools, p.id = 1 → p.phase ≠ .live := by decide +kernel
  have outside : ∀ thread, ({ thread } : Caller).nested = false := fun _ => rfl
  obtain ⟨_, refused, _⟩ := Attempted.implicit reached.attempted (outside 1)
  obtain ⟨served, _⟩ := Attempted.implicit busy_reachable.attempted (outside 0)
  refine ⟨⟨current, ended, refused 1 current dead⟩, ?_⟩
  have answer : (busy.allocate { thread := 0 } none (.plain 40)).answer =
      .ok (.ok (SystemHeap.slotBase 3)) := by decide +kernel
  have owner : (busy.threads 0).current = some 1 := by decide +kernel
  have granted : busy.allocate { thread := 0 } none (.plain 40) =
      .ok (.ok (SystemHeap.slotBase 3))
        (busy.allocate { thread := 0 } none (.plain 40)).machine := by
    rw [Outcome.ok, ← answer]
  exact ⟨_, granted, (served.allocate _ _ _ granted).trans owner⟩

end Machine

end PooledMemory
