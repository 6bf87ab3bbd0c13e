import PooledMemory.Proofs.Machine.Anywhere
import PooledMemory.Proofs.Machine.Implicit
import PooledMemory.Proofs.Machine.Peak

namespace PooledMemory

namespace Machine

def phase? (m : Machine) (id : PoolId) : Option Phase := (m.pool? id).map (·.phase)

/-- Whether a pool has come to a later phase: it has begun to wait for its last block, or it is
destroyed now. -/
def ends (m after : Machine) (id : PoolId) : Bool :=
  match m.phase? id, after.phase? id with
  | some p, some q => decide (p.rank < q.rank)
  | _, _ => false

/-- What an operation that chooses nothing does to the registers: those of other threads stay as
they are, and its own thread, if it has to know one, forgets what is current there if that ends
meanwhile. -/
structure Forgets (thread : Option ThreadId) (m after : Machine) : Prop where
  phases : ∀ id, Option.Rel (·.rank ≤ ·.rank) (m.phase? id) (after.phase? id)
  others : ∀ t, thread ≠ some t → after.threads t = m.threads t
  current : ∀ t, thread = some t →
    (after.threads t).current = (m.threads t).current.filter (!m.ends after ·)

variable {m middle after : Machine} {thread : Option ThreadId} {id : PoolId} {p : Pool} {α β : Type}

theorem ends_eq_false (same : after.phase? id = m.phase? id) : m.ends after id = false := by
  unfold ends
  rw [same]
  cases m.phase? id with
  | none => rfl
  | some phase => exact decide_eq_false (Nat.lt_irrefl _)

theorem filter_not_ends (stand : ∀ id, m.ends after id = false) (current : Option PoolId) :
    current.filter (!m.ends after ·) = current := by
  cases current with
  | none => rfl
  | some id =>
    rw [Option.filter_some, stand]
    rfl

theorem Forgets.still (phases : ∀ id, after.phase? id = m.phase? id)
    (threads : ∀ t, thread ≠ some t → after.threads t = m.threads t)
    (current : ∀ t, (after.threads t).current = (m.threads t).current) :
    Forgets thread m after where
  phases := by
    intro id
    rw [phases]
    cases m.phase? id with
    | none => exact .none
    | some phase => exact .some (Nat.le_refl _)
  others := threads
  current := by
    intro t _
    rw [current, filter_not_ends fun id => ends_eq_false (phases id)]

/-- What is kept beside pools and registers does not matter. -/
theorem Forgets.aside (pools : after.pools = m.pools) (threads : after.threads = m.threads) :
    Forgets thread m after := by
  refine .still (fun id => ?_) (fun t _ => congrFun threads t) fun t => by rw [threads]
  rw [phase?, pool?, pools]
  rfl

theorem Forgets.refl (thread : Option ThreadId) (m : Machine) : Forgets thread m m := .aside rfl rfl

/-- A pool ends in one of two operations if it has ended after both. -/
theorem ends_trans
    (first : Option.Rel (·.rank ≤ ·.rank) (m.phase? id) (middle.phase? id))
    (second : Option.Rel (·.rank ≤ ·.rank) (middle.phase? id) (after.phase? id)) :
    m.ends after id = (m.ends middle id || middle.ends after id) := by
  unfold ends
  revert first second
  generalize m.phase? id = a
  generalize middle.phase? id = b
  generalize after.phase? id = c
  rintro (earlier | _) (later | _)
  · rw [← Bool.decide_or, decide_eq_decide]
    omega
  · rfl

theorem Forgets.trans (first : Forgets thread m middle) (second : Forgets thread middle after) :
    Forgets thread m after where
  phases := by
    intro id
    have later := first.phases id
    have last := second.phases id
    revert later last
    generalize m.phase? id = a
    generalize middle.phase? id = b
    generalize after.phase? id = c
    rintro (earlier | _) (later | _)
    · exact .some (Nat.le_trans earlier later)
    · exact .none
  others := fun t other => (second.others t other).trans (first.others t other)
  current := by
    intro t own
    rw [second.current t own, first.current t own, Option.filter_filter]
    congr
    funext id
    rw [ends_trans (first.phases id) (second.phases id), Bool.not_or]

theorem Forgets.then_aside (forgets : Forgets thread m middle) (pools : after.pools = middle.pools)
    (threads : after.threads = middle.threads) : Forgets thread m after :=
  forgets.trans (.aside pools threads)

theorem Forgets.bind {o : Outcome α} {next : α → Machine → Outcome β}
    (first : Forgets thread m o.machine)
    (goes : ∀ answer after, Forgets thread after (next answer after).machine) :
    Forgets thread m (o.bind next).machine := by
  obtain ⟨answer, machine⟩ := o
  cases answer with
  | ok answer => exact first.trans (goes answer machine)
  | error fault => exact first

theorem phase?_updatePool {f : Pool → Pool} (keeps : ∀ q, (f q).id = q.id)
    (phase : ∀ q, (f q).phase = q.phase) (other : PoolId) :
    (m.updatePool id f).phase? other = m.phase? other := by
  rw [phase?, pool?_updatePool keeps, phase?, Option.map_map]
  refine congrArg (Option.map · _) (funext fun q => ?_)
  by_cases here : q.id = id
  · exact (congrArg Pool.phase (if_pos here)).trans (phase q)
  · exact congrArg Pool.phase (if_neg here)

theorem updatePool_forgets (id : PoolId) {f : Pool → Pool} (keeps : ∀ q, (f q).id = q.id)
    (phase : ∀ q, (f q).phase = q.phase) : Forgets thread m (m.updatePool id f) :=
  .still (phase?_updatePool keeps phase) (fun _ _ => rfl) fun _ => rfl

theorem putHeap_forgets (thread : Option ThreadId) (m : Machine) (id : PoolId) (heap : Heap)
    (system : SystemHeap) : Forgets thread m (m.putHeap id heap system) :=
  (updatePool_forgets id (f := ({ · with heap })) (fun _ => rfl) fun _ => rfl).then_aside rfl rfl

theorem phase?_setPhase {phase : Phase} (found : m.pool? id = some p) :
    (m.setPhase id phase).phase? id = some phase := by
  have keeps : ∀ q : Pool, ({ q with phase } : Pool).id = q.id := fun _ => rfl
  rw [phase?, setPhase, pool?_updatePool keeps, found, Option.map_some, if_pos (pool?_id found)]
  rfl

theorem phase?_setPhase_of_ne {phase : Phase} {other : PoolId} (different : other ≠ id) :
    (m.setPhase id phase).phase? other = m.phase? other :=
  congrArg (Option.map _) (pool?_updatePool_of_ne (fun _ => rfl) different)

/-- If one pool ends and a thread forgets it, the thread has forgotten what has ended. -/
theorem forgetting_current {t : ThreadId} (ended : m.ends after id = true)
    (others : ∀ other, other ≠ id → m.ends after other = false) :
    (forgetting m.threads t (some id) t).current =
      (m.threads t).current.filter (!m.ends after ·) := by
  by_cases named : (m.threads t).current = some id
  · rw [forgetting, if_pos ⟨rfl, named⟩, named, Option.filter_some, ended]
    rfl
  · rw [forgetting, if_neg fun both => named both.2]
    cases current : (m.threads t).current with
    | none => rfl
    | some other =>
      have different : other ≠ id := fun here => named (current.trans (congrArg some here))
      rw [Option.filter_some, others other different]
      rfl

/-- The thread on which a pool comes to a later phase forgets this pool. -/
theorem turned_forgets {phase : Phase} {t : ThreadId} (found : m.pool? id = some p)
    (later : p.phase.rank < phase.rank) (pools : after.pools = (m.setPhase id phase).pools)
    (threads : after.threads = forgetting m.threads t (some id)) : Forgets (some t) m after := by
  have before : m.phase? id = some p.phase := congrArg (Option.map _) found
  have same : after.phase? = (m.setPhase id phase).phase? := by
    funext id
    rw [phase?, pool?, pools]
    rfl
  have turned : after.phase? id = some phase := same ▸ phase?_setPhase found
  have kept : ∀ other, other ≠ id → after.phase? other = m.phase? other :=
    fun _ different => same ▸ phase?_setPhase_of_ne different
  refine ⟨fun other => ?_, fun other different => ?_, ?_⟩
  · by_cases here : other = id
    · rw [here, before, turned]
      exact .some (Nat.le_of_lt later)
    · rw [kept other here]
      cases m.phase? other with
      | none => exact .none
      | some q => exact .some (Nat.le_refl _)
  · rw [threads]
    exact if_neg fun both => different (congrArg some both.1.symm)
  · rintro _ ⟨⟩
    have ended : m.ends after id = true := by
      unfold ends
      rw [before, turned]
      exact decide_eq_true later
    rw [threads]
    exact forgetting_current ended fun other different => ends_eq_false (kept other different)

theorem destroy_forgets {q : Pool} (caller : Caller) (found : m.pool? q.id = some p)
    (stands : p.phase ≠ .destroyed) : Forgets (some caller.thread) m (m.destroy caller q) := by
  have later : p.phase.rank < Phase.destroyed.rank := by
    revert stands
    cases p.phase <;> decide
  have put := putHeap_forgets (some caller.thread) m q.id (q.heap.releaseAll m.system).1
    (q.heap.releaseAll m.system).2
  refine put.trans (turned_forgets (pool?_putHeap _ _ found) later ?_ ?_)
  · simp only [destroy, finishTearDown, clearCurrent_threads]
    rfl
  · simp only [destroy, finishTearDown, clearCurrent_threads]
    rfl

theorem retire_forgets (m : Machine) (caller : Caller) (id : PoolId) :
    Forgets (some caller.thread) m (m.retire caller id).2 := by
  unfold retire
  cases found : m.pool? id with
  | none => exact .refl _ m
  | some p =>
    simp only
    split
    · exact .refl _ m
    · rename_i live
      rw [not_not] at live
      split
      · have waits : p.phase.rank < Phase.deletePending.rank := live ▸ by decide
        refine turned_forgets found waits ?_ ?_
        · rw [clearCurrent_threads]
          rfl
        · rw [clearCurrent_threads]
          rfl
      · have stands : p.phase ≠ .destroyed := live ▸ by decide
        exact destroy_forgets caller ((pool?_id found).symm ▸ found) stands

theorem dropPool_forgets (m : Machine) (caller : Caller) (id : PoolId) :
    Forgets (some caller.thread) m (m.dropPool caller id).machine := by
  have dropped := (retire_forgets m caller id).trans
    (updatePool_forgets id (f := ({ · with held := false })) (fun _ => rfl) fun _ => rfl)
  unfold dropPool
  simp only
  split
  · split
    · exact dropped
    · exact dropped
  · exact dropped

theorem trimPool_forgets (m : Machine) (id : PoolId) :
    Forgets thread m (m.trimPool id).machine := by
  unfold trimPool
  cases m.pool? id with
  | none => exact .refl _ m
  | some p =>
    simp only
    cases p.heap.trim m.system with
    | error fault => exact .refl _ m
    | ok step =>
      have put := putHeap_forgets thread m id step.heap step.system
      simp only
      split
      · exact put.then_aside rfl rfl
      · exact put

theorem allocateIn_forgets (m : Machine) (id : PoolId) (request : Request) :
    Forgets thread m (m.allocateIn id request).machine := by
  unfold allocateIn
  cases m.pool? id with
  | none => exact .refl _ m
  | some p =>
    simp only
    split
    · exact .refl _ m
    · cases p.heap.allocate m.system request.size request.align with
      | error fault => exact .refl _ m
      | ok step =>
        have put := putHeap_forgets thread m id step.heap step.system
        obtain ⟨answer, heap, system⟩ := step
        cases answer with
        | none => exact put
        | some addr =>
          simp only
          cases (m.putHeap id heap system).tags.insert addr ⟨id, request.origin⟩ with
          | error twice => exact put.then_aside rfl rfl
          | ok tags =>
            simp only
            split
            · split
              · exact put.then_aside rfl rfl
              · exact put.then_aside rfl rfl
            · split
              · exact put.then_aside rfl rfl
              · exact put.then_aside rfl rfl

theorem resizeIn_forgets (m : Machine) (id : PoolId) (addr : Address) (size : Nat) :
    Forgets thread m (m.resizeIn id addr size).machine := by
  unfold resizeIn
  cases m.pool? id with
  | none => exact .refl _ m
  | some p =>
    simp only
    cases p.heap.resize m.system addr size with
    | error fault => exact .refl _ m
    | ok step =>
      have put := putHeap_forgets thread m id step.heap step.system
      obtain ⟨answer, heap, system⟩ := step
      cases answer with
      | none => exact put
      | some resized =>
        simp only
        split
        · cases (m.putHeap id heap system).tags.move addr resized.addr with
          | error twice => exact put.then_aside rfl rfl
          | ok tags => exact put.then_aside rfl rfl
        · exact put

theorem releaseIn_forgets (m : Machine) (caller : Caller) (id : PoolId) (addr : Address) :
    Forgets (some caller.thread) m (m.releaseIn caller id addr).machine := by
  unfold releaseIn
  cases found : m.pool? id with
  | none => exact .refl _ m
  | some p =>
    simp only
    cases p.heap.release m.system addr with
    | error fault => exact .refl _ m
    | ok step =>
      have put := putHeap_forgets (some caller.thread) m id step.heap step.system
      simp only
      split
      · exact put
      · split
        · rename_i last
          have stands : p.phase ≠ .destroyed := last.1 ▸ by decide
          have kept := pool?_putHeap step.heap step.system found
          obtain rfl := pool?_id found
          exact put.trans (destroy_forgets (q := { p with heap := step.heap }) caller kept stands)
        · exact put

theorem target_forgets (m : Machine) (caller : Caller) (named : Option PoolId) :
    Forgets (some caller.thread) m (m.target caller named).2 := by
  obtain ⟨threads, same⟩ := target_machine m caller named
  have current := target_current m caller named
  refine .still (fun id => by rw [same]; rfl) (fun t other => ?_) current
  exact target_elsewhere m caller named fun here => other (congrArg some here.symm)

theorem serve_forgets (m : Machine) (target : Target) (request : Request) :
    Forgets thread m (m.serve target request).machine := by
  unfold serve
  cases target with
  | pool id => exact allocateIn_forgets m id request
  | unavailable id => exact .refl _ m
  | systemHeap =>
    simp only
    split
    · exact .aside rfl rfl
    · exact .refl _ m

theorem allocate_forgets (m : Machine) (caller : Caller) (named : Option PoolId)
    (request : Request) :
    Forgets (some caller.thread) m (m.allocate caller named request).machine :=
  (target_forgets m caller named).trans (serve_forgets _ _ request)

theorem release_forgets (m : Machine) (caller : Caller) (expected : Option PoolId)
    (addr : Address) : Forgets (some caller.thread) m (m.release caller expected addr).machine := by
  unfold release
  split
  · exact .aside rfl rfl
  · cases m.tags.remove? addr with
    | some removed =>
      obtain ⟨tag, tags⟩ := removed
      have untagged : Forgets (some caller.thread) m { m with tags } := .aside rfl rfl
      simp only
      split
      · exact untagged.trans (releaseIn_forgets _ caller tag.pool addr)
      · exact untagged
    | none =>
      simp only
      split
      · exact .aside rfl rfl
      · exact .aside rfl rfl

theorem resizeBlock_forgets (m : Machine) (id : PoolId) (addr : Address) (size : Nat) :
    Forgets thread m (m.resizeBlock id addr size).machine := by
  unfold resizeBlock
  split
  · exact resizeIn_forgets m id addr size
  · exact .refl _ m

theorem free_forgets (m : Machine) (caller : Caller) (expected : Option PoolId) (addr : Address) :
    Forgets (some caller.thread) m (m.free caller expected addr).machine := by
  unfold free
  split
  · exact .refl _ m
  · exact release_forgets m caller expected addr

theorem freeLayout_forgets (m : Machine) (caller : Caller) (addr : Address) :
    Forgets (some caller.thread) m (m.freeLayout caller addr).machine := by
  unfold freeLayout
  split
  · exact .refl _ m
  · exact release_forgets m caller none addr

theorem releaseBlock_forgets (m : Machine) (caller : Caller) (id : PoolId) (addr : Address) :
    Forgets (some caller.thread) m (m.releaseBlock caller id addr).machine := by
  have untagged : Forgets (some caller.thread) m (m.untag addr) := .aside rfl rfl
  unfold releaseBlock
  split
  · split
    · exact untagged.trans (releaseIn_forgets _ caller id addr)
    · exact .refl _ m
  · exact releaseIn_forgets m caller id addr

theorem moveContent_forgets (m : Machine) (caller : Caller) (source : Address)
    (owner : Option PoolId) (known : Option Nat) (moved : Address) (size : Nat) :
    Forgets (some caller.thread) m
      (m.moveContent caller source owner known moved size).machine := by
  unfold moveContent
  cases owner with
  | some id =>
    refine Forgets.trans (.aside ?_ ?_) (releaseIn_forgets _ caller id source)
    · rfl
    · rfl
  | none =>
    simp only
    split
    · exact .aside rfl rfl
    · unfold moveStaged
      split
      · exact release_forgets m caller none moved
      · exact .aside rfl rfl

theorem relocate_forgets (m : Machine) (caller : Caller) (target : Target) (addr : Address)
    (known : Option Nat) (request : Request) :
    Forgets (some caller.thread) m (m.relocate caller target addr known request).machine := by
  have ways := relocate_ways m caller target addr known request
  generalize m.relocate caller target addr known request = o at ways
  cases ways with
  | stays => exact .refl _ m
  | resized => exact resizeIn_forgets m _ addr request.size
  | exchanged => exact .aside rfl rfl
  | elsewhere _ refuses moves =>
    refine (serve_forgets m target request).bind fun answer after => ?_
    cases answer with
    | error failure =>
      rw [refuses]
      exact .refl _ after
    | ok moved =>
      rw [moves]
      exact moveContent_forgets after caller addr _ known moved request.size

theorem reallocate_forgets (m : Machine) (caller : Caller) (named : Option PoolId)
    (addr : Address) (size : Nat) :
    Forgets (some caller.thread) m (m.reallocate caller named addr size).machine := by
  have targeted := target_forgets m caller named
  unfold reallocate
  simp only
  split
  · exact targeted
  · exact targeted.trans (relocate_forgets _ caller _ addr none (.plain size caller.site))

theorem reallocateLayout_forgets (m : Machine) (caller : Caller) (addr : Address)
    (old align size : Nat) :
    Forgets (some caller.thread) m (m.reallocateLayout caller addr old align size).machine := by
  unfold reallocateLayout
  split
  · exact .refl _ m
  · exact (target_forgets m caller none).trans (relocate_forgets _ caller _ addr (some old) _)

theorem box_forgets (m : Machine) (caller : Caller) (named : Option PoolId) (value : Value) :
    Forgets (some caller.thread) m (m.box caller named value).machine := by
  refine (allocate_forgets m caller named _).bind fun answer after => ?_
  cases answer with
  | error failure => exact .aside rfl rfl
  | ok addr => exact .aside rfl rfl

theorem boxOrAbort_forgets (m : Machine) (caller : Caller) (named : Option PoolId)
    (value : Value) : Forgets (some caller.thread) m (m.boxOrAbort caller named value).machine := by
  refine (box_forgets m caller named value).bind fun answer after => ?_
  cases answer with
  | error failure => exact .refl _ after
  | ok boxed => exact .refl _ after

theorem dropBox_forgets (m : Machine) (caller : Caller) (boxed : Boxed) :
    Forgets (some caller.thread) m (m.dropBox caller boxed).machine := by
  have dropped : Forgets (some caller.thread) m (m.dropValue (m.readBox boxed)) :=
    .aside rfl rfl
  exact dropped.trans (release_forgets _ caller none boxed.addr)

end Machine

namespace Call

/-- The thread that a call is made on, if the call has to know it. -/
def thread? : Call → Option ThreadId
  | openPool caller _ | dropPool caller _ | select caller _ | allocate caller _ _
  | allocateLayout caller _ _ _ | releaseBlock caller _ _ | reallocate caller _ _ _
  | reallocateLayout caller _ _ _ _ | free caller _ _ | freeLayout caller _ | box caller _ _
  | boxOrAbort caller _ _ | dropBox caller _ | unbox caller _ => some caller.thread
  | exitThread thread | restore thread _ => some thread
  | _ => none

/-- What a call is to make current on its thread, if it is to make anything so. -/
def choice? (m : Machine) : Call → Option (Option PoolId)
  | openPool _ settings => if settings.owned then some (some m.nextId) else none
  | select _ id => some id
  | restore _ current => some current
  | exitThread _ => some none
  | _ => none

/-- Whether a call opens no pool and chooses nothing, whatever there is to choose. -/
def isRoutine : Call → Bool
  | openPool .. | select .. | restore .. | exitThread .. => false
  | _ => true

/-- What a call does to the registers: it leaves those of other threads alone. What it is to choose
is current on its own thread then, or else what was current before, unless it has ended since. -/
structure Keeps (c : Call) (m : Machine) : Prop where
  others : ∀ t, c.thread? ≠ some t → (c.run m).machine.threads t = m.threads t
  current : ∀ t, c.thread? = some t → ((c.run m).machine.threads t).current =
    (c.choice? m).getD ((m.threads t).current.filter (!m.ends (c.run m).machine ·))

theorem Keeps.of_forgets {c : Call} {m : Machine} (choice : c.choice? m = none)
    (forgets : Machine.Forgets c.thread? m (c.run m).machine) : c.Keeps m where
  others := forgets.others
  current := by
    rw [choice]
    exact forgets.current

end Call

namespace Machine

variable {m after : Machine} {p : Pool}

/-- A new pool ends no other. -/
theorem not_ends_of_opened (opened : after.pools = m.pools ++ [p]) (id : PoolId) :
    m.ends after id = false := by
  cases before : m.pool? id with
  | none =>
    unfold ends phase?
    rw [before]
    rfl
  | some q =>
    refine ends_eq_false ?_
    rw [phase?, pool?, opened, List.find?_append, ← pool?, phase?, before]
    rfl

theorem openPool_pools (m : Machine) (caller : Caller) (settings : PoolSettings) :
    ∃ p, (m.openPool caller settings).2.pools = m.pools ++ [p] := by
  unfold openPool
  simp only
  split
  · exact ⟨_, rfl⟩
  · exact ⟨_, rfl⟩

theorem openPool_keeps (m : Machine) (caller : Caller) (settings : PoolSettings) :
    (Call.openPool caller settings).Keeps m := by
  obtain ⟨p, opened⟩ := openPool_pools m caller settings
  have stands := not_ends_of_opened opened
  by_cases owned : settings.owned = true
  · refine ⟨fun t other => ?_, ?_⟩
    · have different : t ≠ caller.thread := fun same => other (congrArg some same.symm)
      simp [Call.run, Outcome.ok, openPool, owned, note, setCurrent, updateRegister, different]
    · rintro _ ⟨⟩
      simp [Call.run, Call.choice?, Outcome.ok, openPool, owned, note, setCurrent, updateRegister]
  · have threads : (m.openPool caller settings).2.threads = m.threads := by
      simp [openPool, owned, note]
    refine ⟨fun t _ => congrFun threads t, ?_⟩
    intro t _
    rw [Call.choice?, if_neg owned]
    exact (congrArg Register.current (congrFun threads t)).trans (filter_not_ends stands _).symm

theorem select_keeps (m : Machine) (caller : Caller) (id : Option PoolId) :
    (Call.select caller id).Keeps m := by
  cases id with
  | none =>
    refine ⟨fun t other => if_neg fun same => other (congrArg some same.symm), ?_⟩
    rintro _ ⟨⟩
    exact congrArg Register.current (if_pos rfl)
  | some id =>
    refine ⟨fun t other => ?_, ?_⟩
    · have different : t ≠ caller.thread := fun same => other (congrArg some same.symm)
      exact (if_neg different).trans (if_neg different)
    · rintro _ ⟨⟩
      exact congrArg Register.current (if_pos rfl)

theorem retireAll_forgets (caller : Caller) (owned : List Pool) (m : Machine) :
    Forgets (some caller.thread) m (owned.foldl (fun m p => (m.retire caller p.id).2) m) := by
  induction owned generalizing m with
  | nil => exact .refl _ m
  | cons p others ih => exact (retire_forgets m caller p.id).trans (ih _)

theorem exitThread_forgets (m : Machine) (thread : ThreadId) :
    ∃ middle, Forgets (some thread) m middle ∧
      m.exitThread thread = middle.updateRegister thread fun _ => .empty := by
  refine ⟨_, ?_, rfl⟩
  split
  · exact .refl _ m
  · refine Forgets.trans (.aside ?_ ?_) (retireAll_forgets { thread, nested := true } _ _)
    · rfl
    · rfl

theorem exitThread_keeps (m : Machine) (thread : ThreadId) : (Call.exitThread thread).Keeps m where
  others := by
    intro t other
    obtain ⟨middle, forgets, same⟩ := exitThread_forgets m thread
    have different : t ≠ thread := fun same => other (congrArg some same.symm)
    change (m.exitThread thread).threads t = m.threads t
    rw [same]
    exact (if_neg different).trans (forgets.others t other)
  current := by
    rintro _ ⟨⟩
    exact congrArg Register.current (if_pos rfl)

theorem reportLeaks_forgets (m : Machine) : Forgets none m m.reportLeaks.2 := by
  have noted : ∀ (blocks : List BlockReport) (m : Machine),
      Forgets none m (blocks.foldl (fun m block => m.note (.leakedBlock block)) m) := by
    intro blocks
    induction blocks with
    | nil => exact fun m => .refl _ m
    | cons block rest ih =>
      intro m
      have first : Forgets none m (m.note (.leakedBlock block)) := .aside rfl rfl
      exact first.trans (ih _)
  exact noted m.liveBlocks m

theorem run_forgets (m : Machine) {c : Call} (routine : c.isRoutine = true) :
    Forgets c.thread? m (c.run m).machine := by
  cases c with
  | openPool | select | restore | exitThread => cases routine
  | dropPool caller id => exact dropPool_forgets m caller id
  | trimPool id => exact trimPool_forgets m id
  | allocate caller named request => exact allocate_forgets m caller named request
  | allocateLayout caller size align zeroed =>
    exact allocate_forgets m caller none ⟨size, align, zeroed, none⟩
  | foreign request => exact serve_forgets m .systemHeap request
  | resizeBlock id addr size => exact resizeBlock_forgets m id addr size
  | releaseBlock caller id addr => exact releaseBlock_forgets m caller id addr
  | reallocate caller named addr size => exact reallocate_forgets m caller named addr size
  | reallocateLayout caller addr old align size =>
    exact reallocateLayout_forgets m caller addr old align size
  | free caller expected addr => exact free_forgets m caller expected addr
  | freeLayout caller addr => exact freeLayout_forgets m caller addr
  | box caller named value => exact box_forgets m caller named value
  | boxOrAbort caller named value => exact boxOrAbort_forgets m caller named value
  | dropBox caller boxed => exact dropBox_forgets m caller boxed
  | unbox caller boxed => exact release_forgets m caller none boxed.addr
  | reportLeaks => exact reportLeaks_forgets m
  | mark | unmark | write | assignBox | dropValue | adjust => exact .aside rfl rfl

/-- Every call keeps to its own thread. -/
theorem keeps (m : Machine) (c : Call) : c.Keeps m := by
  cases c with
  | openPool caller settings => exact openPool_keeps m caller settings
  | select caller id => exact select_keeps m caller id
  | restore thread current =>
    refine ⟨fun t other => if_neg fun same => other (congrArg some same.symm), ?_⟩
    rintro _ ⟨⟩
    exact congrArg Register.current (if_pos rfl)
  | exitThread thread => exact exitThread_keeps m thread
  | _ => exact .of_forgets rfl (run_forgets m rfl)

end Machine

end PooledMemory
