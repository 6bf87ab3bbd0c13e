import PooledMemory.Proofs.Machine.Deeds

namespace PooledMemory

namespace Machine

variable {m middle after : Machine} {lost : List (Address × PoolId)} {loans : List SystemBlock}
  {id : PoolId} {own : Option PoolId} {refits : PoolId → Prop} {block : Option Address}
  {addr : Address}

theorem Deals.after_aside (deals : Deals own refits block middle after)
    (pools : middle.pools = m.pools) (events : middle.events = m.events) :
    Deals own refits block m after := by
  have silent : ∀ id, m.Silent middle id := fun id =>
    ⟨by rw [pool?, pool?, pools], by rw [log, log, events]⟩
  exact ⟨Does.trans (fun id => (silent id).fate) deals.does fun id => .inl (silent id),
    fun id other => (silent id).trans (deals.others id other)⟩

theorem Deals.then_aside (deals : Deals own refits block m middle)
    (pools : after.pools = middle.pools) (events : after.events = middle.events) :
    Deals own refits block m after := by
  have silent : ∀ id, middle.Silent after id := fun id =>
    ⟨by rw [pool?, pool?, pools], by rw [log, log, events]⟩
  exact ⟨deals.does.trans (fun id => (silent id).fate) fun id => .inr (silent id),
    fun id other => (deals.others id other).trans (silent id)⟩

/-- Two pools deal one after the other. -/
theorem Deals.trans {other : Option PoolId} (first : Deals own refits block m middle)
    (second : Deals other refits block middle after)
    (apart : ∀ id, own = some id → other ≠ some id) :
    Does refits block m after := by
  refine first.does.trans second.does fun id => ?_
  by_cases here : own = some id
  · exact .inr (second.others id (apart id here))
  · exact .inl (first.others id here)

/-- A pool hands out a block, and the block goes back to it. -/
theorem Deals.returned {p : Pool} (deals : Deals (some id) refits block m middle)
    (sound : middle.Sound ((addr, id) :: lost) loans) (known : m.pool? id = some p)
    (issued : ∀ q, middle.pool? id = some q →
      q.phase = .live ∧ ParkedChunk.Draws p.heap.parked q.heap.parked) (caller : Caller) :
    Deals (some id) refits block m (middle.releaseIn caller id addr).machine := by
  obtain ⟨q, b, found, start, rfl, rfl⟩ := sound.live_of_lost
  obtain ⟨isLive, draws⟩ := issued q found
  have releasing := sound.releaseIn_releasing caller found start
  generalize middle.releaseIn caller q.id b.addr = o at releasing
  cases releasing with
  | ends _ _ pending _ => cases isLive.symm.trans pending
  | @goesOn step released _ _ =>
    have keeps : ∀ p : Pool, ({ p with heap := step.heap } : Pool).id = p.id := fun _ => rfl
    refine ⟨fun other => ?_, fun other different => ?_⟩
    · by_cases same : other = q.id
      · subst same
        obtain ⟨new, log, fate⟩ := deals.does q.id
        refine ⟨new, log, ?_⟩
        show Pool.Fate _ _ _ _ ((middle.putHeap q.id step.heap step.system).pool? q.id)
        rw [found] at fate
        rw [pool?_putHeap step.heap step.system found]
        rw [known] at fate ⊢
        cases fate with
        | goesOn remains deed =>
          exact .goesOn ⟨remains.id, remains.settings, remains.owner⟩
            (.returns deed draws isLive isLive (sound.heap found) released rfl)
      · obtain ⟨pool, log⟩ := deals.others other fun here => same (Option.some.inj here).symm
        exact Silent.fate ⟨(pool?_updatePool_of_ne keeps same).trans pool, log⟩
    · obtain ⟨pool, log⟩ := deals.others other different
      exact ⟨(pool?_updatePool_of_ne keeps fun here => different (congrArg some here.symm)).trans
        pool, log⟩

/-- A pool that has ended its life as a live one. -/
def Settled (m : Machine) (id : PoolId) : Prop := ∀ p, m.pool? id = some p → p.phase ≠ .live

theorem retire_settled (m : Machine) (caller : Caller) (id : PoolId) :
    (m.retire caller id).2.Settled id := by
  have turned : ∀ (phase : Phase) {p : Pool} {f : Pool → Pool} {after : Machine}, phase ≠ .live →
      m.pool? id = some p → after.pools = (m.updatePool id f).pools → (∀ p, (f p).id = p.id) →
      (f p).phase = phase → after.Settled id := by
    intro phase p f after dead found pools keeps same q found'
    rw [pool?, pools, ← pool?, pool?_updatePool keeps, found, Option.map_some,
      if_pos (pool?_id found)] at found'
    cases found'
    exact same ▸ dead
  unfold Machine.retire
  cases found : m.pool? id with
  | none =>
    intro p found'
    cases found.symm.trans found'
  | some p =>
    obtain ⟨_, rfl⟩ := pool?_mem found
    simp only
    split
    · rename_i ended
      intro q found'
      cases found.symm.trans found'
      exact ended
    · split
      · obtain ⟨threads, cleared⟩ :=
          clearCurrent_eq (m.setPhase p.id .deletePending) caller.thread p.id
        rw [cleared]
        exact turned .deletePending (f := ({ · with phase := .deletePending })) (by decide) found
          rfl (fun _ => rfl) rfl
      · obtain ⟨threads, same⟩ := destroy_eq m caller p
        rw [same]
        exact turned .destroyed (f := Pool.emptied (p.heap.releaseAll m.system).1) (by decide)
          found rfl (fun _ => rfl) rfl

theorem Settled.retire_silent (settled : m.Settled id) (caller : Caller) (other : PoolId) :
    m.Silent (m.retire caller other).2 id := by
  by_cases same : other = id
  · subst same
    have nothing : (m.retire caller other).2 = m := by
      unfold Machine.retire
      cases found : m.pool? other with
      | none => rfl
      | some p => simp only [if_pos (settled p found)]
    rw [nothing]
    exact ⟨rfl, rfl⟩
  · have deals : Deals (some other) (fun _ => False) none m (m.retire caller other).2 :=
      retire_deals m caller other
    exact deals.others id fun here => same (Option.some.inj here)

theorem retireAll_does (caller : Caller) (owned : List Pool) (m : Machine) :
    Does refits none m (owned.foldl (fun m p => (m.retire caller p.id).2) m) ∧
      ∀ id, m.Settled id →
        m.Silent (owned.foldl (fun m p => (m.retire caller p.id).2) m) id := by
  induction owned generalizing m with
  | nil => exact ⟨fun id => Silent.fate ⟨rfl, rfl⟩, fun id _ => ⟨rfl, rfl⟩⟩
  | cons p others ih =>
    have first : Deals (some p.id) refits none m (m.retire caller p.id).2 :=
      retire_deals m caller p.id
    obtain ⟨does, silent⟩ := ih (m.retire caller p.id).2
    refine ⟨first.does.trans does fun id => ?_, fun id settled => ?_⟩
    · by_cases same : id = p.id
      · subst same
        exact .inr (silent p.id (retire_settled m caller p.id))
      · exact .inl (first.others id fun here => same (Option.some.inj here).symm)
    · have still := settled.retire_silent caller p.id
      refine still.trans (silent id fun q found => settled q ?_)
      rwa [← still.pool]

theorem exitThread_does (m : Machine) (thread : ThreadId) :
    Does refits none m (m.exitThread thread) := by
  unfold Machine.exitThread
  simp only
  split
  · exact fun id => Silent.fate ⟨rfl, rfl⟩
  · rename_i some'
    let owned := m.listedPools.filter fun p => p.owner == some thread && p.phase == .live
    have noted : Deals none refits none m (m.note (.threadReaped thread owned.length)) :=
      .noted rfl rfl (List.forall_mem_singleton.2 rfl)
    exact noted.does.trans (retireAll_does { thread, nested := true } owned _).1 fun id =>
      .inl (noted.others id nofun)

theorem reportLeaks_does (m : Machine) : Does refits block m m.reportLeaks.2 := by
  have noted : ∀ (blocks : List BlockReport) (m : Machine),
      Deals none refits block m (blocks.foldl (fun m b => m.note (.leakedBlock b)) m) := by
    intro blocks
    induction blocks with
    | nil => exact fun m => .aside rfl rfl
    | cons b rest ih =>
      intro m
      have first : Deals none refits block m (m.note (.leakedBlock b)) :=
        .noted rfl rfl (List.forall_mem_singleton.2 rfl)
      exact ⟨first.trans (ih _) nofun, fun id none' =>
        (first.others id none').trans ((ih _).others id none')⟩
  exact (noted m.liveBlocks m).does

/-- A released block is one of its owner, or it is none of any pool. -/
theorem Sound.release_deals (sound : m.Sound lost loans) (caller : Caller)
    (expected : Option PoolId) (addr : Address) :
    Deals (m.owner? addr) refits (some addr) m (m.release caller expected addr).machine := by
  cases owned : m.owner? addr with
  | some id =>
    by_cases named : expected.all (· == id) = true
    · rw [sound.release_recorded caller owned named]
      exact ((sound.untag owned).releaseIn_deals caller).after_aside rfl rfl
    · obtain ⟨other, rfl⟩ : ∃ other, expected = some other := by
        cases expected with
        | none => exact absurd rfl named
        | some other => exact ⟨other, rfl⟩
      rw [sound.release_misnamed caller owned (by simpa using named)]
      exact .aside rfl rfl
  | none =>
    obtain same | ⟨holder, _, same⟩ := sound.release_of_unowned caller expected owned
    · rw [same]
      exact .aside rfl rfl
    · rw [same]
      exact .noted rfl rfl (List.forall_mem_singleton.2 rfl)

theorem Sound.releaseBlock_deals (sound : m.Sound lost loans) (caller : Caller) (id : PoolId)
    (addr : Address) :
    Deals (some id) refits (some addr) m (m.releaseBlock caller id addr).machine := by
  unfold Machine.releaseBlock
  cases owned : m.owner? addr with
  | some owner =>
    by_cases own : owner = id
    · subst own
      simp only [if_true]
      exact ((sound.untag owned).releaseIn_deals caller).after_aside rfl rfl
    · simp only [if_neg own]
      exact .aside rfl rfl
  | none =>
    rcases sound.lost_or_missing id owned with ⟨_, _, isLost⟩ | missing
    · exact isLost.releaseIn_deals caller
    · simp only [sound.releaseIn_missing caller missing]
      exact .aside rfl rfl

theorem Sound.serve_deals (sound : m.Sound lost loans) (target : Target) (request : Request)
    (plain : ∀ id, ¬ refits id) :
    Deals target.owner refits block m (m.serve target request).machine := by
  cases target with
  | pool id => exact sound.allocateIn_deals id request (plain id)
  | unavailable id => exact .aside rfl rfl
  | systemHeap =>
    simp only [Machine.serve]
    split <;> exact .aside rfl rfl

/-- The block that a pool answers with is recorded for it. -/
theorem Sound.allocateIn_issued {request : Request} {moved : Address} (sound : m.Sound lost loans)
    (answer : (m.allocateIn id request).answer = .ok (.ok moved)) :
    (m.allocateIn id request).machine.Sound lost loans ∧
      (m.allocateIn id request).machine.owner? moved = some id ∧
      ∃ p heap, m.pool? id = some p ∧ p.phase = .live ∧
        ParkedChunk.Draws p.heap.parked heap.parked ∧
        (m.allocateIn id request).machine.pool? id = some { p with heap } := by
  have placing := sound.allocateIn_placing id request
  generalize m.allocateIn id request = o at placing answer
  cases placing with
  | unavailable => cases answer
  | refused _ _ _ _ _ _ => cases answer
  | @placed p step addr tags bytes events found isLive allocated _ _ perm _ after =>
    cases answer
    refine ⟨after, after.tags.owner?_eq_some_iff.2
      ⟨_, perm.mem_iff.2 (List.mem_cons_self ..), rfl⟩, p, step.heap, found, isLive,
      Heap.allocate_draws allocated, ?_⟩
    exact pool?_putHeap step.heap { step.system with bytes } found

/-- A request is served, and then what it was served with is handed back. -/
theorem Sound.serve_returned {target : Target} {request : Request} {moved : Address}
    (sound : m.Sound lost loans) (plain : ∀ id, ¬ refits id) (caller : Caller)
    (answer : (m.serve target request).answer = .ok (.ok moved)) :
    Deals target.owner refits block m
      ((m.serve target request).machine.release caller none moved).machine := by
  cases target with
  | pool id =>
    obtain ⟨after, owned, p, heap, found, isLive, draws, found'⟩ := sound.allocateIn_issued answer
    have deals : Deals (some id) refits block m (m.allocateIn id request).machine :=
      sound.allocateIn_deals id request (plain id)
    show Deals (some id) refits block m
      ((m.allocateIn id request).machine.release caller none moved).machine
    rw [after.release_recorded caller owned rfl]
    have untagged : Deals (some id) refits block m
        ((m.allocateIn id request).machine.untag moved) := deals.then_aside rfl rfl
    refine untagged.returned (after.untag owned) found (fun q other => ?_) caller
    cases found'.symm.trans other
    exact ⟨isLive, draws⟩
  | unavailable id => cases answer
  | systemHeap =>
    simp only [Machine.serve] at answer ⊢
    cases taken : m.system.allocate? request.size request.align request.zeroed with
    | none =>
      simp only [taken] at answer
      cases answer
    | some found =>
      obtain ⟨place, system⟩ := found
      simp only [taken] at answer ⊢
      cases answer
      have filled : 0 < max request.size 1 := by omega
      have lent := sound.takeLoan filled taken
      simp only [Outcome.ok, lent.release_loaned caller none (List.mem_cons_self ..)]
      exact .aside rfl rfl

theorem Sound.allocate_deals (sound : m.Sound lost loans) (caller : Caller) (named : Option PoolId)
    (request : Request) (plain : ∀ id, ¬ refits id) :
    Deals (m.target caller named).1.owner refits block m
      (m.allocate caller named request).machine := by
  obtain ⟨threads, same⟩ := target_machine m caller named
  unfold Machine.allocate
  simp only [same]
  exact ((sound.withThreads threads).serve_deals _ request plain).after_aside rfl rfl

theorem Sound.box_deals (sound : m.Sound lost loans) (caller : Caller) (named : Option PoolId)
    (value : Value) (plain : ∀ id, ¬ refits id) :
    Deals (m.target caller named).1.owner refits block m (m.box caller named value).machine := by
  obtain ⟨bytes, dropped, same⟩ := m.box_machine caller named value
  rw [same]
  exact (sound.allocate_deals caller named _ plain).then_aside rfl rfl

theorem Sound.boxOrAbort_deals (sound : m.Sound lost loans) (caller : Caller)
    (named : Option PoolId) (value : Value) (plain : ∀ id, ¬ refits id) :
    Deals (m.target caller named).1.owner refits block m
      (m.boxOrAbort caller named value).machine := by
  rw [boxOrAbort_machine]
  exact sound.box_deals caller named value plain

/-- A block moves: its target serves a request, and its owner takes the old block back. -/
theorem Sound.elsewhere_does (sound : m.Sound lost loans) (caller : Caller)
    {known : Option Nat} {target : Target} {request : Request}
    {next : Except Failure Address → Machine → Outcome (Option Address)}
    (plain : ∀ id, ¬ refits id)
    (foreign : ∀ id, target.owner = some id → m.owner? addr ≠ some id)
    (refused : ∀ failure after, next (.error failure) after = .ok none after)
    (served : ∀ moved after, next (.ok moved) after =
      after.moveContent caller addr (m.owner? addr) known moved request.size) :
    Does refits (some addr) m ((m.serve target request).bind next).machine := by
  have deals : Deals target.owner refits (some addr) m (m.serve target request).machine :=
    sound.serve_deals target request plain
  have handed := fun moved (served : (m.serve target request).answer = .ok (.ok moved)) =>
    (sound.serve target request).handed sound served
  have returned : ∀ moved, (m.serve target request).answer = .ok (.ok moved) →
      Deals target.owner refits (some addr) m
        ((m.serve target request).machine.release caller none moved).machine :=
    fun moved answer => sound.serve_returned plain caller answer
  generalize m.serve target request = o at deals handed returned
  obtain ⟨answer, after⟩ := o
  cases answer with
  | error fault => exact deals.does
  | ok answer =>
    cases answer with
    | error failure =>
      show Does refits (some addr) m (next (.error failure) after).machine
      rw [refused]
      exact deals.does
    | ok moved =>
      obtain ⟨loans', soundAfter, _, _, keeps⟩ := handed moved rfl
      show Does refits (some addr) m (next (.ok moved) after).machine
      rw [served]
      unfold Machine.moveContent
      cases owned : m.owner? addr with
      | some id =>
        have copied := soundAfter.withBytes (after.system.bytes.copy addr moved
          (min ((after.blockSize? id addr).getD 0) request.size))
        have still : after.owner? addr = some id := keeps id addr owned
        have taken : Deals (some id) refits (some addr) after _ :=
          ((copied.untag still).releaseIn_deals caller).after_aside rfl rfl
        refine deals.trans taken fun other here same => ?_
        exact foreign other here (owned.trans same)
      | none =>
        simp only
        split
        · exact (deals.then_aside rfl rfl).does
        · unfold Machine.moveStaged
          split
          · exact (returned moved rfl).does
          · exact (deals.then_aside rfl rfl).does

/-- A block that is resized or moved is dealt with by its pool alone, or by the pools that it moves
between. -/
theorem Sound.relocate_does (sound : m.Sound lost loans) (caller : Caller) (target : Target)
    {known : Option Nat} {request : Request}
    (own : ∀ id, refits id ↔ m.owner? addr = some id ∧ target.owner = some id) :
    Does refits (some addr) m (m.relocate caller target addr known request).machine := by
  have ways := m.relocate_ways caller target addr known request
  generalize m.relocate caller target addr known request = o at ways
  cases ways with
  | stays _ => exact fun id => Silent.fate ⟨rfl, rfl⟩
  | resized owned here => exact (sound.resizeIn_deals owned _ ((own _).2 ⟨owned, here⟩)).does
  | exchanged _ _ _ => exact fun id => Silent.fate ⟨rfl, rfl⟩
  | elsewhere foreign refused served =>
    exact sound.elsewhere_does caller (fun id refits => foreign id ((own id).1 refits).2
      ((own id).1 refits).1) foreign refused served

theorem Sound.reallocate_does (sound : m.Sound lost loans) (caller : Caller)
    (named : Option PoolId) (addr : Address) (size : Nat)
    (own : ∀ id, refits id ↔ m.owner? addr = some id ∧ (m.target caller named).1.owner = some id) :
    Does refits (some addr) m (m.reallocate caller named addr size).machine := by
  obtain ⟨threads, same⟩ := target_machine m caller named
  unfold Machine.reallocate
  simp only [same]
  split
  · exact fun id => Silent.fate ⟨rfl, rfl⟩
  · exact (sound.withThreads threads).relocate_does caller _ own

theorem Sound.reallocateLayout_does (sound : m.Sound lost loans) (caller : Caller)
    (addr : Address) (old align size : Nat)
    (own : ∀ id, refits id ↔ m.owner? addr = some id ∧ (m.target caller none).1.owner = some id) :
    Does refits (some addr) m (m.reallocateLayout caller addr old align size).machine := by
  obtain ⟨threads, same⟩ := target_machine m caller none
  unfold Machine.reallocateLayout
  simp only [same]
  split
  · exact fun id => Silent.fate ⟨rfl, rfl⟩
  · exact (sound.withThreads threads).relocate_does caller _ own

end Machine

namespace Call

/-- The pool that a call asks to resize one of its own blocks. -/
def refitter? (c : Call) (m : Machine) : Option PoolId :=
  match c with
  | resizeBlock id addr _ => if m.owner? addr = some id then some id else none
  | reallocate caller named addr _ =>
    (m.owner? addr).filter fun id => (m.target caller named).1.owner == some id
  | reallocateLayout caller addr _ _ _ =>
    (m.owner? addr).filter fun id => (m.target caller none).1.owner == some id
  | _ => none

end Call

namespace Machine

variable {m : Machine} {lost : List (Address × PoolId)} {loans : List SystemBlock} {c : Call}

theorem refitter?_eq_some_iff {target : Target} {addr : Address} {id : PoolId} :
    ((m.owner? addr).filter fun id => target.owner == some id) = some id ↔
      m.owner? addr = some id ∧ target.owner = some id := by
  rw [Option.filter_eq_some_iff, beq_iff_eq]

/-- During a call each pool does one thing at most, and it logs what it does. -/
theorem Sound.run_does (sound : m.Sound lost loans) (c : Call) :
    Does (c.refitter? m = some ·) c.block? m (c.run m).machine := by
  have aside : ∀ {after : Machine}, after.pools = m.pools → after.events = m.events →
      Does (c.refitter? m = some ·) c.block? m after := fun pools events =>
    have deals : Deals none (c.refitter? m = some ·) c.block? m _ := .aside pools events
    deals.does
  -- only the calls that resize a block ask for that
  have plain : ∀ id, ¬ (none : Option PoolId) = some id := fun id same => nomatch same
  cases c with
  | openPool caller settings => exact (openPool_deals sound caller settings).does
  | dropPool caller id => exact (dropPool_deals m caller id).does
  | trimPool id => exact (sound.trimPool_deals id (plain id)).does
  | exitThread thread => exact exitThread_does m thread
  | select caller id => cases id <;> exact aside rfl rfl
  | restore thread current => exact aside rfl rfl
  | allocate caller named request => exact (sound.allocate_deals caller named request plain).does
  | allocateLayout caller size align zeroed =>
    exact (sound.allocate_deals caller none ⟨size, align, zeroed, none⟩ plain).does
  | foreign request => exact (sound.serve_deals .systemHeap request plain).does
  | resizeBlock id addr size =>
    simp only [Call.run, Machine.resizeBlock]
    by_cases owned : m.owner? addr = some id
    · have own : (Call.resizeBlock id addr size).refitter? m = some id := if_pos owned
      have resized : Deals (some id) ((Call.resizeBlock id addr size).refitter? m = some ·)
          (some addr) m _ := sound.resizeIn_deals owned size own
      simp only [if_pos owned]
      exact resized.does
    · simp only [if_neg owned]
      exact aside rfl rfl
  | releaseBlock caller id addr => exact (sound.releaseBlock_deals caller id addr).does
  | reallocate caller named addr size =>
    exact sound.reallocate_does caller named addr size fun _ => refitter?_eq_some_iff
  | reallocateLayout caller addr old align size =>
    exact sound.reallocateLayout_does caller addr old align size fun _ => refitter?_eq_some_iff
  | free caller expected addr =>
    simp only [Call.run, Machine.free]
    split
    · exact aside rfl rfl
    · exact (sound.release_deals caller expected addr).does
  | freeLayout caller addr =>
    simp only [Call.run, Machine.freeLayout]
    split
    · exact aside rfl rfl
    · exact (sound.release_deals caller none addr).does
  | mark addr => exact aside rfl rfl
  | unmark addr => exact aside rfl rfl
  | write addr len content => exact aside rfl rfl
  | box caller named value => exact (sound.box_deals caller named value plain).does
  | boxOrAbort caller named value => exact (sound.boxOrAbort_deals caller named value plain).does
  | assignBox box value => exact aside rfl rfl
  | dropBox caller box =>
    exact (((sound.dropValue (m.readBox box)).release_deals caller none box.addr).after_aside rfl
      rfl).does
  | unbox caller box => exact (sound.release_deals caller none box.addr).does
  | dropValue value => exact aside rfl rfl
  | reportLeaks => exact reportLeaks_does m
  | adjust system => exact aside rfl rfl

/-- What holds at the start and is kept whenever pools do one thing at most holds in all states that
programs reach, whatever they pass. -/
theorem Attempted.of_does {P : Machine → Prop} (attempted : Attempted m)
    (start : ∀ slots, P (.start slots))
    (keeps : ∀ {refits : PoolId → Prop} {block : Option Address} {m after : Machine},
      Does refits block m after → P m → P after) : P m := by
  induction attempted with
  | start slots => exact start slots
  | step c attempted _ _ ih =>
    obtain ⟨_, _, sound⟩ := attempted.sound
    exact keeps (sound.run_does c) ih
  | stopped c attempted _ ih =>
    obtain ⟨_, _, sound⟩ := attempted.sound
    exact keeps (sound.run_does c) ih

end Machine

end PooledMemory
