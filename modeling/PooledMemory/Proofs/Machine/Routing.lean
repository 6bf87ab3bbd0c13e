import PooledMemory.Machine.Layouts
import PooledMemory.Proofs.Machine.Lifecycle

namespace PooledMemory

namespace Outcome

variable {α β : Type} {lost : List (Address × PoolId)}

/-- An operation leaves a sound state behind and takes no tag off a live block, and whatever stops
it, no pool has lost track of its memory. -/
structure Keeps (o : Outcome α) (lost : List (Address × PoolId)) : Prop where
  sound : ∃ lost' loans, lost' ⊆ lost ∧ o.machine.Sound lost' loans
  clean : ∀ fault, o.answer = .error fault → fault.isCorruption = false

theorem keeps_ok {m : Machine} {loans : List SystemBlock} (sound : m.Sound lost loans) (answer : α) :
    (ok answer m).Keeps lost where
  sound := ⟨lost, loans, List.Subset.refl _, sound⟩
  clean := by
    intro fault stopped
    cases stopped

theorem keeps_stop {m : Machine} {loans : List SystemBlock} {fault : Fault}
    (sound : m.Sound lost loans) (harmless : fault.isCorruption = false) :
    (stop fault m : Outcome α).Keeps lost where
  sound := ⟨lost, loans, List.Subset.refl _, sound⟩
  clean := by
    intro other stopped
    cases stopped
    exact harmless

theorem Keeps.map {o : Outcome α} (keeps : o.Keeps lost) (f : α → β) : (o.map f).Keeps lost where
  sound := keeps.sound
  clean := by
    intro fault stopped
    obtain ⟨answer, machine⟩ := o
    cases answer with
    | ok answer => cases stopped
    | error other =>
      cases stopped
      exact keeps.clean _ rfl

/-- Where the next operation is sound after a good answer, both are. -/
theorem Keeps.bind {o : Outcome α} {next : α → Machine → Outcome β} (keeps : o.Keeps lost)
    (goes : ∀ answer after, o = .ok answer after → ∀ lost' loans, after.Sound lost' loans →
      (next answer after).Keeps lost') : (o.bind next).Keeps lost := by
  obtain ⟨⟨lost', loans, fewer, sound⟩, clean⟩ := keeps
  obtain ⟨answer, machine⟩ := o
  cases answer with
  | ok answer =>
    obtain ⟨⟨last, loans', fewer', after⟩, clean'⟩ := goes answer machine rfl lost' loans sound
    exact ⟨⟨last, loans', List.Subset.trans fewer' fewer, after⟩, clean'⟩
  | error fault =>
    refine ⟨⟨lost', loans, fewer, sound⟩, fun other stopped => ?_⟩
    cases stopped
    exact clean _ rfl

theorem stops_map {o : Outcome α} {f : α → β} (stops : ∃ fault, (o.map f).answer = .error fault) :
    ∃ fault, o.answer = .error fault := by
  obtain ⟨fault, stopped⟩ := stops
  obtain ⟨answer, machine⟩ := o
  cases answer with
  | ok answer => cases stopped
  | error other => exact ⟨other, rfl⟩

end Outcome

/-- The owner of what is served from here. -/
def Target.owner : Target → Option PoolId
  | .pool id => some id
  | .systemHeap => none
  | .unavailable id => some id

namespace Machine

variable {m : Machine} {lost : List (Address × PoolId)} {loans : List SystemBlock} {id : PoolId}

/-- A call names a block that is recorded or that the system heap has handed to a caller. -/
def Handed (m : Machine) (loans : List SystemBlock) (addr : Address) : Prop :=
  (∃ id, m.owner? addr = some id) ∨ addr ∈ loans.map (·.addr)

theorem Handed.loaned {addr : Address} (handed : m.Handed loans addr)
    (unowned : m.owner? addr = none) : addr ∈ loans.map (·.addr) := by
  refine handed.resolve_left ?_
  rintro ⟨id, owned⟩
  cases unowned.symm.trans owned

theorem Sound.withLoans {loans' : List SystemBlock} (sound : m.Sound lost loans)
    (perm : loans.Perm loans') : m.Sound lost loans' where
  below := sound.below
  held := sound.held.trans (perm.append_left _)
  heaps := sound.heaps
  budgets := sound.budgets
  ids := sound.ids
  numbered := sound.numbered
  tags := sound.tags
  agree := sound.agree

theorem Sound.withSystem {system : SystemHeap} {loans' : List SystemBlock}
    (sound : m.Sound lost loans) (below : system.Sound)
    (held : system.blocks.Perm (m.pools.flatMap (·.heap.holdings) ++ loans')) :
    { m with system }.Sound lost loans' where
  below := below
  held := held
  heaps := sound.heaps
  budgets := sound.budgets
  ids := sound.ids
  numbered := sound.numbered
  tags := sound.tags
  agree := sound.agree

theorem Sound.split_loans (sound : m.Sound lost loans) {addr : Address}
    (loaned : addr ∈ loans.map (·.addr)) :
    ∃ b others, b.addr = addr ∧ m.Sound lost (b :: others) := by
  obtain ⟨b, member, same⟩ := List.mem_map.1 loaned
  exact ⟨b, loans.erase b, same, sound.withLoans (List.perm_cons_erase member)⟩

theorem Sound.returnLoan {b : SystemBlock} (sound : m.Sound lost (b :: loans)) :
    (m.releaseToSystem b.addr).Sound lost loans :=
  sound.withSystem (sound.below.release b.addr)
    (sound.below.filter_perm (sound.held.trans List.perm_middle))

theorem Sound.takeLoan {system : SystemHeap} {size align addr : Nat} {zeroed : Bool}
    (sound : m.Sound lost loans) (filled : 0 < size)
    (taken : m.system.take? size align zeroed = some (addr, system)) :
    { m with system }.Sound lost (⟨addr, size, max align granule⟩ :: loans) := by
  obtain ⟨below, blocks⟩ := sound.below.take filled taken
  refine sound.withSystem below ?_
  rw [blocks]
  exact (sound.held.cons _).trans List.perm_middle.symm

theorem Sound.exchangeLoan {b : SystemBlock} {system : SystemHeap} {size moved : Nat}
    (sound : m.Sound lost (b :: loans))
    (resized : m.system.reallocate? b.addr size = some (moved, system)) :
    ∃ new : SystemBlock, new.addr = moved ∧ { m with system }.Sound lost (new :: loans) := by
  have filled : 0 < max size 1 := by omega
  obtain ⟨below, blocks⟩ :=
    sound.below.resize filled (sound.held.trans List.perm_middle) resized
  exact ⟨_, rfl, sound.withSystem below (blocks.trans List.perm_middle.symm)⟩

theorem resolve_machine (m : Machine) (thread : ThreadId) (id : PoolId) :
    ∃ threads, (m.resolve thread id).2 = { m with threads } := by
  unfold resolve
  split
  · exact ⟨m.threads, rfl⟩
  · split
    · exact ⟨_, rfl⟩
    · exact ⟨m.threads, rfl⟩

/-- Finding out where requests go touches nothing but the register of the thread. -/
theorem target_machine (m : Machine) (caller : Caller) (named : Option PoolId) :
    ∃ threads, (m.target caller named).2 = { m with threads } := by
  unfold target
  cases named with
  | some id => exact ⟨m.threads, rfl⟩
  | none =>
    unfold currentTarget
    by_cases nested : caller.nested
    · simp only [if_pos nested]
      exact ⟨m.threads, rfl⟩
    · simp only [if_neg nested]
      cases (m.threads caller.thread).current with
      | none => exact ⟨m.threads, rfl⟩
      | some id =>
        obtain ⟨threads, same⟩ := resolve_machine m caller.thread id
        refine ⟨threads, ?_⟩
        simp only
        split
        · exact same
        · exact same

theorem resolve_current (m : Machine) (thread other : ThreadId) (id : PoolId) :
    ((m.resolve thread id).2.threads other).current = (m.threads other).current := by
  have kept : ((m.remember thread id).threads other).current = (m.threads other).current := by
    rw [remember, threads_updateRegister]
    split
    · rfl
    · rfl
  unfold resolve
  split
  · rfl
  · split
    · exact kept
    · rfl

theorem target_current (m : Machine) (caller : Caller) (named : Option PoolId)
    (thread : ThreadId) :
    ((m.target caller named).2.threads thread).current = (m.threads thread).current := by
  cases named with
  | some id => rfl
  | none =>
    simp only [target, currentTarget]
    by_cases nested : caller.nested = true
    · rw [if_pos nested]
    · rw [if_neg nested]
      cases (m.threads caller.thread).current with
      | none => rfl
      | some id =>
        have kept := resolve_current m caller.thread thread id
        simp only
        split
        · exact kept
        · exact kept

theorem Sound.withThreads (sound : m.Sound lost loans) (threads : ThreadId → Register) :
    ({ m with threads } : Machine).Sound lost loans :=
  sound.frame rfl rfl rfl rfl

theorem Sound.target (sound : m.Sound lost loans) (caller : Caller) (named : Option PoolId) :
    (m.target caller named).2.Sound lost loans ∧ (m.target caller named).2.tags = m.tags := by
  obtain ⟨threads, same⟩ := target_machine m caller named
  rw [same]
  exact ⟨sound.frame rfl rfl rfl rfl, rfl⟩

theorem Sound.serve (sound : m.Sound lost loans) (target : Target) (request : Request) :
    Served m lost loans (m.serve target request) := by
  cases target with
  | pool id => exact sound.allocateIn id request
  | unavailable id => exact .refused sound rfl
  | systemHeap =>
    simp only [Machine.serve]
    cases taken : m.system.allocate? request.size request.align request.zeroed with
    | none => exact .refused sound rfl
    | some found =>
      obtain ⟨addr, system⟩ := found
      have filled : 0 < max request.size 1 := by omega
      exact .loaned (b := ⟨addr, max request.size 1, max request.align granule⟩)
        (sound.takeLoan filled taken) rfl

theorem Served.keeps {o : Outcome (Except Failure Address)} (served : Served m lost loans o) :
    o.Keeps lost := by
  cases served with
  | refused sound _ => exact Outcome.keeps_ok sound _
  | tagged sound _ => exact Outcome.keeps_ok sound _
  | loaned sound _ => exact Outcome.keeps_ok sound _

theorem Sound.allocate (sound : m.Sound lost loans) (caller : Caller) (named : Option PoolId)
    (request : Request) : Served (m.target caller named).2 lost loans
      (m.allocate caller named request) :=
  (sound.target caller named).1.serve _ _

/-- A recorded block goes back to its pool if the caller expects no other owner. -/
theorem Sound.release_recorded (sound : m.Sound lost loans) (caller : Caller)
    {expected : Option PoolId} {addr : Address} (owned : m.owner? addr = some id)
    (named : expected.all (· == id) = true) :
    m.release caller expected addr = (m.untag addr).releaseIn caller id addr := by
  obtain ⟨tag, member, rfl⟩ := sound.tags.owner?_eq_some_iff.1 owned
  obtain ⟨tags, removed, _⟩ := sound.tags.remove member
  have forgotten : { m with tags } = m.untag addr := by
    simp only [Machine.untag, removed]
    rfl
  simp only [Machine.release, sound.tags.isEmpty_of_mem member, removed, named, forgotten,
    Bool.false_eq_true, if_false, if_true]

theorem Sound.release_owned (sound : m.Sound lost loans) (caller : Caller)
    {expected : Option PoolId} {addr : Address} (owned : m.owner? addr = some id)
    (named : expected.all (· == id) = true) :
    (m.release caller expected addr).answer = .ok () ∧
      (m.release caller expected addr).Keeps lost := by
  obtain ⟨answer, lost', fewer, after⟩ := (sound.untag owned).releaseIn caller
  rw [sound.release_recorded caller owned named]
  refine ⟨answer, ⟨lost', loans, fewer, after⟩, fun fault stopped => ?_⟩
  rw [answer] at stopped
  cases stopped

theorem Sound.remove?_of_unowned (sound : m.Sound lost loans) {addr : Address}
    (free : m.owner? addr = none) : m.tags.remove? addr = none :=
  sound.tags.remove_of_not_mem (sound.tags.owner?_eq_none_iff.1 free)

/-- Any other block goes to the system heap, unless a pool holds it and the call stops. -/
theorem Sound.release_of_unowned (sound : m.Sound lost loans) (caller : Caller)
    (expected : Option PoolId) {addr : Address} (free : m.owner? addr = none) :
    m.release caller expected addr = .ok () (m.releaseToSystem addr) ∨
      ∃ holder, m.holder? addr = some holder ∧ m.release caller expected addr =
        .stop (.insidePool addr holder) (m.note (.strayRelease holder addr)) := by
  unfold Machine.release
  by_cases nothing : m.tags.isEmpty = true
  · exact .inl (if_pos nothing)
  simp only [if_neg nothing, sound.remove?_of_unowned free]
  by_cases nested : caller.nested = true
  · rw [if_pos nested]
    exact .inl rfl
  · rw [if_neg nested]
    cases m.holder? addr with
    | none => exact .inl rfl
    | some holder => exact .inr ⟨holder, rfl, rfl⟩

theorem Sound.release_unowned (sound : m.Sound lost loans) (caller : Caller)
    (expected : Option PoolId) {addr : Address} (free : m.owner? addr = none)
    (handed : addr ∈ loans.map (·.addr) ∨
      ∃ fault, (m.release caller expected addr).answer = .error fault) :
    (m.release caller expected addr).Keeps lost := by
  obtain returned | ⟨holder, _, stopped⟩ := sound.release_of_unowned caller expected free
  · rw [returned] at handed ⊢
    rcases handed with loaned | ⟨fault, stopped⟩
    · obtain ⟨b, others, rfl, split⟩ := sound.split_loans loaned
      exact Outcome.keeps_ok split.returnLoan ()
    · cases stopped
  · rw [stopped]
    exact Outcome.keeps_stop (sound.note _) rfl

theorem Sound.release (sound : m.Sound lost loans) (caller : Caller) {addr : Address}
    (handed : m.Handed loans addr ∨ ∃ fault, (m.release caller none addr).answer = .error fault) :
    (m.release caller none addr).Keeps lost := by
  cases owned : m.owner? addr with
  | some id => exact (sound.release_owned caller owned rfl).2
  | none =>
    refine sound.release_unowned caller none owned (handed.imp_left fun known => ?_)
    rcases known with ⟨id, owned'⟩ | loaned
    · rw [owned] at owned'
      cases owned'
    · exact loaned

/-- A block released into a pool that does not own it loses its tag, and the call stops. -/
theorem Sound.release_misnamed (sound : m.Sound lost loans) (caller : Caller) {other : PoolId}
    {addr : Address} (owned : m.owner? addr = some id) (wrong : other ≠ id) :
    m.release caller (some other) addr = .stop (.wrongOwner addr id) (m.untag addr) := by
  obtain ⟨tag, member, rfl⟩ := sound.tags.owner?_eq_some_iff.1 owned
  obtain ⟨tags, removed, _⟩ := sound.tags.remove member
  have different : (other == tag.pool) = false := by simpa using wrong
  simp only [Machine.release, sound.tags.isEmpty_of_mem member, removed, Option.all_some, different,
    Bool.false_eq_true, if_false, Machine.untag]
  rfl

theorem Sound.owner?_of_subset {after : Machine} {loans' : List SystemBlock} {addr : Address}
    (sound : m.Sound lost loans) (sound' : after.Sound lost loans')
    (more : m.tags.toList ⊆ after.tags.toList) (owned : m.owner? addr = some id) :
    after.owner? addr = some id := by
  obtain ⟨tag, member, same⟩ := sound.tags.owner?_eq_some_iff.1 owned
  exact sound'.tags.owner?_eq_some_iff.2 ⟨tag, more member, same⟩

/-- The new block is handed back if there is no memory for the detour. -/
theorem Sound.moveStaged (sound : m.Sound lost loans) (caller : Caller) {source moved : Address}
    {size : Nat} (target : m.Handed loans moved)
    (handed : source ∈ loans.map (·.addr) ∨
      ∃ fault, (m.moveStaged caller source moved size).answer = .error fault) :
    (m.moveStaged caller source moved size).Keeps lost := by
  unfold Machine.moveStaged at handed ⊢
  cases staged : m.system.reallocate? source size with
  | none => exact (sound.release caller (Or.inl target)).map _
  | some found =>
    obtain ⟨place, system⟩ := found
    simp only [staged] at handed ⊢
    rcases handed with loaned | ⟨fault, stopped⟩
    · obtain ⟨b, others, rfl, split⟩ := sound.split_loans loaned
      obtain ⟨new, rfl, exchanged⟩ := split.exchangeLoan staged
      have copied := exchanged.withBytes (system.bytes.copy new.addr moved size)
      exact Outcome.keeps_ok copied.returnLoan _
    · cases stopped

/-- The old block goes back to its pool once its content is copied. -/
theorem Sound.moveContent_owned (sound : m.Sound lost loans) (caller : Caller)
    {source : Address} (owned : m.owner? source = some id) (known : Option Nat) (moved : Address)
    (size : Nat) : (m.moveContent caller source (some id) known moved size).Keeps lost := by
  unfold Machine.moveContent
  simp only
  refine Outcome.Keeps.map ?_ _
  have copied := sound.withBytes
    (m.system.bytes.copy source moved (min ((m.blockSize? id source).getD 0) size))
  obtain ⟨answer, lost', fewer, after⟩ := (copied.untag owned).releaseIn caller
  refine ⟨⟨lost', loans, fewer, after⟩, fun fault stopped => ?_⟩
  rw [answer] at stopped
  cases stopped

theorem Sound.moveContent_unowned (sound : m.Sound lost loans) (caller : Caller)
    {source moved : Address} {known : Option Nat} {size : Nat} (target : m.Handed loans moved)
    (handed : source ∈ loans.map (·.addr) ∨
      ∃ fault, (m.moveContent caller source none known moved size).answer = .error fault) :
    (m.moveContent caller source none known moved size).Keeps lost := by
  unfold Machine.moveContent at handed ⊢
  simp only at handed ⊢
  by_cases told : 0 < known.getD (m.system.usableSize source)
  · simp only [if_pos told] at handed ⊢
    rcases handed with loaned | ⟨fault, stopped⟩
    · obtain ⟨b, others, rfl, split⟩ := sound.split_loans loaned
      exact Outcome.keeps_ok (split.withBytes _).returnLoan _
    · cases stopped
  · simp only [if_neg told] at handed ⊢
    exact sound.moveStaged caller target handed

/-- The block moves behind a request that its new place is served from. -/
theorem Sound.moveElsewhere (sound : m.Sound lost loans) (caller : Caller) {addr : Address}
    {owner : Option PoolId} {known : Option Nat} {target : Target} {request : Request}
    {next : Except Failure Address → Machine → Outcome (Option Address)}
    (refused : ∀ failure after, next (.error failure) after = .ok none after)
    (served : ∀ moved after, next (.ok moved) after =
      after.moveContent caller addr owner known moved request.size)
    (handed : (∃ id, owner = some id ∧ m.owner? addr = some id) ∨
      owner = none ∧ (addr ∈ loans.map (·.addr) ∨
        ∃ fault, ((m.serve target request).bind next).answer = .error fault)) :
    ((m.serve target request).bind next).Keeps lost := by
  have issued := sound.serve target request
  revert issued handed
  generalize m.serve target request = o
  intro handed issued
  cases issued with
  | refused after _ =>
    show (next _ _).Keeps lost
    rw [refused]
    exact Outcome.keeps_ok after none
  | @tagged moved tag after soundAfter perm =>
    have target : after.Handed loans moved :=
      Or.inl ⟨tag.pool, soundAfter.tags.owner?_eq_some_iff.2
        ⟨tag, perm.mem_iff.2 (List.mem_cons_self ..), rfl⟩⟩
    have more : m.tags.toList ⊆ after.tags.toList := fun e member =>
      perm.mem_iff.2 (List.mem_cons_of_mem _ member)
    show (next _ _).Keeps lost
    change (_ ∨ _ ∧ (_ ∨ ∃ fault, (next _ _).answer = .error fault)) at handed
    rw [served] at handed ⊢
    rcases handed with ⟨id, rfl, owned⟩ | ⟨rfl, free⟩
    · exact soundAfter.moveContent_owned caller (sound.owner?_of_subset soundAfter more owned) ..
    · exact soundAfter.moveContent_unowned caller target free
  | @loaned b after soundAfter same =>
    have target : after.Handed (b :: loans) b.addr := Or.inr (List.mem_cons_self ..)
    have more : m.tags.toList ⊆ after.tags.toList := by
      rw [same]
      exact List.Subset.refl _
    show (next _ _).Keeps lost
    change (_ ∨ _ ∧ (_ ∨ ∃ fault, (next _ _).answer = .error fault)) at handed
    rw [served] at handed ⊢
    rcases handed with ⟨id, rfl, owned⟩ | ⟨rfl, free⟩
    · exact soundAfter.moveContent_owned caller (sound.owner?_of_subset soundAfter more owned) ..
    · exact soundAfter.moveContent_unowned caller target
        (free.imp_left fun old => List.mem_cons_of_mem _ old)

/-- The ways in which a block may be resized or moved to another heap: it stays where it is since
the request for it goes nowhere, its pool resizes it, the system heap exchanges it for another one, or
it moves behind a request that its new place is served from. -/
inductive Ways (m : Machine) (caller : Caller) (target : Target) (addr : Address)
    (known : Option Nat) (request : Request) : Outcome (Option Address) → Prop
  | stays : m.owner? addr = target.owner ∨ (m.serve target request).machine = m →
    Ways m caller target addr known request (.ok none m)
  | resized {id : PoolId} : m.owner? addr = some id → target.owner = some id →
    Ways m caller target addr known request (m.resizeIn id addr request.size)
  | exchanged {moved : Address} {system : SystemHeap} : m.owner? addr = none →
    target.owner = none → m.system.reallocate? addr request.size = some (moved, system) →
    Ways m caller target addr known request (.ok (some moved) { m with system })
  | elsewhere {next : Except Failure Address → Machine → Outcome (Option Address)} :
    (∀ id, target.owner = some id → m.owner? addr ≠ some id) →
    (∀ failure after, next (.error failure) after = .ok none after) →
    (∀ moved after, next (.ok moved) after =
      after.moveContent caller addr (m.owner? addr) known moved request.size) →
    Ways m caller target addr known request ((m.serve target request).bind next)

theorem relocate_ways (m : Machine) (caller : Caller) (target : Target) (addr : Address)
    (known : Option Nat) (request : Request) :
    Ways m caller target addr known request (m.relocate caller target addr known request) := by
  unfold Machine.relocate
  cases owned : m.owner? addr with
  | some id =>
    cases target with
    | pool other =>
      by_cases same : id = other
      · simp only [if_pos same]
        exact .resized owned (congrArg some same.symm)
      · simp only [if_neg same]
        refine .elsewhere (fun _ there here => same ?_) (fun _ _ => rfl) fun _ _ => by rw [owned]
        exact Option.some.inj (owned.symm.trans (here.trans there.symm))
    | unavailable other =>
      by_cases same : id = other
      · simp only [if_pos same]
        exact .resized owned (congrArg some same.symm)
      · simp only [if_neg same]
        exact .stays (.inr rfl)
    | systemHeap =>
      exact .elsewhere (fun _ there => nomatch there) (fun _ _ => rfl) fun _ _ => by rw [owned]
  | none =>
    have unowned : ∀ id, m.owner? addr ≠ some id := fun id here => nomatch owned.symm.trans here
    cases target with
    | pool other =>
      exact .elsewhere (fun id _ => unowned id) (fun _ _ => rfl) fun _ _ => by rw [owned]
    | unavailable other => exact .stays (.inr rfl)
    | systemHeap =>
      by_cases plain : request.align ≤ granule
      · simp only [if_pos plain]
        cases moved : m.system.reallocate? addr request.size with
        | none => exact .stays (.inl owned)
        | some found => exact .exchanged owned rfl moved
      · simp only [if_neg plain]
        exact .elsewhere (fun id _ => unowned id) (fun _ _ => rfl) fun _ _ => by rw [owned]

/-- A call that is to resize or move a block: it stops at a mark, or it relocates the block as soon as
it knows where requests go. Nothing but what a thread remembers is different before that. -/
inductive Directed (m : Machine) (addr : Address) : Outcome (Option Address) → Prop
  | marked {fault : Fault} {threads : ThreadId → Register} : fault.isCorruption = false →
    Directed m addr (.stop fault { m with threads })
  | relocated {threads : ThreadId → Register} (caller : Caller) (target : Target)
    (known : Option Nat) (request : Request) :
    (∀ thread, (threads thread).current = (m.threads thread).current) →
    Directed m addr (({ m with threads } : Machine).relocate caller target addr known request)

theorem reallocate_directed (m : Machine) (caller : Caller) (named : Option PoolId)
    (addr : Address) (size : Nat) : m.Directed addr (m.reallocate caller named addr size) := by
  obtain ⟨threads, same⟩ := target_machine m caller named
  have current := target_current m caller named
  unfold Machine.reallocate
  simp only [same] at current ⊢
  split
  · exact .marked rfl
  · exact .relocated caller _ none (.plain size caller.site) current

theorem reallocateLayout_directed (m : Machine) (caller : Caller) (addr : Address)
    (old align size : Nat) : m.Directed addr (m.reallocateLayout caller addr old align size) := by
  obtain ⟨threads, same⟩ := target_machine m caller none
  have current := target_current m caller none
  unfold Machine.reallocateLayout
  simp only [same] at current ⊢
  split
  · exact .marked rfl
  · exact .relocated caller _ (some old) ⟨size, align, false, none⟩ current

/-- A block that is resized or moved is recorded as before or handed out as before. -/
theorem Sound.relocate (sound : m.Sound lost loans) (caller : Caller) (target : Target)
    {addr : Address} {known : Option Nat} {request : Request} (handed : m.Handed loans addr ∨
      ∃ fault, (m.relocate caller target addr known request).answer = .error fault) :
    (m.relocate caller target addr known request).Keeps lost := by
  have ways := m.relocate_ways caller target addr known request
  generalize m.relocate caller target addr known request = o at handed ways ⊢
  cases ways with
  | stays _ => exact Outcome.keeps_ok sound none
  | resized owned _ =>
    obtain ⟨answer, resized, after⟩ := sound.resizeIn owned request.size
    refine ⟨⟨lost, loans, List.Subset.refl _, after⟩, fun fault stopped => ?_⟩
    rw [resized] at stopped
    cases stopped
  | exchanged free _ moved =>
    rcases handed with known | ⟨fault, stopped⟩
    · obtain ⟨b, others, rfl, split⟩ := sound.split_loans (known.loaned free)
      obtain ⟨new, _, exchanged⟩ := split.exchangeLoan moved
      exact Outcome.keeps_ok exchanged _
    · cases stopped
  | elsewhere _ refused served =>
    refine sound.moveElsewhere caller refused served ?_
    cases owned : m.owner? addr with
    | some id => exact .inl ⟨id, rfl, rfl⟩
    | none => exact .inr ⟨rfl, handed.imp_left (·.loaned owned)⟩

end Machine

end PooledMemory
