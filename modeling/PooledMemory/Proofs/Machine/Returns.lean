import PooledMemory.Proofs.Machine.Conduct

namespace PooledMemory

namespace Machine

variable {m : Machine} {lost : List (Address × PoolId)} {loans : List SystemBlock} {id : PoolId}
  {p : Pool}

theorem Sound.loan_mem (sound : m.Sound lost loans) {addr : Address}
    (loaned : addr ∈ loans.map (·.addr)) : ∃ b ∈ m.system.blocks, b.addr = addr := by
  obtain ⟨b, member, start⟩ := List.mem_map.1 loaned
  exact ⟨b, sound.held.mem_iff.2 (List.mem_append_right _ member), start⟩

theorem Sound.releaseToSystem_strays (sound : m.Sound lost loans) {addr : Address}
    (loaned : addr ∈ loans.map (·.addr)) :
    (m.releaseToSystem addr).system.strayReturns = m.system.strayReturns := by
  obtain ⟨b, member, rfl⟩ := sound.loan_mem loaned
  exact sound.below.release_strays member

theorem Sound.exchangeLoan_strays (sound : m.Sound lost loans) {addr moved size : Nat}
    {system : SystemHeap} (loaned : addr ∈ loans.map (·.addr))
    (resized : m.system.reallocate? addr size = some (moved, system)) :
    system.strayReturns = m.system.strayReturns := by
  obtain ⟨b, member, rfl⟩ := sound.loan_mem loaned
  exact sound.below.resize_strays member resized

theorem Sound.allocate_strays (sound : m.Sound lost loans) (caller : Caller)
    (named : Option PoolId) (request : Request) :
    (m.allocate caller named request).machine.system.strayReturns = m.system.strayReturns := by
  obtain ⟨threads, same⟩ := target_machine m caller named
  have targeted := sound.withThreads threads
  unfold Machine.allocate
  simp only [same]
  exact (targeted.serve_lends _ request).strays

theorem Sound.resizeIn_strays (sound : m.Sound lost loans) {addr : Address}
    (owned : m.owner? addr = some id) (size : Nat) :
    (m.resizeIn id addr size).machine.system.strayReturns = m.system.strayReturns := by
  have resizing := sound.resizeIn_resizing owned size
  generalize m.resizeIn id addr size = o at resizing
  cases resizing with
  | refused found _ resized _ _ _ _ => exact (sound.heap found).resize_strays resized
  | resized _ found _ _ resized _ _ _ => exact (sound.heap found).resize_strays resized

/-- A pool that is destroyed returns each of its segments and regions once. -/
theorem destroy_strays {rest : List SystemBlock} (heap : p.heap.Sound m.system rest [])
    (caller : Caller) :
    (m.destroy caller p).system.strayReturns = m.system.strayReturns := by
  obtain ⟨threads, same⟩ := destroy_eq m caller p
  rw [same]
  exact heap.releaseAll_strays

theorem Sound.releaseIn_strays (sound : m.Sound lost loans) (caller : Caller) (id : PoolId)
    (addr : Address) :
    (m.releaseIn caller id addr).machine.system.strayReturns = m.system.strayReturns := by
  unfold Machine.releaseIn
  cases found : m.pool? id with
  | none => rfl
  | some p =>
    obtain ⟨step, released, frees⟩ := (sound.heap found).release addr
    have strays := (sound.heap found).release_strays released
    simp only [released]
    split
    · exact strays
    · split
      · have ends := destroy_strays (m := m.putHeap id step.heap step.system)
          (p := { p with heap := step.heap }) frees.sound caller
        exact ends.trans strays
      · exact strays

theorem Sound.retire_strays (sound : m.Sound lost loans) (caller : Caller) (id : PoolId) :
    (m.retire caller id).2.system.strayReturns = m.system.strayReturns := by
  unfold Machine.retire
  cases found : m.pool? id with
  | none => rfl
  | some p =>
    simp only
    split
    · rfl
    · split
      · obtain ⟨threads, cleared⟩ :=
          clearCurrent_eq (m.setPhase id .deletePending) caller.thread id
        rw [cleared]
        rfl
      · exact destroy_strays (sound.heap found) caller

theorem Sound.dropPool_strays (sound : m.Sound lost loans) (caller : Caller) (id : PoolId) :
    (m.dropPool caller id).machine.system.strayReturns = m.system.strayReturns := by
  have retired := sound.retire_strays caller id
  unfold Machine.dropPool
  simp only
  split
  · split <;> exact retired
  · exact retired

theorem Sound.exitThread_strays (sound : m.Sound lost loans) (thread : ThreadId) :
    (m.exitThread thread).system.strayReturns = m.system.strayReturns := by
  have retireAll : ∀ (owned : List Pool) (m : Machine) (lost : List (Address × PoolId)),
      m.Sound lost loans →
      (owned.foldl (fun m p => (m.retire { thread, nested := true } p.id).2) m).system.strayReturns
        = m.system.strayReturns := by
    intro owned
    induction owned with
    | nil => exact fun m lost sound => rfl
    | cons p rest ih =>
      intro m lost sound
      obtain ⟨middle, _, retired⟩ := sound.retire { thread, nested := true } p.id
      exact (ih _ middle retired).trans (sound.retire_strays { thread, nested := true } p.id)
  unfold Machine.exitThread
  simp only
  split
  · rfl
  · exact retireAll _ _ lost (sound.note _)

theorem Sound.trimPool_strays (sound : m.Sound lost loans) (id : PoolId) :
    (m.trimPool id).machine.system.strayReturns = m.system.strayReturns := by
  unfold Machine.trimPool
  cases found : m.pool? id with
  | none => rfl
  | some p =>
    simp only
    cases trimmed : p.heap.trim m.system with
    | error fault => rfl
    | ok step =>
      have strays := (sound.heap found).trim_strays trimmed
      simp only
      split <;> exact strays

/-- Only what the system heap has handed out goes back to it. -/
theorem Sound.release_strays (sound : m.Sound lost loans) (caller : Caller)
    {expected : Option PoolId} {addr : Address} (handed : m.Handed loans addr)
    (named : ∀ id, m.owner? addr = some id → expected.all (· == id) = true) :
    (m.release caller expected addr).machine.system.strayReturns = m.system.strayReturns := by
  rcases handed with ⟨id, owned⟩ | loaned
  · rw [sound.release_recorded caller owned (named id owned)]
    exact (sound.untag owned).releaseIn_strays caller id addr
  · rw [sound.release_loaned caller expected loaned]
    exact sound.releaseToSystem_strays loaned

theorem Sound.moveStaged_strays (sound : m.Sound lost loans) (caller : Caller)
    {source moved : Address} {size : Nat} (target : m.Handed loans moved)
    (loaned : source ∈ loans.map (·.addr)) :
    (m.moveStaged caller source moved size).machine.system.strayReturns =
      m.system.strayReturns := by
  unfold Machine.moveStaged
  cases staged : m.system.reallocate? source size with
  | none => exact sound.release_strays caller target fun _ _ => rfl
  | some found =>
    obtain ⟨place, system⟩ := found
    have exchange := sound.exchangeLoan_strays loaned staged
    obtain ⟨b, others, rfl, split⟩ := sound.split_loans loaned
    obtain ⟨new, rfl, exchanged⟩ := split.exchangeLoan staged
    have copied := exchanged.withBytes (system.bytes.copy new.addr moved size)
    exact (copied.releaseToSystem_strays (List.mem_cons_self ..)).trans exchange

theorem Sound.moveContent_strays (sound : m.Sound lost loans) (caller : Caller)
    {source moved : Address} {owner : Option PoolId} {known : Option Nat} {size : Nat}
    (target : m.Handed loans moved) (owned : m.owner? source = owner)
    (given : m.Handed loans source) :
    (m.moveContent caller source owner known moved size).machine.system.strayReturns =
      m.system.strayReturns := by
  cases owner with
  | some id =>
    have copied := sound.withBytes
      (m.system.bytes.copy source moved (min ((m.blockSize? id source).getD 0) size))
    exact (copied.untag owned).releaseIn_strays caller id source
  | none =>
    have loaned := given.loaned owned
    unfold Machine.moveContent
    simp only
    split
    · exact (sound.withBytes _).releaseToSystem_strays loaned
    · exact sound.moveStaged_strays caller target loaned

theorem Sound.elsewhere_strays (sound : m.Sound lost loans) (caller : Caller) {addr : Address}
    {owner : Option PoolId} {known : Option Nat} {target : Target} {request : Request}
    {next : Except Failure Address → Machine → Outcome (Option Address)}
    (refused : ∀ failure after, next (.error failure) after = .ok none after)
    (served : ∀ moved after, next (.ok moved) after =
      after.moveContent caller addr owner known moved request.size)
    (owned : m.owner? addr = owner) (given : m.Handed loans addr) :
    ((m.serve target request).bind next).machine.system.strayReturns = m.system.strayReturns := by
  have strays := (sound.serve_lends target request).strays
  have handed : ∀ addr, (m.serve target request).answer = .ok (.ok addr) → _ :=
    fun addr => (sound.serve target request).handed sound
  generalize m.serve target request = o at strays handed
  obtain ⟨answer, after⟩ := o
  cases answer with
  | error fault => exact strays
  | ok answer =>
    cases answer with
    | error failure =>
      show (next (.error failure) after).machine.system.strayReturns = _
      rw [refused]
      exact strays
    | ok moved =>
      obtain ⟨loans', soundAfter, target, more, keeps⟩ := handed moved rfl
      have still : after.owner? addr = owner ∧ after.Handed loans' addr := by
        rcases given with ⟨id, here⟩ | loaned
        · have there := keeps id addr here
          exact ⟨there.trans (here.symm.trans owned), .inl ⟨id, there⟩⟩
        · have there : addr ∈ loans'.map (·.addr) := List.map_subset _ more loaned
          have unowned := soundAfter.unowned_of_loan there
          exact ⟨unowned.trans ((sound.unowned_of_loan loaned).symm.trans owned), .inr there⟩
      show (next (.ok moved) after).machine.system.strayReturns = _
      rw [served]
      exact (soundAfter.moveContent_strays caller target still.1 still.2).trans strays

theorem Sound.relocate_strays (sound : m.Sound lost loans) (caller : Caller) (target : Target)
    {addr : Address} {known : Option Nat} {request : Request} (given : m.Handed loans addr) :
    (m.relocate caller target addr known request).machine.system.strayReturns =
      m.system.strayReturns := by
  have ways := m.relocate_ways caller target addr known request
  generalize m.relocate caller target addr known request = o at ways
  cases ways with
  | stays _ => rfl
  | resized owned _ => exact sound.resizeIn_strays owned request.size
  | exchanged free _ moved =>
    have loaned := given.loaned free
    exact sound.exchangeLoan_strays loaned moved
  | elsewhere _ refused served => exact sound.elsewhere_strays caller refused served rfl given

theorem Sound.box_strays (sound : m.Sound lost loans) (caller : Caller) (named : Option PoolId)
    (value : Value) :
    (m.box caller named value).machine.system.strayReturns = m.system.strayReturns := by
  obtain ⟨bytes, dropped, same⟩ := m.box_machine caller named value
  rw [same]
  exact sound.allocate_strays caller named _

theorem Sound.boxOrAbort_strays (sound : m.Sound lost loans) (caller : Caller)
    (named : Option PoolId) (value : Value) :
    (m.boxOrAbort caller named value).machine.system.strayReturns = m.system.strayReturns := by
  rw [boxOrAbort_machine]
  exact sound.box_strays caller named value

theorem Sound.directed_strays (sound : m.Sound lost loans) {addr : Address}
    {o : Outcome (Option Address)} (directed : m.Directed addr o) (given : m.Handed loans addr) :
    o.machine.system.strayReturns = m.system.strayReturns := by
  cases directed with
  | marked _ => rfl
  | relocated caller target known request _ =>
    exact (sound.withThreads _).relocate_strays caller target given

theorem Sound.releaseBlock_strays (sound : m.Sound lost loans) (caller : Caller) (id : PoolId)
    (addr : Address) :
    (m.releaseBlock caller id addr).machine.system.strayReturns = m.system.strayReturns := by
  unfold Machine.releaseBlock
  cases owned : m.owner? addr with
  | some owner =>
    simp only
    split
    · exact (sound.untag owned).releaseIn_strays caller id addr
    · rfl
  | none => exact sound.releaseIn_strays caller id addr

/-- Whatever a program does, what goes back to the system heap was handed out by it. -/
theorem Sound.run_strays (sound : m.Sound [] loans) {c : Call} (proper : c.Proper m)
    (own : ∀ system, c ≠ .adjust system) :
    (c.run m).machine.system.strayReturns = m.system.strayReturns := by
  have given : ∀ addr, c.routed? = some addr → m.Handed loans addr ∧
      ∀ owner, m.owner? addr = some owner → c.expected?.all (· == owner) = true :=
    fun _ routed => sound.handed_of_routed (sound.routed_of_proper proper routed)
  cases c with
  | openPool caller settings =>
    simp only [Call.run, Outcome.ok, Machine.openPool]
    split <;> rfl
  | dropPool caller id => exact sound.dropPool_strays caller id
  | trimPool id => exact sound.trimPool_strays id
  | exitThread thread => exact sound.exitThread_strays thread
  | select caller id => cases id <;> rfl
  | allocate caller named request => exact sound.allocate_strays caller named request
  | allocateLayout caller size align zeroed =>
    exact sound.allocate_strays caller none ⟨size, align, zeroed, none⟩
  | foreign request => exact (sound.serve_lends .systemHeap request).strays
  | resizeBlock id addr size =>
    simp only [Call.run, Machine.resizeBlock]
    split
    · rename_i owned
      exact sound.resizeIn_strays owned size
    · rfl
  | releaseBlock caller id addr => exact sound.releaseBlock_strays caller id addr
  | reallocate caller named addr size =>
    exact sound.directed_strays (m.reallocate_directed caller named addr size) (given addr rfl).1
  | reallocateLayout caller addr old align size =>
    exact sound.directed_strays (m.reallocateLayout_directed caller addr old align size)
      (given addr rfl).1
  | free caller expected addr =>
    obtain ⟨handed, named⟩ := given addr rfl
    simp only [Call.run, Machine.free]
    split
    · rfl
    · exact sound.release_strays caller handed named
  | freeLayout caller addr =>
    obtain ⟨handed, named⟩ := given addr rfl
    simp only [Call.run, Machine.freeLayout]
    split
    · rfl
    · exact sound.release_strays caller handed named
  | box caller named value => exact sound.box_strays caller named value
  | boxOrAbort caller named value => exact sound.boxOrAbort_strays caller named value
  | dropBox caller box =>
    obtain ⟨handed, named⟩ := given box.addr rfl
    exact (sound.dropValue (m.readBox box)).release_strays caller handed named
  | unbox caller box =>
    obtain ⟨handed, named⟩ := given box.addr rfl
    exact sound.release_strays caller handed named
  | reportLeaks =>
    obtain ⟨events, same⟩ := reportLeaks_machine m
    simp only [Call.run, Outcome.ok, same]
  | adjust system => exact absurd rfl (own system)
  | restore | mark | unmark | write | assignBox | dropValue => rfl

end Machine

end PooledMemory
