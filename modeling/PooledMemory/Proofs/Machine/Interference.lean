import PooledMemory.Proofs.Machine.Steady

namespace PooledMemory

namespace Machine

/-- A pool with all that it holds, what is recorded about its blocks and its place on the list are as
before. -/
structure Spares (m after : Machine) (id : PoolId) : Prop where
  pool : after.pool? id = m.pool? id
  tags : ∀ addr tag, tag.pool = id →
    ((addr, tag) ∈ after.tags.toList ↔ (addr, tag) ∈ m.tags.toList)
  listed : after.roster.count id = m.roster.count id

/-- All pools but some are spared, and the marks are as before. -/
structure Confined (may : PoolId → Prop) (m after : Machine) : Prop where
  spared : ∀ id, ¬ may id → m.Spares after id
  marks : after.marks = m.marks

variable {m middle after : Machine} {lost : List (Address × PoolId)} {loans : List SystemBlock}
  {id : PoolId} {p : Pool} {may may' : PoolId → Prop}

theorem Spares.trans (first : m.Spares middle id) (second : middle.Spares after id) :
    m.Spares after id where
  pool := second.pool.trans first.pool
  tags := fun addr tag own => (second.tags addr tag own).trans (first.tags addr tag own)
  listed := second.listed.trans first.listed

theorem Confined.trans (first : Confined may m middle) (second : Confined may middle after) :
    Confined may m after :=
  ⟨fun id other => (first.spared id other).trans (second.spared id other),
    second.marks.trans first.marks⟩

theorem Confined.mono (confined : Confined may m after) (allows : ∀ id, may id → may' id) :
    Confined may' m after :=
  ⟨fun id other => confined.spared id fun may => other (allows id may), confined.marks⟩

/-- Memory, registers, events and dropped values belong to no pool. -/
theorem Confined.aside (pools : after.pools = m.pools) (roster : after.roster = m.roster)
    (tags : after.tags = m.tags) (marks : after.marks = m.marks) : Confined may m after where
  spared := fun id _ =>
    ⟨by rw [pool?, pool?, pools], fun _ _ _ => by rw [tags], by rw [roster]⟩
  marks := marks

theorem Confined.refl (m : Machine) : Confined may m m := .aside rfl rfl rfl rfl

/-- One pool is given another state, which touches no other. -/
theorem pool?_updatePool_of_ne {f : Pool → Pool} {other : PoolId} (keeps : ∀ p, (f p).id = p.id)
    (different : other ≠ id) : (m.updatePool id f).pool? other = m.pool? other := by
  rw [pool?_updatePool keeps]
  cases found : m.pool? other with
  | none => rfl
  | some q => rw [Option.map_some, if_neg (pool?_id found ▸ different)]

theorem updatePool_confined {f : Pool → Pool} (keeps : ∀ p, (f p).id = p.id) :
    Confined (· = id) m (m.updatePool id f) :=
  ⟨fun _ other => ⟨pool?_updatePool_of_ne keeps other, fun _ _ _ => .rfl, rfl⟩, rfl⟩

theorem putHeap_confined (m : Machine) (id : PoolId) (heap : Heap) (system : SystemHeap) :
    Confined (· = id) m (m.putHeap id heap system) := by
  have updated : Confined (· = id) m (m.updatePool id ({ · with heap })) :=
    updatePool_confined fun _ => rfl
  exact updated.trans (.aside rfl rfl rfl rfl)

/-- Only records of one pool's blocks come and go. -/
theorem Confined.retagged {tags : TagTable}
    (others : ∀ addr tag, tag.pool ≠ id →
      ((addr, tag) ∈ tags.toList ↔ (addr, tag) ∈ m.tags.toList)) :
    Confined (· = id) m { m with tags } :=
  ⟨fun _ other => ⟨rfl, fun addr tag own => others addr tag (own ▸ other), rfl⟩, rfl⟩

theorem Sound.untag_confined (sound : m.Sound lost loans) {addr : Address}
    (owned : m.owner? addr = some id) : Confined (· = id) m (m.untag addr) := by
  obtain ⟨tag, member, rfl⟩ := sound.tags.owner?_eq_some_iff.1 owned
  obtain ⟨tags, removed, _, perm⟩ := sound.tags.remove member
  have forgotten : m.untag addr = { m with tags } := by
    simp only [Machine.untag, removed]
    rfl
  rw [forgotten]
  refine .retagged fun a t other => ?_
  rw [perm.mem_iff, List.mem_cons, or_iff_right]
  rintro ⟨rfl, rfl⟩
  exact other rfl

theorem count_swapRemove {ids : List PoolId} {other : PoolId} (different : other ≠ id) :
    (swapRemove ids id).count other = ids.count other := by
  by_cases member : id ∈ ids
  · rw [(swapRemove_perm member).count_eq, List.count_cons_of_ne (Ne.symm different)]
  · have missing : ids.idxOf? id = none := List.idxOf?_eq_none_iff.2 member
    rw [swapRemove, missing]

/-- A pool that is destroyed is taken off the list, and its blocks are forgotten. -/
theorem destroy_confined (tags : m.tags.Sound) (caller : Caller)
    (own : ∀ b ∈ p.heap.live, ∀ tag, (b.addr, tag) ∈ m.tags.toList → tag.pool = p.id) :
    Confined (· = p.id) m (m.destroy caller p) := by
  obtain ⟨threads, same⟩ := destroy_eq m caller p
  obtain ⟨_, perm⟩ := tags.removeAll (p.heap.live.map (·.addr))
  have emptied : Confined (· = p.id) m
      (m.updatePool p.id (Pool.emptied (p.heap.releaseAll m.system).1)) :=
    updatePool_confined fun _ => rfl
  have forgotten : Confined (· = p.id)
      (m.updatePool p.id (Pool.emptied (p.heap.releaseAll m.system).1))
      { m.updatePool p.id (Pool.emptied (p.heap.releaseAll m.system).1) with
        tags := m.tags.removeAll (p.heap.live.map (·.addr)) } := by
    refine .retagged fun addr tag other => ?_
    rw [perm.mem_iff, List.mem_filter]
    refine and_iff_left_of_imp fun member => ?_
    have alive : addr ∉ p.heap.live.map (·.addr) := fun here => by
      obtain ⟨b, live, rfl⟩ := List.mem_map.1 here
      exact other (own b live tag member)
    simpa using alive
  rw [same]
  refine ⟨fun other different => ?_, rfl⟩
  obtain ⟨pool, records, _⟩ := (emptied.trans forgotten).spared other different
  exact ⟨pool, records, count_swapRemove different⟩

theorem Sound.allocateIn_confined (sound : m.Sound lost loans) (id : PoolId) (request : Request) :
    Confined (· = id) m (m.allocateIn id request).machine := by
  have placing := sound.allocateIn_placing id request
  generalize m.allocateIn id request = o at placing
  cases placing with
  | unavailable => exact .refl m
  | refused _ _ _ _ _ _ => exact putHeap_confined ..
  | placed tags bytes events _ _ _ _ _ perm _ _ =>
    refine (putHeap_confined m id _ _).trans (Confined.trans (.retagged ?_)
      (.aside rfl rfl rfl rfl))
    intro addr tag other
    change (addr, tag) ∈ tags.toList ↔ (addr, tag) ∈ m.tags.toList
    rw [perm.mem_iff, List.mem_cons]
    refine or_iff_right fun same => other ?_
    cases same
    rfl

/-- A tag that follows its block is one of the pool that issued the block. -/
theorem Sound.moved_retagged (sound : m.Sound lost loans) {source target : Address} {tags : TagTable}
    (owned : m.owner? source = some id) (moved : m.tags.move source target = .ok tags) :
    Confined (· = id) m { m with tags } := by
  obtain ⟨tag, member, rfl⟩ := sound.tags.owner?_eq_some_iff.1 owned
  obtain ⟨rest, removed, restSound, perm⟩ := sound.tags.remove member
  have fresh : ∀ old, (target, old) ∉ rest.toList := by
    intro old present
    have taken : ((rest.shard target).getD []).lookup target = some old :=
      restSound.lookup_eq_some_iff.2 present
    simp only [TagTable.move, removed, TagTable.insert, taken] at moved
    cases moved
  obtain ⟨last, inserted, _, perm'⟩ := restSound.insert tag fresh
  simp only [TagTable.move, removed, inserted] at moved
  cases moved
  refine .retagged fun addr t other => ?_
  have elsewhere : ∀ a, (addr, t) ≠ (a, tag) := by
    rintro a ⟨⟩
    exact other rfl
  rw [perm'.mem_iff, perm.mem_iff, List.mem_cons, List.mem_cons, or_iff_right (elsewhere _),
    or_iff_right (elsewhere _)]

theorem Sound.resizeIn_confined (sound : m.Sound lost loans) {addr : Address}
    (owned : m.owner? addr = some id) (size : Nat) :
    Confined (· = id) m (m.resizeIn id addr size).machine := by
  obtain ⟨_, served, _⟩ := sound.resizeIn owned size
  unfold Machine.resizeIn at served ⊢
  cases found : m.pool? id with
  | none => exact .refl m
  | some p =>
    simp only [found] at served ⊢
    cases resized : p.heap.resize m.system addr size with
    | error fault => exact .refl m
    | ok step =>
      have put := putHeap_confined m id step.heap step.system
      simp only [resized] at served ⊢
      cases answer : step.answer with
      | none => exact put
      | some r =>
        simp only [answer] at served ⊢
        by_cases moved : r.moved = true
        · rw [if_pos moved] at served ⊢
          cases followed : (m.putHeap id step.heap step.system).tags.move addr r.addr with
          | error twice =>
            rw [followed] at served
            cases served
          | ok tags => exact (sound.moved_retagged owned followed).trans (putHeap_confined _ id _ _)
        · rw [if_neg moved]
          exact put

theorem releaseIn_confined (tags : m.tags.Sound) (caller : Caller) (id : PoolId) (addr : Address) :
    Confined (· = id) m (m.releaseIn caller id addr).machine := by
  unfold Machine.releaseIn
  cases found : m.pool? id with
  | none => exact .refl m
  | some p =>
    obtain ⟨_, rfl⟩ := pool?_mem found
    simp only
    cases released : p.heap.release m.system addr with
    | error fault => exact .refl m
    | ok step =>
      have put := putHeap_confined m p.id step.heap step.system
      simp only
      split
      · exact put
      · split
        · rename_i last
          have nothing : step.heap.live = [] := List.isEmpty_iff.1 last.2
          have ends : Confined (· = p.id) (m.putHeap p.id step.heap step.system)
              ((m.putHeap p.id step.heap step.system).destroy caller { p with heap := step.heap }) :=
            destroy_confined (m := m.putHeap p.id step.heap step.system)
              (p := { p with heap := step.heap }) tags caller (by simp [nothing])
          exact put.trans ends
        · exact put

theorem Sound.retire_confined (sound : m.Sound lost loans) (caller : Caller) (id : PoolId) :
    Confined (· = id) m (m.retire caller id).2 := by
  unfold Machine.retire
  cases found : m.pool? id with
  | none => exact .refl m
  | some p =>
    obtain ⟨inPools, rfl⟩ := pool?_mem found
    simp only
    split
    · exact .refl m
    · split
      · obtain ⟨threads, cleared⟩ :=
          clearCurrent_eq (m.setPhase p.id .deletePending) caller.thread p.id
        have pending : Confined (· = p.id) m (m.setPhase p.id .deletePending) :=
          updatePool_confined fun _ => rfl
        rw [cleared]
        exact pending.trans (.aside rfl rfl rfl rfl)
      · refine destroy_confined sound.tags caller fun b live tag member => ?_
        exact (sound.owner_unique ⟨p, inPools, rfl, b, live, rfl⟩
          (sound.tags.owner?_eq_some_iff.2 ⟨tag, member, rfl⟩)).symm

theorem Sound.dropPool_confined (sound : m.Sound lost loans) (caller : Caller) (id : PoolId) :
    Confined (· = id) m (m.dropPool caller id).machine := by
  have letGo : Confined (· = id) m
      ((m.retire caller id).2.updatePool id ({ · with held := false })) :=
    (sound.retire_confined caller id).trans (updatePool_confined fun _ => rfl)
  unfold Machine.dropPool
  simp only
  split
  · split <;> exact letGo
  · exact letGo

/-- A thread takes along the live pools that belong to it. -/
theorem Sound.exitThread_confined (sound : m.Sound lost loans) (thread : ThreadId) :
    Confined (fun id => ∃ p ∈ m.pools, p.id = id ∧ p.owner = some thread ∧ p.phase = .live) m
      (m.exitThread thread) := by
  have retireAll : ∀ (owned : List Pool) (m : Machine) (lost : List (Address × PoolId)),
      m.Sound lost loans → Confined (fun id => ∃ p ∈ owned, p.id = id) m
        (owned.foldl (fun m p => (m.retire { thread, nested := true } p.id).2) m) := by
    intro owned
    induction owned with
    | nil => exact fun m lost sound => .refl m
    | cons p rest ih =>
      intro m lost sound
      obtain ⟨middle, _, retired⟩ := sound.retire { thread, nested := true } p.id
      refine Confined.trans ((sound.retire_confined { thread, nested := true } p.id).mono ?_)
        ((ih _ middle retired).mono ?_)
      · rintro _ rfl
        exact ⟨p, List.mem_cons_self .., rfl⟩
      · rintro _ ⟨q, member, rfl⟩
        exact ⟨q, List.mem_cons_of_mem _ member, rfl⟩
  let owned := m.listedPools.filter fun p => p.owner == some thread && p.phase == .live
  have belongs : ∀ p ∈ owned, p ∈ m.pools ∧ p.owner = some thread ∧ p.phase = .live := by
    intro p member
    obtain ⟨listed, own⟩ := List.mem_filter.1 member
    obtain ⟨id, _, found⟩ := List.mem_filterMap.1 listed
    simp only [Bool.and_eq_true, beq_iff_eq] at own
    exact ⟨(pool?_mem found).1, own⟩
  unfold Machine.exitThread
  simp only
  split
  · exact .aside rfl rfl rfl rfl
  · have noted := sound.note (.threadReaped thread owned.length)
    obtain ⟨spared, marks⟩ := retireAll owned _ lost noted
    refine ⟨fun id other => ?_, marks⟩
    have notOwned : ¬ ∃ p ∈ owned, p.id = id := by
      rintro ⟨p, member, rfl⟩
      obtain ⟨inPools, own⟩ := belongs p member
      exact other ⟨p, inPools, rfl, own⟩
    obtain ⟨pool, tags, listed⟩ := spared id notOwned
    exact ⟨pool, tags, listed⟩

theorem trimPool_confined (m : Machine) (id : PoolId) :
    Confined (· = id) m (m.trimPool id).machine := by
  unfold Machine.trimPool
  cases m.pool? id with
  | none => exact .refl m
  | some p =>
    simp only
    cases p.heap.trim m.system with
    | error fault => exact .refl m
    | ok step =>
      have put := putHeap_confined m id step.heap step.system
      simp only [Outcome.ok]
      split
      · exact put.trans (.aside rfl rfl rfl rfl)
      · exact put

/-- A pool that is opened comes behind all others. -/
theorem openPool_confined (m : Machine) (caller : Caller) (settings : PoolSettings) :
    Confined (· = m.nextId) m (m.openPool caller settings).2 := by
  have opened : ∀ {p : Pool} {after : Machine}, after.pools = m.pools ++ [p] → p.id = m.nextId →
      after.roster = m.roster ++ [m.nextId] → after.tags = m.tags → after.marks = m.marks →
      Confined (· = m.nextId) m after := by
    intro p after pools number roster tags marks
    refine ⟨fun id other => ⟨?_, fun _ _ _ => by rw [tags], ?_⟩, marks⟩
    · have notNew : (p.id == id) = false := by simpa [number] using Ne.symm other
      simp [pool?, pools, List.find?_append, notNew]
    · rw [roster, List.count_append, List.count_singleton, if_neg (by simpa using Ne.symm other),
        Nat.add_zero]
  unfold Machine.openPool
  simp only
  split
  · exact opened rfl rfl rfl rfl rfl
  · exact opened rfl rfl rfl rfl rfl

theorem Sound.serve_confined (sound : m.Sound lost loans) (target : Target) (request : Request) :
    Confined (fun id => target = .pool id) m (m.serve target request).machine := by
  cases target with
  | pool id => exact (sound.allocateIn_confined id request).mono fun _ same => by rw [same]
  | unavailable id => exact .refl m
  | systemHeap =>
    simp only [Machine.serve]
    split <;> exact .aside rfl rfl rfl rfl

theorem target_confined (m : Machine) (caller : Caller) (named : Option PoolId) :
    Confined may m (m.target caller named).2 := by
  obtain ⟨threads, same⟩ := target_machine m caller named
  rw [same]
  exact .aside rfl rfl rfl rfl

theorem Sound.allocate_confined (sound : m.Sound lost loans) (caller : Caller)
    (named : Option PoolId) (request : Request) :
    Confined (fun id => (m.target caller named).1 = .pool id) m
      (m.allocate caller named request).machine :=
  (target_confined m caller named).trans
    ((sound.target caller named).1.serve_confined (m.target caller named).1 request)

/-- A released block concerns its owner, or no pool at all. -/
theorem Sound.release_confined (sound : m.Sound lost loans) (caller : Caller)
    {expected : Option PoolId} {addr : Address} (handed : m.Handed loans addr)
    (named : ∀ id, m.owner? addr = some id → expected.all (· == id) = true) :
    Confined (fun id => m.owner? addr = some id) m (m.release caller expected addr).machine := by
  rcases handed with ⟨id, owned⟩ | loaned
  · rw [sound.release_recorded caller owned (named id owned)]
    refine Confined.mono ((sound.untag_confined owned).trans
      (releaseIn_confined (sound.untag owned).tags caller id addr)) ?_
    rintro _ rfl
    exact owned
  · rw [sound.release_loaned caller expected loaned]
    exact .aside rfl rfl rfl rfl

theorem Sound.moveStaged_confined (sound : m.Sound lost loans) (caller : Caller)
    {source moved : Address} {size : Nat} (target : m.Handed loans moved) :
    Confined (fun id => m.owner? moved = some id) m
      (m.moveStaged caller source moved size).machine := by
  unfold Machine.moveStaged
  cases m.system.reallocate? source size with
  | none => exact sound.release_confined caller target fun _ _ => rfl
  | some found => exact .aside rfl rfl rfl rfl

theorem Sound.moveContent_confined (sound : m.Sound lost loans) (caller : Caller)
    {source moved : Address} {owner : Option PoolId} {known : Option Nat} {size : Nat}
    (target : m.Handed loans moved) (owned : m.owner? source = owner) :
    Confined (fun id => owner = some id ∨ m.owner? moved = some id) m
      (m.moveContent caller source owner known moved size).machine := by
  cases owner with
  | some id =>
    have copied := sound.withBytes
      (m.system.bytes.copy source moved (min ((m.blockSize? id source).getD 0) size))
    have released := (copied.untag_confined owned).trans
      (releaseIn_confined (copied.untag owned).tags caller id source)
    obtain ⟨spared, marks⟩ := released
    refine ⟨fun other different => ?_, marks⟩
    obtain ⟨pool, tags, listed⟩ := spared other fun same => different (.inl (congrArg some same.symm))
    exact ⟨pool, tags, listed⟩
  | none =>
    unfold Machine.moveContent
    simp only
    split
    · exact .aside rfl rfl rfl rfl
    · exact (sound.moveStaged_confined caller target).mono fun _ => .inr

/-- The owner of a block that has just been served is the pool that the request went to. -/
theorem Sound.owner?_of_served {target : Target} {request : Request} {moved : Address}
    {loans' : List SystemBlock} (sound : m.Sound lost loans)
    (sound' : (m.serve target request).machine.Sound [] loans')
    (answer : (m.serve target request).answer = .ok (.ok moved))
    (owned : (m.serve target request).machine.owner? moved = some id) : target = .pool id := by
  have supplied := sound.serve_supplied target request
  have notRefused : ∀ other, target ≠ .unavailable other := by
    rintro other rfl
    cases answer
  generalize m.serve target request = o at sound' answer owned supplied
  cases supplied with
  | refused _ => cases answer
  | @supplied b after change owner _ =>
    cases answer
    have used : after.InUse b := (change.inUse b).2 (.inl (List.mem_singleton_self b))
    have same := (sound'.owner?_of_inUse used).symm.trans owned
    rw [owner] at same
    cases target with
    | pool other => exact congrArg Target.pool (Option.some.inj same)
    | unavailable other => exact absurd rfl (notRefused other)
    | systemHeap => cases same

theorem Sound.elsewhere_confined (sound : m.Sound [] loans) (caller : Caller) {addr : Address}
    {owner : Option PoolId} {known : Option Nat} {target : Target} {request : Request}
    {next : Except Failure Address → Machine → Outcome (Option Address)}
    (refused : ∀ failure after, next (.error failure) after = .ok none after)
    (served : ∀ moved after, next (.ok moved) after =
      after.moveContent caller addr owner known moved request.size)
    (owned : m.owner? addr = owner) (given : m.Handed loans addr) :
    Confined (fun id => owner = some id ∨ target = .pool id) m
      ((m.serve target request).bind next).machine := by
  have confined : Confined (fun id => owner = some id ∨ target = .pool id) m
      (m.serve target request).machine := (sound.serve_confined target request).mono fun _ => .inr
  have handed : ∀ addr, (m.serve target request).answer = .ok (.ok addr) → _ :=
    fun addr => (sound.serve target request).handed sound
  have place : ∀ {loans' moved id}, (m.serve target request).machine.Sound [] loans' →
      (m.serve target request).answer = .ok (.ok moved) →
      (m.serve target request).machine.owner? moved = some id → target = .pool id :=
    fun sound' => sound.owner?_of_served sound'
  generalize m.serve target request = o at confined handed place
  obtain ⟨answer, after⟩ := o
  cases answer with
  | error fault => exact confined
  | ok answer =>
    cases answer with
    | error failure =>
      show Confined _ m (next (.error failure) after).machine
      rw [refused]
      exact confined
    | ok moved =>
      obtain ⟨loans', soundAfter, target', more, keeps⟩ := handed moved rfl
      have still : after.owner? addr = owner := by
        rcases given with ⟨id, here⟩ | loaned
        · exact (keeps id addr here).trans (here.symm.trans owned)
        · have there : addr ∈ loans'.map (·.addr) := List.map_subset _ more loaned
          exact (soundAfter.unowned_of_loan there).trans
            ((sound.unowned_of_loan loaned).symm.trans owned)
      show Confined _ m (next (.ok moved) after).machine
      rw [served]
      refine confined.trans ((soundAfter.moveContent_confined caller target' still).mono ?_)
      exact fun id => Or.imp_right fun here => place soundAfter rfl here

/-- A block that is resized or moved concerns its owner and the pool that it moves to. -/
theorem Sound.relocate_confined (sound : m.Sound [] loans) (caller : Caller) (target : Target)
    {addr : Address} {known : Option Nat} {request : Request} (given : m.Handed loans addr) :
    Confined (fun id => m.owner? addr = some id ∨ target = .pool id) m
      (m.relocate caller target addr known request).machine := by
  have ways := m.relocate_ways caller target addr known request
  generalize m.relocate caller target addr known request = o at ways
  cases ways with
  | stays _ => exact .refl m
  | resized owned _ =>
    refine (sound.resizeIn_confined owned request.size).mono ?_
    rintro _ rfl
    exact .inl owned
  | exchanged _ _ _ => exact .aside rfl rfl rfl rfl
  | elsewhere _ refused served => exact sound.elsewhere_confined caller refused served rfl given

theorem Sound.reallocate_confined (sound : m.Sound [] loans) (caller : Caller)
    (named : Option PoolId) {addr : Address} (size : Nat) (given : m.Handed loans addr) :
    Confined (fun id => m.owner? addr = some id ∨ (m.target caller named).1 = .pool id) m
      (m.reallocate caller named addr size).machine := by
  obtain ⟨threads, same⟩ := target_machine m caller named
  have looked : Confined (fun id => m.owner? addr = some id ∨ (m.target caller named).1 = .pool id)
      m { m with threads } := .aside rfl rfl rfl rfl
  unfold Machine.reallocate
  simp only [same]
  split
  · exact looked
  · exact looked.trans ((sound.withThreads threads).relocate_confined caller _ given)

theorem Sound.reallocateLayout_confined (sound : m.Sound [] loans) (caller : Caller)
    {addr : Address} (old align size : Nat) (given : m.Handed loans addr) :
    Confined (fun id => m.owner? addr = some id ∨ (m.target caller none).1 = .pool id) m
      (m.reallocateLayout caller addr old align size).machine := by
  obtain ⟨threads, same⟩ := target_machine m caller none
  have looked : Confined (fun id => m.owner? addr = some id ∨ (m.target caller none).1 = .pool id)
      m { m with threads } := .aside rfl rfl rfl rfl
  unfold Machine.reallocateLayout
  simp only [same]
  split
  · exact .refl m
  · exact looked.trans ((sound.withThreads threads).relocate_confined caller _ given)

theorem Sound.box_confined (sound : m.Sound lost loans) (caller : Caller) (named : Option PoolId)
    (value : Value) :
    Confined (fun id => (m.target caller named).1 = .pool id) m
      (m.box caller named value).machine := by
  obtain ⟨bytes, dropped, same⟩ := m.box_machine caller named value
  rw [same]
  exact (sound.allocate_confined caller named _).trans (.aside rfl rfl rfl rfl)

theorem Sound.boxOrAbort_confined (sound : m.Sound lost loans) (caller : Caller)
    (named : Option PoolId) (value : Value) :
    Confined (fun id => (m.target caller named).1 = .pool id) m
      (m.boxOrAbort caller named value).machine := by
  rw [boxOrAbort_machine]
  exact sound.box_confined caller named value

/-- A pool that is given its own heap is as it was. -/
theorem Sound.putHeap_self (sound : m.Sound lost loans) (found : m.pool? id = some p) :
    m.putHeap id p.heap m.system = m := by
  have same : m.updatePool id ({ · with heap := p.heap }) = m.updatePool id (·) :=
    (sound.updatePool_eq found _).trans (sound.updatePool_eq found fun q => q).symm
  have still : m.updatePool id (·) = m := by
    simp only [Machine.updatePool, ite_self, List.map_id']
  simp only [Machine.putHeap, same, still]

/-- A pool that is to release what it does not have stays as it is. Only a destroyed one takes the
release for a late one. -/
theorem Sound.releaseIn_of_missing {addr : Address} (sound : m.Sound lost loans) (caller : Caller)
    (found : m.pool? id = some p) (missing : p.heap.block? addr = none) :
    m.releaseIn caller id addr =
      if p.phase = .destroyed then .ok () m else .stop (.notLive addr id) m := by
  unfold Machine.releaseIn
  simp only [found, Heap.release_of_none missing, Option.isNone_none, true_and,
    sound.putHeap_self found]
  by_cases ended : p.phase = .destroyed
  · simp [ended]
  · simp [ended]

theorem Sound.releaseIn_missing {addr : Address} (sound : m.Sound lost loans) (caller : Caller)
    (missing : ∀ p, m.pool? id = some p → p.heap.block? addr = none) :
    (m.releaseIn caller id addr).machine = m := by
  cases found : m.pool? id with
  | none => simp only [Machine.releaseIn, found, Outcome.ok]
  | some p =>
    rw [sound.releaseIn_of_missing caller found (missing p found)]
    split
    · rfl
    · rfl

theorem Sound.releaseBlock_confined (sound : m.Sound [] loans) (caller : Caller) (id : PoolId)
    (addr : Address) :
    Confined (fun id => m.owner? addr = some id) m (m.releaseBlock caller id addr).machine := by
  unfold Machine.releaseBlock
  cases owned : m.owner? addr with
  | some owner =>
    simp only
    split
    · rename_i same
      subst same
      refine Confined.mono ((sound.untag_confined owned).trans
        (releaseIn_confined (sound.untag owned).tags caller owner addr)) ?_
      rintro _ rfl
      rfl
    · exact .refl m
  | none =>
    rw [sound.releaseIn_missing caller fun p found => Option.eq_none_iff_forall_not_mem.2
      fun b live => ?_]
    · exact .refl m
    · have isLive := mem_livePairs.1 (sound.mem_livePairs_iff.2 ⟨p, b, found, live⟩)
      cases owned.symm.trans (sound.owner?_of_live isLive)

end Machine

namespace Call

/-- Where a call has memory served. -/
def target? (c : Call) (m : Machine) : Option Target :=
  match c with
  | allocate caller named _ => some (m.target caller named).1
  | allocateLayout caller _ _ _ => some (m.target caller none).1
  | foreign _ => some .systemHeap
  | reallocate caller named _ _ => some (m.target caller named).1
  | reallocateLayout caller _ _ _ _ => some (m.target caller none).1
  | box caller named _ => some (m.target caller named).1
  | boxOrAbort caller named _ => some (m.target caller named).1
  | _ => none

/-- A call is to end a pool or to trim it. -/
def Manages (c : Call) (m : Machine) (id : PoolId) : Prop :=
  match c with
  | dropPool _ other => other = id
  | trimPool other => other = id
  | exitThread thread => ∃ p ∈ m.pools, p.id = id ∧ p.owner = some thread ∧ p.phase = .live
  | _ => False

/-- The pools that a call is about: the owner of the block that it names, the pool that its request
goes to, and those that it ends or trims. -/
def Concerns (c : Call) (m : Machine) (id : PoolId) : Prop :=
  c.block?.bind m.owner? = some id ∨ c.target? m = some (.pool id) ∨ c.Manages m id

end Call

namespace Machine

variable {m : Machine} {loans : List SystemBlock} {id : PoolId} {c : Call}

/-- A call that passes blocks in use is confined to the pools that it is about. -/
theorem Sound.run_confined (sound : m.Sound [] loans) (proper : c.Proper m)
    (unmarks : ∀ addr, c ≠ .mark addr ∧ c ≠ .unmark addr) :
    Confined (fun id => c.Concerns m id ∨ id = m.nextId) m (c.run m).machine := by
  have given : ∀ addr, c.routed? = some addr → m.Handed loans addr ∧
      ∀ owner, m.owner? addr = some owner → c.expected?.all (· == owner) = true :=
    fun _ routed => sound.handed_of_routed (sound.routed_of_proper proper routed)
  cases c with
  | openPool caller settings => exact (openPool_confined m caller settings).mono fun _ => .inr
  | dropPool caller id =>
    exact (sound.dropPool_confined caller id).mono fun _ same => .inl (.inr (.inr same.symm))
  | trimPool id =>
    exact (trimPool_confined m id).mono fun _ same => .inl (.inr (.inr same.symm))
  | exitThread thread =>
    exact (sound.exitThread_confined thread).mono fun _ own => .inl (.inr (.inr own))
  | select caller id => cases id <;> exact .aside rfl rfl rfl rfl
  | allocate caller named request =>
    exact (sound.allocate_confined caller named request).mono fun _ goes =>
      .inl (.inr (.inl (congrArg some goes)))
  | allocateLayout caller size align zeroed =>
    exact (sound.allocate_confined caller none ⟨size, align, zeroed, none⟩).mono fun _ goes =>
      .inl (.inr (.inl (congrArg some goes)))
  | foreign request =>
    exact (sound.serve_confined .systemHeap request).mono fun _ goes => nomatch goes
  | resizeBlock id addr size =>
    simp only [Call.run, Machine.resizeBlock]
    split
    · rename_i owned
      refine (sound.resizeIn_confined owned size).mono ?_
      rintro _ rfl
      exact .inl (.inl owned)
    · exact .refl m
  | releaseBlock caller id addr =>
    exact (sound.releaseBlock_confined caller id addr).mono fun _ owned => .inl (.inl owned)
  | reallocate caller named addr size =>
    exact (sound.reallocate_confined caller named size (given addr rfl).1).mono fun _ either =>
      .inl (either.imp_right fun goes => .inl (congrArg some goes))
  | reallocateLayout caller addr old align size =>
    exact (sound.reallocateLayout_confined caller old align size (given addr rfl).1).mono
      fun _ either => .inl (either.imp_right fun goes => .inl (congrArg some goes))
  | free caller expected addr =>
    obtain ⟨handed, named⟩ := given addr rfl
    simp only [Call.run, Machine.free]
    split
    · exact .refl m
    · exact (sound.release_confined caller handed named).mono fun _ owned => .inl (.inl owned)
  | freeLayout caller addr =>
    obtain ⟨handed, named⟩ := given addr rfl
    simp only [Call.run, Machine.freeLayout]
    split
    · exact .refl m
    · exact (sound.release_confined caller handed named).mono fun _ owned => .inl (.inl owned)
  | box caller named value =>
    exact (sound.box_confined caller named value).mono fun _ goes =>
      .inl (.inr (.inl (congrArg some goes)))
  | boxOrAbort caller named value =>
    exact (sound.boxOrAbort_confined caller named value).mono fun _ goes =>
      .inl (.inr (.inl (congrArg some goes)))
  | dropBox caller box =>
    obtain ⟨handed, named⟩ := given box.addr rfl
    have dropped : Confined (fun id => m.owner? box.addr = some id) m
        (m.dropValue (m.readBox box)) := .aside rfl rfl rfl rfl
    exact (dropped.trans ((sound.dropValue (m.readBox box)).release_confined caller handed
      named)).mono fun _ owned => .inl (.inl owned)
  | unbox caller box =>
    obtain ⟨handed, named⟩ := given box.addr rfl
    exact (sound.release_confined caller handed named).mono fun _ owned => .inl (.inl owned)
  | reportLeaks =>
    obtain ⟨events, same⟩ := reportLeaks_machine m
    simp only [Call.run, Outcome.ok, same]
    exact .aside rfl rfl rfl rfl
  | mark addr => exact absurd rfl (unmarks addr).1
  | unmark addr => exact absurd rfl (unmarks addr).2
  | adjust system => exact .aside rfl rfl rfl rfl
  | restore | write | assignBox | dropValue => exact .aside rfl rfl rfl rfl

/-- In all states that programs reach, a proper call spares every pool that it is not about, and only
marking and unmarking change the marks. -/
theorem Reachable.confined (reached : Reachable m) (proper : c.Proper m) :
    (∀ p ∈ m.pools, ¬ c.Concerns m p.id → m.Spares (c.run m).machine p.id) ∧
      ((∀ addr, c ≠ .mark addr ∧ c ≠ .unmark addr) → (c.run m).machine.marks = m.marks) := by
  obtain ⟨loans, sound⟩ := reached.sound
  refine ⟨fun p inPools other => ?_, fun unmarks => (sound.run_confined proper unmarks).marks⟩
  have old : p.id ≠ m.nextId := Nat.ne_of_lt (sound.numbered p inPools)
  by_cases unmarks : ∀ addr, c ≠ .mark addr ∧ c ≠ .unmark addr
  · exact (sound.run_confined proper unmarks).spared p.id fun either => either.elim other old
  · push Not at unmarks
    obtain ⟨addr, either⟩ := unmarks
    by_cases marks : c = .mark addr
    · subst marks
      exact ⟨rfl, fun _ _ _ => .rfl, rfl⟩
    · rw [either marks]
      exact ⟨rfl, fun _ _ _ => .rfl, rfl⟩

/-- A block moves from one pool to the system heap, and the other pool does not notice. -/
theorem busy_confined :
    let c : Call := .reallocate { thread := 1 } none (SystemHeap.slotBase 3 + 352) 60
    let after := (c.run busy).machine
    (c.Concerns busy 1 ∧ after.pool? 1 ≠ busy.pool? 1 ∧ (busy.pool? 2).isSome = true ∧
      ¬ c.Concerns busy 2) ∧ busy.Spares after 2 ∧ after.marks = busy.marks := by
  have about : ∀ id, (Call.reallocate { thread := 1 } none (SystemHeap.slotBase 3 + 352)
      60).Concerns busy id ↔ id = 1 := by
    have owner : (Call.reallocate { thread := 1 } none (SystemHeap.slotBase 3 + 352) 60).block?.bind
        busy.owner? = some 1 := by decide +kernel
    have target : (Call.reallocate { thread := 1 } none (SystemHeap.slotBase 3 + 352) 60).target?
        busy = some .systemHeap := by decide +kernel
    intro id
    rw [Call.Concerns, owner, target]
    simp [Call.Manages, eq_comm]
  have proper : (Call.reallocate { thread := 1 } none (SystemHeap.slotBase 3 + 352) 60).Proper
      busy := Call.proper_of_isProper (by decide +kernel)
  obtain ⟨p, inPools, number⟩ : ∃ p ∈ busy.pools, p.id = 2 := by decide +kernel
  have other : ¬ (Call.reallocate { thread := 1 } none (SystemHeap.slotBase 3 + 352) 60).Concerns
      busy 2 := by simp [about]
  obtain ⟨spared, marks⟩ := Reachable.confined busy_reachable proper
  refine ⟨⟨(about 1).2 rfl, by decide +kernel, by decide +kernel, other⟩, ?_,
    marks fun _ => ⟨nofun, nofun⟩⟩
  rw [← number] at other ⊢
  exact spared p inPools other

end Machine

end PooledMemory
