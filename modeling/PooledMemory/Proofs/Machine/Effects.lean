import PooledMemory.Proofs.Machine.Change

namespace PooledMemory

/-- A pool without any memory left. -/
def Pool.emptied (heap : Heap) (p : Pool) : Pool := { p with heap, phase := .destroyed }

namespace Machine

variable {m after : Machine} {lost lost' : List (Address × PoolId)}
  {loans loans' : List SystemBlock} {id : PoolId} {p q : Pool}

theorem write_bytes {addr len x : Nat} {content : Nat → UInt8}
    (outside : ¬ (⟨addr, len⟩ : Span).has x = true) :
    (m.write addr len content).system.bytes x = m.system.bytes x :=
  Bytes.write_of_not_has outside

/-- A pool has got another heap. What else is different is neither about pools nor about the blocks
of the system heap. -/
structure Stored (m : Machine) (id : PoolId) (heap : Heap) (system : SystemHeap) (after : Machine) :
    Prop where
  sound : ∃ lost loans, after.Sound lost loans
  pools : after.pools = (m.putHeap id heap system).pools
  roster : after.roster = m.roster
  nextId : after.nextId = m.nextId
  blocks : after.system.blocks = system.blocks

/-- A heap operation on a pool is a turn of it. -/
theorem Sound.heapTurned {heap : Heap} {system : SystemHeap} (sound : m.Sound lost loans)
    (gone new : List LiveBlock) (found : m.pool? p.id = some p)
    (heapSound : heap.Sound system (m.rest p.id ++ loans) [])
    (stored : Stored m p.id heap system after) (turn : p.Turn { p with heap } gone new)
    (bytes : ∀ x, m.system.Holds x → (∀ b ∈ gone ++ new, ¬ b.span.has x = true) →
      after.system.bytes x = m.system.bytes x) :
    Change m after (gone.map (·.issuedBy p.id)) (new.map (·.issuedBy p.id)) [] := by
  obtain ⟨⟨lost', loans', sound'⟩, pools, roster, nextId, blocks⟩ := stored
  have same := congrArg Machine.pools (sound.updatePool_eq found ({ · with heap }))
  have put : after.pools = (m.updatePool p.id fun _ => { p with heap }).pools := pools.trans same
  -- what callers have from the system heap is what the pools do not hold
  have others := (sound.updatePool_perm found fun _ => { p with heap }).flatMap_right
    (·.heap.holdings)
  rw [← put, List.flatMap_cons] at others
  have held := heapSound.held
  rw [← List.append_assoc, ← blocks] at held
  have loaned : loans'.Perm loans := (List.perm_append_left_iff _).1
    (sound'.held.symm.trans (held.trans (others.symm.append_right _)))
  exact sound.turned (sound'.withLoans loaned) gone new found put roster nextId ⟨rfl, rfl, rfl⟩ turn
    fun x held outside _ => bytes x held outside

/-- A request is refused, or a block that is large enough comes into use. -/
inductive Supplied (m : Machine) (owner : Option PoolId) (request : Request) :
    Outcome (Except Failure Address) → Prop
  | refused {failure : Failure} {after : Machine} : Change m after [] [] [] →
    Supplied m owner request (.ok (.error failure) after)
  | supplied {b : Block} {after : Machine} : Change m after [] [b] [] → b.owner = owner →
    request.size ≤ b.size → Supplied m owner request (.ok (.ok b.addr) after)

/-- A block that its pool has found for a request comes into use, and nobody writes outside it. -/
theorem Sound.granted_change {request : Request} {addr : Address} {step : HeapStep (Option Address)}
    (sound : m.Sound lost loans) (found : m.pool? p.id = some p) (isLive : p.phase = .live)
    (allocated : p.heap.allocate m.system request.size request.align = .ok step)
    (grants : p.heap.Grants (m.rest p.id ++ loans) [] request.size (max request.align granule) step)
    (answer : step.answer = some addr) :
    ∃ b : LiveBlock, b.addr = addr ∧ request.size ≤ b.size ∧
      ∀ after : Machine, Stored m p.id step.heap step.system after →
        (∀ x, ¬ b.span.has x = true → after.system.bytes x = step.system.bytes x) →
        Change m after [] [b.issuedBy p.id] [] := by
  obtain ⟨b, rfl, fits, live, _, peak⟩ := grants.granted answer
  refine ⟨b, rfl, fits, fun after stored written => ?_⟩
  refine sound.heapTurned [] [b] found grants.sound stored (.issued isLive isLive live peak)
    fun x held outside => ?_
  exact (written x (outside b (List.mem_singleton_self b))).trans
    (Heap.allocate_held sound.below allocated held.occupies)

theorem Sound.allocateIn_supplied (sound : m.Sound lost loans) (id : PoolId) (request : Request) :
    Supplied m (some id) request (m.allocateIn id request) := by
  have placing := sound.allocateIn_placing id request
  generalize m.allocateIn id request = o at placing
  cases placing with
  | unavailable => exact .refused (sound.aside sound rfl rfl rfl rfl)
  | @refused p step found isLive allocated grants answer after =>
    obtain ⟨_, rfl⟩ := pool?_mem found
    have books := grants.refused answer
    refine .refused (sound.heapTurned [] [] found grants.sound ⟨⟨_, _, after⟩, rfl, rfl, rfl, rfl⟩
      (.steady rfl books.live books.peak fun ended => ?_)
      fun x held _ => Heap.allocate_held sound.below allocated held.occupies)
    rw [isLive] at ended
    cases ended
  | @placed p step addr tags bytes events found isLive allocated grants answer _ zeroed after =>
    obtain ⟨_, rfl⟩ := pool?_mem found
    obtain ⟨b, rfl, fits, served⟩ := sound.granted_change found isLive allocated grants answer
    exact .supplied (b := b.issuedBy p.id)
      (served _ ⟨⟨_, _, after⟩, rfl, rfl, rfl, rfl⟩ fun x outside =>
        zeroed x fun inside => outside (Span.has_wider fits inside)) rfl fits

/-- A block stays as it is, or it gives way to one that is large enough and carries its content. -/
inductive Refitted (m : Machine) (id : PoolId) (addr : Address) (size : Nat) :
    Outcome (Option Address) → Prop
  | refused {after : Machine} : Change m after [] [] [] → Refitted m id addr size (.ok none after)
  | resized {b new : Block} {after : Machine} : Change m after [b] [new] [] → b.addr = addr →
    b.owner = some id → new.owner = some id → size ≤ new.size →
    (∀ i, i < b.size → i < new.size →
      after.system.bytes (new.addr + i) = m.system.bytes (addr + i)) →
    Refitted m id addr size (.ok (some new.addr) after)

/-- A block that its pool has found a place for gives way to the one in that place. -/
theorem Sound.settled_refitted {b : LiveBlock} {addr : Address} {size chunk : Nat} {r : Resized}
    {step : HeapStep (Option Resized)} (sound : m.Sound lost loans) (found : m.pool? p.id = some p)
    (live : p.heap.block? addr = some b) (rounded : chunkSize? size = some chunk)
    (resized : p.heap.resize m.system addr size = .ok step)
    (settles : p.heap.Settles (m.rest p.id ++ loans) [] addr chunk b step)
    (answer : step.answer = some r) (stored : Stored m p.id step.heap step.system after)
    (system : after.system = step.system) :
    Refitted m p.id addr size (.ok (some r.addr) after) := by
  have heap := sound.heap found
  have carries := heap.resize_carries live rounded resized
  obtain ⟨_, start⟩ := Heap.block?_mem live
  obtain ⟨new, place, fits, _, _, behind⟩ := settles.resized r answer
  have turn : p.Turn { p with heap := step.heap } [b] [new] :=
    .resized rfl (heap.live_perm live) behind place
      (fits ▸ heap.resize_paces live rounded resized answer)
  have enough : size ≤ new.size := by
    rw [fits]
    exact Nat.le_trans (Nat.le_max_left _ _) (chunkSize?_eq_some_iff.1 rounded).2.1
  rw [← place]
  show Refitted m p.id addr size (.ok (some (new.issuedBy p.id).addr) after)
  refine .resized (b := b.issuedBy p.id)
    (sound.heapTurned [b] [new] found settles.sound stored turn fun x held outside => ?_)
    start rfl rfl enough fun i inOld inNew => ?_
  · rw [system]
    refine carries.outside r answer x held (outside b (by simp)) ?_
    rw [← place, ← fits]
    exact outside new (by simp)
  · show after.system.bytes (new.addr + i) = _
    rw [system, place, ← start]
    exact carries.content r answer i inOld (fits ▸ inNew)

theorem Sound.resizeIn_refitted (sound : m.Sound lost loans) {addr : Address}
    (owned : m.owner? addr = some id) (size : Nat) :
    Refitted m id addr size (m.resizeIn id addr size) := by
  have resizing := sound.resizeIn_resizing owned size
  generalize m.resizeIn id addr size = o at resizing
  cases resizing with
  | @refused p b step found live resized heapSound answer books after =>
    obtain ⟨_, rfl⟩ := pool?_mem found
    refine .refused (sound.heapTurned [] [] found heapSound ⟨⟨_, _, after⟩, rfl, rfl, rfl, rfl⟩
      (.steady rfl books.live books.peak fun _ vacant => ?_)
      fun x held _ => (sound.heap found).resize_refused live resized answer x held)
    have inLive := (Heap.block?_mem live).1
    rw [vacant.live] at inLive
    cases inLive
  | @resized p b chunk step r tags found live rounded resized settles answer after =>
    obtain ⟨_, rfl⟩ := pool?_mem found
    exact sound.settled_refitted found live rounded resized settles answer
      ⟨⟨_, _, after⟩, rfl, rfl, rfl, rfl⟩ rfl

theorem pools_updatePool {middle : Machine} {f g : Pool → Pool}
    (pools : middle.pools = (m.updatePool id f).pools) (keeps : ∀ p, (f p).id = p.id) :
    (middle.updatePool id g).pools = (m.updatePool id fun p => g (f p)).pools := by
  simp only [updatePool] at pools ⊢
  rw [pools, List.map_map]
  refine List.map_congr_left fun p _ => ?_
  by_cases same : p.id = id
  · simp [same, (keeps p).trans same]
  · simp [same]

theorem clearCurrent_eq (m : Machine) (thread : ThreadId) (id : PoolId) :
    ∃ threads, m.clearCurrent thread id = { m with threads } := by
  unfold clearCurrent
  split
  · exact ⟨_, rfl⟩
  · exact ⟨m.threads, rfl⟩

theorem destroy_eq (m : Machine) (caller : Caller) (q : Pool) : ∃ threads,
    m.destroy caller q =
      { m with
        system := (q.heap.releaseAll m.system).2
        pools := (m.updatePool q.id (Pool.emptied (q.heap.releaseAll m.system).1)).pools
        roster := swapRemove m.roster q.id
        tags := m.tags.removeAll (q.heap.live.map (·.addr))
        threads
        events := m.events ++ [.poolDestroyed q.id q.name q.heap.live.length] } := by
  obtain ⟨threads, cleared⟩ := clearCurrent_eq (m.tearDown q).2 caller.thread q.id
  have pools : (m.tearDown q).2.pools =
      (m.updatePool q.id (Pool.emptied (q.heap.releaseAll m.system).1)).pools :=
    pools_updatePool (f := ({ · with heap := (q.heap.releaseAll m.system).1 })) rfl fun _ => rfl
  refine ⟨threads, ?_⟩
  unfold destroy finishTearDown
  simp only [cleared, ← pools]
  rfl

theorem Sound.mem_updatePool (sound : m.Sound lost loans) (found : m.pool? p.id = some p)
    (pools : after.pools = (m.updatePool p.id fun _ => q).pools) : q ∈ after.pools := by
  rw [pools]
  exact (sound.updatePool_perm found fun _ => q).symm.subset (List.mem_cons_self ..)

theorem Sound.destroy_change (sound : m.Sound lost loans) (caller : Caller)
    (found : m.pool? p.id = some p) (before : p.phase ≠ .destroyed) :
    Change m (m.destroy caller p) p.issued [] [] ∧ (m.destroy caller p).HasEnded p.id := by
  obtain ⟨lost', _, sound'⟩ := sound.destroy caller found rfl
  obtain ⟨_, live, segments, parked, _⟩ := (sound.heap found).releaseAll
  obtain ⟨threads, same⟩ := destroy_eq m caller p
  have pools := congrArg Machine.pools
    (sound.updatePool_eq found (Pool.emptied (p.heap.releaseAll m.system).1))
  rw [same] at sound' ⊢
  refine ⟨sound.ended sound' found pools rfl rfl ⟨rfl, rfl, rfl⟩ before rfl
    ⟨segments, parked, live⟩ (Heap.releaseAll_peak _ _)
    fun x _ => congrFun (Heap.releaseAll_bytes _ _) x, ?_⟩
  exact ⟨_, sound.mem_updatePool found pools, rfl, rfl⟩

/-- A pool that has lost its last block ends, and what goes out of use is that block. -/
theorem Sound.bereaved_change {b : LiveBlock} {step : HeapStep (Option Nat)}
    (sound : m.Sound lost loans) (caller : Caller) (found : m.pool? p.id = some p)
    (live : p.heap.block? b.addr = some b)
    (released : p.heap.release m.system b.addr = .ok step)
    (frees : p.heap.Frees (m.rest p.id ++ loans) [] b.addr step) (nothing : step.heap.live = [])
    (pending : p.phase = .deletePending)
    (sound' : ((m.putHeap p.id step.heap step.system).destroy caller
      { p with heap := step.heap }).Sound lost' loans) :
    Change m ((m.putHeap p.id step.heap step.system).destroy caller { p with heap := step.heap })
      [b.issuedBy p.id] [] [] := by
  obtain ⟨_, live', segments, parked, _⟩ := frees.sound.releaseAll
  obtain ⟨threads, same⟩ := destroy_eq (m.putHeap p.id step.heap step.system) caller
    { p with heap := step.heap }
  have twice : ((m.putHeap p.id step.heap step.system).updatePool p.id
      (Pool.emptied (step.heap.releaseAll step.system).1)).pools =
      (m.updatePool p.id (Pool.emptied (step.heap.releaseAll step.system).1)).pools :=
    pools_updatePool (f := ({ · with heap := step.heap })) rfl fun _ => rfl
  have pools := twice.trans (congrArg Machine.pools (sound.updatePool_eq found _))
  have last : p.heap.live = [b] := frees.last (sound.heap found) live nothing
  have gone : p.issued = [b.issuedBy p.id] := by
    rw [Pool.issued, last]
    rfl
  rw [← gone]
  rw [same] at sound' ⊢
  refine sound.ended sound' found pools rfl rfl ⟨rfl, rfl, rfl⟩ (by rw [pending]; decide) rfl
    ⟨segments, parked, live'⟩ ((Heap.releaseAll_peak _ _).trans (Heap.release_peak released))
    fun x outside => ?_
  exact (congrFun (Heap.releaseAll_bytes _ _) x).trans
    (Heap.release_bytes live released (outside b (by simp [last])))

/-- Exactly one block goes out of use, even if its pool ends with it. -/
theorem Sound.releaseIn_change {addr : Address} (sound : m.Sound ((addr, id) :: lost) loans)
    (caller : Caller) : ∃ b : Block, m.InUse b ∧ b.owner = some id ∧ b.addr = addr ∧
      Change m (m.releaseIn caller id addr).machine [b] [] [] := by
  obtain ⟨p, b, found, live, rfl, rfl⟩ := sound.live_of_lost
  obtain ⟨_, _, _, sound'⟩ := sound.releaseIn caller
  refine ⟨b.issuedBy p.id, (inUse_of_live found live).1, rfl, rfl, ?_⟩
  have releasing := sound.releaseIn_releasing caller found live
  generalize m.releaseIn caller p.id b.addr = o at releasing sound' ⊢
  cases releasing with
  | goesOn released frees occupied =>
    exact sound.heapTurned [b] [] found frees.sound ⟨⟨_, _, sound'⟩, rfl, rfl, rfl, rfl⟩
      (.released rfl ((sound.heap found).live_perm live) (.of_eq frees.live)
        (Heap.release_peak released) occupied)
      fun x _ outside => Heap.release_bytes live released (outside b (by simp))
  | ends released frees pending nothing =>
    exact sound.bereaved_change caller found live released frees nothing pending sound'

/-- The blocks of a pool that has to end now go out of use with it. -/
theorem Sound.retire_change (sound : m.Sound lost loans) (caller : Caller) (id : PoolId) :
    ∃ gone, Change m (m.retire caller id).2 gone [] [] ∧
      ∀ b ∈ gone, b.owner = some id ∧ (m.retire caller id).2.HasEnded id := by
  have nothing : ∃ gone, Change m m gone [] [] ∧ ∀ b ∈ gone, b.owner = some id ∧ m.HasEnded id :=
    ⟨[], sound.aside sound rfl rfl rfl rfl, by simp⟩
  obtain ⟨lost', _, sound'⟩ := sound.retire caller id
  unfold Machine.retire at sound' ⊢
  cases found : m.pool? id with
  | none => exact nothing
  | some p =>
    obtain ⟨_, rfl⟩ := pool?_mem found
    simp only [found] at sound'
    by_cases ended : p.phase ≠ .live
    · simp only [if_pos ended]
      exact nothing
    simp only [if_neg ended] at sound' ⊢
    have isLive : p.phase = .live := not_not.1 ended
    by_cases waits : 0 < p.heap.live.length ∧ p.keepsBlocks = true
    · simp only [if_pos waits] at sound' ⊢
      obtain ⟨threads, cleared⟩ :=
        clearCurrent_eq (m.setPhase p.id .deletePending) caller.thread p.id
      have pools := congrArg Machine.pools
        (sound.updatePool_eq found ({ · with phase := .deletePending }))
      rw [cleared] at sound' ⊢
      exact ⟨[], sound.turned sound' [] [] found pools rfl rfl ⟨rfl, rfl, rfl⟩
        (.deferred isLive rfl rfl (List.ne_nil_of_length_pos waits.1)) fun _ _ _ _ => rfl, by simp⟩
    · simp only [if_neg waits]
      obtain ⟨change, hasEnded⟩ := sound.destroy_change caller found (by rw [isLive]; decide)
      refine ⟨p.issued, change, fun b own => ⟨?_, hasEnded⟩⟩
      obtain ⟨c, _, rfl⟩ := mem_issued.1 own
      rfl

theorem trim_vacant {h : Heap} {system : SystemHeap} {step : HeapStep Nat} (vacant : h.Vacant)
    (trimmed : h.trim system = .ok step) : step.heap.Vacant := by
  obtain ⟨segments, parked, live⟩ := vacant
  simp only [Heap.trim, Heap.unpark, parked, Heap.returnChunks, segments,
    List.filter_nil] at trimmed
  cases trimmed
  exact ⟨rfl, rfl, live⟩

theorem Sound.trimPool_change (sound : m.Sound lost loans) (id : PoolId) :
    Change m (m.trimPool id).machine [] [] [] := by
  obtain ⟨sound', _, _⟩ := sound.trimPool id
  unfold Machine.trimPool at sound' ⊢
  cases found : m.pool? id with
  | none => exact sound.aside sound rfl rfl rfl rfl
  | some p =>
    obtain ⟨_, rfl⟩ := pool?_mem found
    obtain ⟨step, trimmed, books, heap⟩ := (sound.heap found).trim
    have bytes := Heap.trim_bytes trimmed
    have turn : p.Turn { p with heap := step.heap } [] [] :=
      .steady rfl books.live books.peak fun _ vacant => trim_vacant vacant trimmed
    simp only [found, trimmed] at sound' ⊢
    refine sound.heapTurned [] [] found heap ⟨⟨_, _, sound'⟩, ?_, ?_, ?_, ?_⟩ turn fun x _ _ => ?_
    · split <;> rfl
    · split <;> rfl
    · split <;> rfl
    · split <;> rfl
    · refine Eq.trans ?_ (congrFun bytes x)
      split <;> rfl

theorem Sound.openPool_change (sound : m.Sound lost loans) (caller : Caller)
    {settings : PoolSettings} (word : settings.maxSize < wordSize) :
    Change m (m.openPool caller settings).2 [] [] [] := by
  have sound' := sound.openPool caller word
  let p : Pool := ⟨m.nextId, settings, if settings.owned then some caller.thread else none, .live,
    .empty settings.maxSize, true⟩
  have opened : (m.openPool caller settings).2.pools = m.pools ++ [p] ∧
      (m.openPool caller settings).2.roster = m.roster ++ [p.id] ∧
      (m.openPool caller settings).2.nextId = m.nextId + 1 ∧
      (m.openPool caller settings).2.system = m.system := by
    cases owned : settings.owned with
    | true => simp [Machine.openPool, p, owned, Machine.note, setCurrent, Machine.updateRegister]
    | false => simp [Machine.openPool, p, owned, Machine.note]
  obtain ⟨pools, roster, nextId, system⟩ := opened
  have behind : (m.openPool caller settings).2.issued loans = m.issued loans := by
    rw [issued, pools, List.flatMap_append, List.flatMap_singleton]
    exact congrArg (· ++ _) (List.append_nil _)
  exact ⟨sound.exchanges sound' [] [] (m.issued loans) (.refl _) (.of_eq behind)
    fun x _ _ _ => by rw [system], ⟨_, _, sound'⟩, .opened pools roster rfl nextId rfl rfl⟩

end Machine

end PooledMemory
