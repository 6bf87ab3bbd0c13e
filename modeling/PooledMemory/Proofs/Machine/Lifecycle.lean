import PooledMemory.Machine.Lifecycle
import PooledMemory.Proofs.Heap.Content
import PooledMemory.Proofs.Machine.Soundness

namespace PooledMemory

/-- Faults that a pool only reports after it has lost track of its memory. -/
def Fault.isCorruption : Fault → Bool
  | .outsideSegments _ => true
  | .pastSegmentEnd => true
  | .rangeAlreadyFree _ => true
  | .taggedTwice _ => true
  | _ => false

namespace Machine

variable {m : Machine} {lost : List (Address × PoolId)} {loans : List SystemBlock} {id : PoolId}
  {p : Pool}

theorem Sound.note (sound : m.Sound lost loans) (event : Event) : (m.note event).Sound lost loans :=
  sound.frame rfl rfl rfl rfl

theorem Sound.updateRegister (sound : m.Sound lost loans) (thread : ThreadId)
    (f : Register → Register) : (m.updateRegister thread f).Sound lost loans :=
  sound.frame rfl rfl rfl rfl

theorem Sound.clearCurrent (sound : m.Sound lost loans) (thread : ThreadId) (id : PoolId) :
    (m.clearCurrent thread id).Sound lost loans := by
  unfold Machine.clearCurrent
  split
  · exact sound.updateRegister thread _
  · exact sound

theorem Sound.openPool (sound : m.Sound lost loans) (caller : Caller) {settings : PoolSettings}
    (word : settings.maxSize < wordSize) : (m.openPool caller settings).2.Sound lost loans := by
  -- all but the list of pools is as before, up to the register and the event
  have opened : ∀ (p : Pool) (roster : List PoolId), p.id = m.nextId →
      p.heap = .empty p.settings.maxSize → p.settings.maxSize < wordSize →
      { m with pools := m.pools ++ [p], roster, nextId := m.nextId + 1 }.Sound lost loans := by
    intro p roster number heap limit
    have nothing : p.heap.holdings = [] := by
      rw [heap]
      rfl
    have noPairs : p.pairs = [] := by
      rw [Pool.pairs, heap]
      rfl
    refine ⟨sound.below, ?_, fun q member => ?_, fun q member => ?_, ?_, fun q member => ?_,
      sound.tags, ?_⟩
    · rw [List.flatMap_append, List.flatMap_singleton, nothing, List.append_nil]
      exact sound.held
    · rcases List.mem_append.1 member with old | same
      · exact sound.heaps q old
      · rw [List.mem_singleton.1 same, heap]
        exact Heap.empty_orderly _
    · rcases List.mem_append.1 member with old | same
      · exact sound.budgets q old
      · rw [List.mem_singleton.1 same, heap]
        exact ⟨⟨limit, Nat.zero_le _⟩, rfl⟩
    · rw [List.map_append, List.map_singleton, number]
      refine List.nodup_append.2 ⟨sound.ids, List.nodup_singleton _, fun a inOld b inNew same => ?_⟩
      obtain ⟨q, old, rfl⟩ := List.mem_map.1 inOld
      have lower := sound.numbered q old
      rw [same, List.mem_singleton.1 inNew] at lower
      exact Nat.lt_irrefl _ lower
    · rcases List.mem_append.1 member with old | same
      · exact Nat.lt_succ_of_lt (sound.numbered q old)
      · rw [List.mem_singleton.1 same, number]
        exact Nat.lt_succ_self _
    · rw [livePairs, List.flatMap_append, List.flatMap_singleton, noPairs, List.append_nil]
      exact sound.agree
  refine Sound.note ?_ _
  split
  · exact Sound.updateRegister (opened _ _ rfl rfl word) _ _
  · exact opened _ _ rfl rfl word

theorem pairs_perm {t : TagTable} {addr : Address} {tag : Tag} {after : TagTable}
    (perm : t.toList.Perm ((addr, tag) :: after.toList)) :
    t.pairs.Perm ((addr, tag.pool) :: after.pairs) :=
  perm.map _

theorem Sound.live_of_owner? (sound : m.Sound lost loans) {addr : Address}
    (owned : m.owner? addr = some id) :
    ∃ p b, m.pool? id = some p ∧ p.heap.block? addr = some b := by
  obtain ⟨tag, member, rfl⟩ := sound.tags.owner?_eq_some_iff.1 owned
  have inTags : (addr, tag.pool) ∈ m.tags.pairs := List.mem_map.2 ⟨_, member, rfl⟩
  exact sound.mem_livePairs_iff.1 (sound.agree.subset (List.mem_append_left _ inTags))

/-- A block without its tag is one of the lost ones. -/
theorem Sound.untag (sound : m.Sound lost loans) {addr : Address}
    (owned : m.owner? addr = some id) : (m.untag addr).Sound ((addr, id) :: lost) loans := by
  obtain ⟨tag, member, rfl⟩ := sound.tags.owner?_eq_some_iff.1 owned
  obtain ⟨after, removed, soundAfter, perm⟩ := sound.tags.remove member
  have tags : (m.untag addr).tags = after := by
    simp only [Machine.untag, removed]
    rfl
  refine ⟨sound.below, sound.held, sound.heaps, sound.budgets, sound.ids, sound.numbered, ?_, ?_⟩
  · rw [tags]
    exact soundAfter
  · rw [tags]
    have before := (pairs_perm perm).append_right lost
    exact (List.perm_middle.trans before.symm).trans sound.agree

theorem Sound.untagged (sound : m.Sound lost loans) {addr : Address} (isLost : (addr, id) ∈ lost)
    (tag : Tag) : (addr, tag) ∉ m.tags.toList := by
  intro member
  have unique := (sound.agree.map (·.1)).nodup_iff.2 sound.addr_nodup
  rw [List.map_append] at unique
  refine (List.nodup_append.1 unique).2.2 addr ?_ addr (List.mem_map.2 ⟨_, isLost, rfl⟩) rfl
  exact List.mem_map.2 ⟨(addr, tag.pool), List.mem_map.2 ⟨_, member, rfl⟩, rfl⟩

theorem Sound.insert {addr : Address} (tag : Tag)
    (sound : m.Sound ((addr, tag.pool) :: lost) loans) :
    ∃ tags, m.tags.insert addr tag = .ok tags ∧ { m with tags }.Sound lost loans ∧
      tags.toList.Perm ((addr, tag) :: m.tags.toList) := by
  obtain ⟨after, inserted, soundAfter, perm⟩ :=
    sound.tags.insert tag (sound.untagged (List.mem_cons_self ..))
  refine ⟨after, inserted, ⟨sound.below, sound.held, sound.heaps, sound.budgets, sound.ids,
    sound.numbered, soundAfter, ?_⟩, perm⟩
  have pairs : after.pairs.Perm ((addr, tag.pool) :: m.tags.pairs) := perm.map _
  exact ((pairs.append_right lost).trans List.perm_middle.symm).trans sound.agree

/-- Serving a request records the new block, takes one from the system heap, or does neither. -/
inductive Served (m : Machine) (lost : List (Address × PoolId)) (loans : List SystemBlock) :
    Outcome (Except Failure Address) → Prop
  | refused {failure : Failure} {after : Machine} : after.Sound lost loans → after.tags = m.tags →
      Served m lost loans (.ok (.error failure) after)
  | tagged {addr : Address} {tag : Tag} {after : Machine} : after.Sound lost loans →
      after.tags.toList.Perm ((addr, tag) :: m.tags.toList) →
      Served m lost loans (.ok (.ok addr) after)
  | loaned {b : SystemBlock} {after : Machine} : after.Sound lost (b :: loans) →
      after.tags = m.tags → Served m lost loans (.ok (.ok b.addr) after)

/-- What a pool makes of a request: it is not live, its heap refuses, or its heap places a block that
is tagged. The zeroed bytes are those of the request. -/
inductive Placing (m : Machine) (lost : List (Address × PoolId)) (loans : List SystemBlock)
    (id : PoolId) (request : Request) : Outcome (Except Failure Address) → Prop
  | unavailable : Placing m lost loans id request (.ok (.error (.unavailable id)) m)
  | refused {p : Pool} {step : HeapStep (Option Address)} : m.pool? id = some p →
    p.phase = .live → p.heap.allocate m.system request.size request.align = .ok step →
    p.heap.Grants (m.rest id ++ loans) [] request.size (max request.align granule) step →
    step.answer = none → (m.putHeap id step.heap step.system).Sound lost loans →
    Placing m lost loans id request
      (.ok (.error (.outOfMemory request.size (some id))) (m.putHeap id step.heap step.system))
  | placed {p : Pool} {step : HeapStep (Option Address)} {addr : Address} (tags : TagTable)
    (bytes : Bytes) (events : List Event) : m.pool? id = some p → p.phase = .live →
    p.heap.allocate m.system request.size request.align = .ok step →
    p.heap.Grants (m.rest id ++ loans) [] request.size (max request.align granule) step →
    step.answer = some addr →
    tags.toList.Perm ((addr, ⟨id, request.origin⟩) :: m.tags.toList) →
    (∀ x, ¬ (⟨addr, request.size⟩ : Span).has x = true → bytes x = step.system.bytes x) →
    { m.putHeap id step.heap { step.system with bytes } with tags, events }.Sound lost loans →
    Placing m lost loans id request
      (.ok (.ok addr) { m.putHeap id step.heap { step.system with bytes } with tags, events })

theorem Sound.allocateIn_placing (sound : m.Sound lost loans) (id : PoolId) (request : Request) :
    Placing m lost loans id request (m.allocateIn id request) := by
  unfold Machine.allocateIn
  cases found : m.pool? id with
  | none => exact .unavailable
  | some p =>
    by_cases accepts : p.phase ≠ .live
    · simp only [if_pos accepts]
      exact .unavailable
    · have isLive : p.phase = .live := not_not.1 accepts
      have heap := sound.heap found
      have budget := (sound.budgets p (pool?_mem found).1).1
      obtain ⟨step, allocated, grants⟩ := heap.allocate request.size request.align
      have within := grants.inBudget heap budget
      simp only [if_neg accepts, allocated]
      cases answer : step.answer with
      | none =>
        have books := grants.refused answer
        refine .refused found isLive allocated grants answer
          (sound.putHeap found grants.sound within books.maxSize ?_)
        rw [books.live, ← (pool?_mem found).2]
        exact .refl _
      | some addr =>
        obtain ⟨b, rfl, _, live, limit, _⟩ := grants.granted answer
        have put : (m.putHeap id step.heap step.system).Sound ((b.addr, id) :: lost) loans := by
          refine sound.putHeap found grants.sound within limit ?_
          rw [live, ← (pool?_mem found).2]
          exact List.perm_middle.symm
        obtain ⟨tags, inserted, tagged, perm⟩ := Sound.insert ⟨id, request.origin⟩ put
        -- the zeroed bytes and the event touch neither pools nor tags
        have written : ∀ (bytes : Bytes) (events : List Event),
            { m.putHeap id step.heap { step.system with bytes } with tags, events }.Sound
              lost loans := fun bytes _ => (tagged.withBytes bytes).frame rfl rfl rfl rfl
        have zeroed : ∀ x, ¬ (⟨b.addr, request.size⟩ : Span).has x = true →
            step.system.bytes.write b.addr request.size (fun _ => 0) x = step.system.bytes x :=
          fun _ outside => Bytes.write_of_not_has outside
        simp only [inserted]
        split
        · split <;>
            exact .placed tags _ _ found isLive allocated grants answer perm zeroed (written _ _)
        · split <;>
            exact .placed tags _ _ found isLive allocated grants answer perm (fun _ _ => rfl)
              (written _ _)

theorem Sound.allocateIn (sound : m.Sound lost loans) (id : PoolId) (request : Request) :
    Served m lost loans (m.allocateIn id request) := by
  have placing := sound.allocateIn_placing id request
  generalize m.allocateIn id request = o at placing
  cases placing with
  | unavailable => exact .refused sound rfl
  | refused _ _ _ _ _ after => exact .refused after rfl
  | placed tags bytes events _ _ _ _ _ perm _ after => exact .tagged after perm

/-- What the pool that issued a block makes of it: its heap refuses to resize it, or the block gives
way to another one, and its tag follows it. -/
inductive Resizing (m : Machine) (lost : List (Address × PoolId)) (loans : List SystemBlock)
    (id : PoolId) (addr : Address) (size : Nat) : Outcome (Option Address) → Prop
  | refused {p : Pool} {b : LiveBlock} {step : HeapStep (Option Resized)} :
    m.pool? id = some p → p.heap.block? addr = some b →
    p.heap.resize m.system addr size = .ok step →
    step.heap.Sound step.system (m.rest id ++ loans) [] → step.answer = none →
    Heap.SameBooks p.heap step.heap → (m.putHeap id step.heap step.system).Sound lost loans →
    Resizing m lost loans id addr size (.ok none (m.putHeap id step.heap step.system))
  | resized {p : Pool} {b : LiveBlock} {chunk : Nat} {step : HeapStep (Option Resized)}
    {r : Resized} (tags : TagTable) : m.pool? id = some p → p.heap.block? addr = some b →
    chunkSize? size = some chunk → p.heap.resize m.system addr size = .ok step →
    p.heap.Settles (m.rest id ++ loans) [] addr chunk b step → step.answer = some r →
    { m.putHeap id step.heap step.system with tags }.Sound lost loans →
    Resizing m lost loans id addr size
      (.ok (some r.addr) { m.putHeap id step.heap step.system with tags })

/-- A block that is resized leaves the records of the others alone. -/
theorem Sound.resized_perm {addr : Address} {chunk : Nat} {b : LiveBlock} {r : Resized}
    {step : HeapStep (Option Resized)} (sound : m.Sound lost loans) (found : m.pool? p.id = some p)
    (live : p.heap.block? addr = some b)
    (settles : p.heap.Settles (m.rest p.id ++ loans) [] addr chunk b step)
    (answer : step.answer = some r) :
    ∃ others : List (Address × PoolId), p.pairs.Perm ((addr, p.id) :: others) ∧
      (step.heap.live.map fun c => (c.addr, p.id)).Perm ((r.addr, p.id) :: others) ∧
      (r.moved = false → r.addr = addr) := by
  obtain ⟨_, start⟩ := Heap.block?_mem live
  obtain ⟨new, place, _, _, still, perm⟩ := settles.resized r answer
  refine ⟨(p.heap.removeLive b).live.map fun c => (c.addr, p.id), ?_, ?_, still⟩
  · have split := ((sound.heap found).live_perm live).map fun c => (c.addr, p.id)
    rw [List.map_cons, start] at split
    exact split
  · have split := perm.map fun c => (c.addr, p.id)
    rw [List.map_cons, place] at split
    exact split

/-- A tag follows its block: it is taken off before the heap changes and put back at the new
address. -/
theorem Sound.move_tag {addr moved : Address} {heap : Heap} {system : SystemHeap}
    (sound : m.Sound lost loans) (owned : m.owner? addr = some id)
    (put : ((m.untag addr).putHeap id heap system).Sound ((moved, id) :: lost) loans) :
    ∃ tags, m.tags.move addr moved = .ok tags ∧
      { m.putHeap id heap system with tags }.Sound lost loans := by
  obtain ⟨tag, member, rfl⟩ := sound.tags.owner?_eq_some_iff.1 owned
  obtain ⟨tags, removed, _⟩ := sound.tags.remove member
  have forgotten : (m.untag addr).tags = tags := by
    simp only [Machine.untag, removed]
    rfl
  obtain ⟨last, inserted, soundLast, _⟩ := Sound.insert tag put
  have inserted' : tags.insert moved tag = .ok last := forgotten ▸ inserted
  refine ⟨last, ?_, soundLast⟩
  simp only [TagTable.move, removed, inserted']

theorem Sound.resizeIn_resizing (sound : m.Sound lost loans) {addr : Address}
    (owned : m.owner? addr = some id) (size : Nat) :
    Resizing m lost loans id addr size (m.resizeIn id addr size) := by
  obtain ⟨p, b, found, live⟩ := sound.live_of_owner? owned
  obtain ⟨inPools, rfl⟩ := pool?_mem found
  have heap := sound.heap found
  have budget := (sound.budgets p inPools).1
  unfold Machine.resizeIn
  cases rounded : chunkSize? size with
  | none =>
    have nothing : p.heap.resize m.system addr size = .ok ⟨none, p.heap, m.system⟩ :=
      Heap.resize_of_none (.inr rounded)
    simp only [found, nothing]
    exact .refused found live nothing heap rfl (.refl _)
      (sound.putHeap found heap budget rfl (.refl _))
  | some chunk =>
    obtain ⟨step, resized, settles, fits⟩ := heap.resize live rounded
    have within := settles.inBudget heap live budget fits
    simp only [found, resized]
    cases answer : step.answer with
    | none =>
      have books := settles.refused answer
      refine .refused found live resized settles.sound answer books
        (sound.putHeap found settles.sound within settles.maxSize ?_)
      rw [books.live]
      exact .refl _
    | some r =>
      obtain ⟨others, before, behind, still⟩ := sound.resized_perm found live settles answer
      cases moved : r.moved with
      | false =>
        rw [still moved] at behind
        simp only [moved, Bool.false_eq_true, if_false]
        exact .resized m.tags found live rounded resized settles answer
          (sound.putHeap found settles.sound within settles.maxSize
            ((behind.trans before.symm).append_right lost))
      | true =>
        have put : ((m.untag addr).putHeap p.id step.heap step.system).Sound
            ((r.addr, p.id) :: lost) loans := by
          refine (sound.untag owned).putHeap found settles.sound within settles.maxSize ?_
          exact ((behind.append_right _).trans (Keyed.swap_perm ..)).trans
            (before.symm.append_right _)
        obtain ⟨tags, followed, after⟩ := sound.move_tag owned put
        have followed' : (m.putHeap p.id step.heap step.system).tags.move addr r.addr = .ok tags :=
          followed
        simp only [moved, if_true, followed']
        exact .resized tags found live rounded resized settles answer after

/-- A recorded block is resized by the pool that issued it, and its tag follows it. -/
theorem Sound.resizeIn (sound : m.Sound lost loans) {addr : Address} (owned : m.owner? addr = some id)
    (size : Nat) : ∃ answer, (m.resizeIn id addr size).answer = .ok answer ∧
      (m.resizeIn id addr size).machine.Sound lost loans := by
  have resizing := sound.resizeIn_resizing owned size
  generalize m.resizeIn id addr size = o at resizing
  cases resizing with
  | refused _ _ _ _ _ _ after => exact ⟨none, rfl, after⟩
  | @resized _ _ _ _ r _ _ _ _ _ _ _ after => exact ⟨some r.addr, rfl, after⟩

theorem Sound.removeAll {addrs : List Address} (sound : m.Sound lost loans)
    (found : m.pool? id = some p) (all : addrs = p.heap.live.map (·.addr)) :
    ∃ lost', lost' ⊆ lost ∧
      { m with tags := m.tags.removeAll addrs }.Sound (p.pairs ++ lost') loans := by
  obtain ⟨tags, removed⟩ := sound.tags.removeAll addrs
  refine ⟨lost.filter fun e => !addrs.contains e.1, List.filter_subset_self _,
    ⟨sound.below, sound.held, sound.heaps, sound.budgets, sound.ids, sound.numbered, tags, ?_⟩⟩
  have before := sound.agree.trans (sound.livePairs_perm found)
  have starts : p.pairs.map (·.1) = addrs := by
    simp [all, Pool.pairs, Function.comp_def]
  have unique := (before.map (·.1)).nodup_iff.1
    ((sound.agree.map (·.1)).nodup_iff.2 sound.addr_nodup)
  rw [List.map_append, starts] at unique
  have kept := before.filter fun e => !addrs.contains e.1
  rw [List.filter_append, List.filter_append] at kept
  have gone : (p.pairs.filter fun e => !addrs.contains e.1) = [] := by
    refine List.filter_eq_nil_iff.2 fun e member => ?_
    have own : e.1 ∈ addrs := starts ▸ List.mem_map_of_mem member
    simpa using own
  have stay : (((m.others id).flatMap (·.pairs)).filter fun e => !addrs.contains e.1) =
      (m.others id).flatMap (·.pairs) := by
    refine List.filter_eq_self.2 fun e member => ?_
    have other : e.1 ∉ addrs := fun own =>
      (List.nodup_append.1 unique).2.2 e.1 own e.1 (List.mem_map_of_mem member) rfl
    simpa using other
  have pairs : (m.tags.removeAll addrs).pairs.Perm
      (m.tags.pairs.filter fun e => !addrs.contains e.1) := by
    rw [TagTable.pairs, TagTable.pairs, List.filter_map]
    exact removed.map _
  rw [gone, stay, List.nil_append] at kept
  have others := (pairs.append_right _).trans kept
  refine (List.perm_append_comm_assoc ..).trans ?_
  exact (others.append_left _).trans (sound.livePairs_perm found).symm

/-- A pool that is torn down gives all of its memory back and takes its lost blocks along. -/
theorem Sound.tearDown {q : Pool} (sound : m.Sound lost loans) (found : m.pool? q.id = some p)
    (heap : q.heap = p.heap) : ∃ lost', lost' ⊆ lost ∧ (m.tearDown q).2.Sound lost' loans := by
  obtain ⟨after, live, _, _, maxSize⟩ := (sound.heap found).releaseAll
  obtain ⟨budget, _⟩ := sound.budgets p (pool?_mem found).1
  obtain ⟨lost', fewer, forgotten⟩ := sound.removeAll found rfl
  have within : (p.heap.releaseAll m.system).1.InBudget := by
    refine ⟨maxSize ▸ budget.limit, ?_⟩
    rw [Heap.spent, live]
    exact Nat.zero_le _
  have put : Machine.Sound (Machine.putHeap _ q.id _ _) lost' loans :=
    forgotten.putHeap found after within maxSize (by rw [live]; exact .refl _)
  refine ⟨lost', fewer, ?_⟩
  have destroyed : Machine.Sound (Machine.setPhase _ q.id .destroyed) lost' loans :=
    put.updatePool fun _ => ⟨rfl, rfl, rfl⟩
  rw [Machine.tearDown, heap]
  exact destroyed

theorem Sound.destroy {q : Pool} (sound : m.Sound lost loans) (caller : Caller)
    (found : m.pool? q.id = some p) (heap : q.heap = p.heap) :
    ∃ lost', lost' ⊆ lost ∧ (m.destroy caller q).Sound lost' loans := by
  obtain ⟨lost', fewer, after⟩ := sound.tearDown found heap
  have cleared := after.clearCurrent caller.thread q.id
  have listed : ∀ roster, { (m.tearDown q).2.clearCurrent caller.thread q.id with
      roster := roster }.Sound lost' loans := fun roster => cleared.frame rfl rfl rfl rfl
  exact ⟨lost', fewer, (listed _).note _⟩

theorem Sound.retire (sound : m.Sound lost loans) (caller : Caller) (id : PoolId) :
    ∃ lost', lost' ⊆ lost ∧ (m.retire caller id).2.Sound lost' loans := by
  unfold Machine.retire
  cases found : m.pool? id with
  | none => exact ⟨lost, List.Subset.refl _, sound⟩
  | some p =>
    obtain ⟨_, rfl⟩ := pool?_mem found
    by_cases ended : p.phase ≠ .live
    · simp only [if_pos ended]
      exact ⟨lost, List.Subset.refl _, sound⟩
    by_cases waits : 0 < p.heap.live.length ∧ p.keepsBlocks
    · simp only [if_neg ended, if_pos waits]
      have pending : (m.setPhase p.id .deletePending).Sound lost loans :=
        sound.updatePool fun _ => ⟨rfl, rfl, rfl⟩
      exact ⟨lost, List.Subset.refl _, (pending.clearCurrent _ _).note _⟩
    · simp only [if_neg ended, if_neg waits]
      exact sound.destroy caller found rfl

theorem Sound.dropPool (sound : m.Sound lost loans) (caller : Caller) (id : PoolId) :
    (∃ lost', lost' ⊆ lost ∧ (m.dropPool caller id).machine.Sound lost' loans) ∧
      ∀ fault, (m.dropPool caller id).answer = .error fault → fault.isCorruption = false := by
  obtain ⟨lost', fewer, retired⟩ := sound.retire caller id
  have after : ((m.retire caller id).2.updatePool id ({ · with held := false })).Sound lost' loans :=
    retired.updatePool fun _ => ⟨rfl, rfl, rfl⟩
  unfold Machine.dropPool
  simp only
  split
  · split
    · exact ⟨⟨lost', fewer, after⟩, fun fault stopped => by cases stopped⟩
    · refine ⟨⟨lost', fewer, after⟩, fun fault stopped => ?_⟩
      cases stopped
      rfl
  · exact ⟨⟨lost', fewer, after⟩, fun fault stopped => by cases stopped⟩

theorem Sound.exitThread (sound : m.Sound lost loans) (thread : ThreadId) :
    ∃ lost', lost' ⊆ lost ∧ (m.exitThread thread).Sound lost' loans := by
  have retireAll : ∀ (owned : List Pool) (m : Machine) (lost : List (Address × PoolId)),
      m.Sound lost loans → ∃ lost', lost' ⊆ lost ∧
        (owned.foldl (fun m p => (m.retire { thread, nested := true } p.id).2) m).Sound
          lost' loans := by
    intro owned
    induction owned with
    | nil => exact fun m lost sound => ⟨lost, List.Subset.refl _, sound⟩
    | cons p rest ih =>
      intro m lost sound
      obtain ⟨middle, fewer, retired⟩ := sound.retire { thread, nested := true } p.id
      obtain ⟨lost', fewer', after⟩ := ih _ middle retired
      exact ⟨lost', List.Subset.trans fewer' fewer, after⟩
  unfold Machine.exitThread
  simp only
  split
  · exact ⟨lost, List.Subset.refl _, sound.updateRegister _ _⟩
  · obtain ⟨lost', fewer, after⟩ := retireAll (m.listedPools.filter fun p =>
      p.owner == some thread && p.phase == .live) _ lost (sound.note _)
    exact ⟨lost', fewer, after.updateRegister _ _⟩

theorem Sound.trimPool (sound : m.Sound lost loans) (id : PoolId) :
    (m.trimPool id).machine.Sound lost loans ∧ ∃ bytes, (m.trimPool id).answer = .ok bytes := by
  unfold Machine.trimPool
  cases found : m.pool? id with
  | none => exact ⟨sound, 0, rfl⟩
  | some p =>
    obtain ⟨step, trimmed, books, after⟩ := (sound.heap found).trim
    have budget := books.inBudget (sound.budgets p (pool?_mem found).1).1
    have put : (m.putHeap id step.heap step.system).Sound lost loans := by
      refine sound.putHeap found after budget books.maxSize ?_
      rw [books.live, ← (pool?_mem found).2]
      exact .refl _
    simp only [trimmed]
    split
    · exact ⟨put.note _, _, rfl⟩
    · exact ⟨put, _, rfl⟩

/-- What a pool makes of a live block that it takes back: it goes on without the block, or it has
waited for nothing but this block and ends. -/
inductive Releasing (m : Machine) (loans : List SystemBlock) (caller : Caller) (p : Pool)
    (b : LiveBlock) : Outcome Unit → Prop
  | goesOn {step : HeapStep (Option Nat)} : p.heap.release m.system b.addr = .ok step →
    p.heap.Frees (m.rest p.id ++ loans) [] b.addr step →
    (p.phase = .deletePending → step.heap.live ≠ []) →
    Releasing m loans caller p b (.ok () (m.putHeap p.id step.heap step.system))
  | ends {step : HeapStep (Option Nat)} : p.heap.release m.system b.addr = .ok step →
    p.heap.Frees (m.rest p.id ++ loans) [] b.addr step → p.phase = .deletePending →
    step.heap.live = [] → Releasing m loans caller p b
      (.ok () ((m.putHeap p.id step.heap step.system).destroy caller { p with heap := step.heap }))

theorem Sound.releaseIn_releasing {b : LiveBlock} (sound : m.Sound lost loans) (caller : Caller)
    (found : m.pool? p.id = some p) (live : p.heap.block? b.addr = some b) :
    Releasing m loans caller p b (m.releaseIn caller p.id b.addr) := by
  obtain ⟨step, released, frees⟩ := (sound.heap found).release b.addr
  have answer : step.answer.isNone = false := by
    rw [frees.answer, Heap.sizeOf?, live]
    rfl
  unfold Machine.releaseIn
  simp only [found, released, answer, Bool.false_eq_true, false_and, if_false]
  by_cases last : p.phase = .deletePending ∧ step.heap.live.isEmpty = true
  · rw [if_pos last]
    exact .ends released frees last.1 (List.isEmpty_iff.1 last.2)
  · rw [if_neg last]
    exact .goesOn released frees fun pending nothing =>
      last ⟨pending, List.isEmpty_iff.2 nothing⟩

/-- A block without a record that is live in a pool. -/
theorem Sound.live_of_lost {addr : Address} (sound : m.Sound ((addr, id) :: lost) loans) :
    ∃ p b, m.pool? p.id = some p ∧ p.heap.block? b.addr = some b ∧ p.id = id ∧ b.addr = addr := by
  have isLive : (addr, id) ∈ m.livePairs :=
    sound.agree.subset (List.mem_append_right _ (List.mem_cons_self ..))
  obtain ⟨p, b, found, live⟩ := sound.mem_livePairs_iff.1 isLive
  obtain ⟨_, rfl⟩ := pool?_mem found
  obtain ⟨_, rfl⟩ := Heap.block?_mem live
  exact ⟨p, b, found, live, rfl, rfl⟩

/-- Without its lost block a pool agrees with the tags again. -/
theorem Sound.withdraw {b : LiveBlock} {step : HeapStep (Option Nat)}
    (sound : m.Sound ((b.addr, p.id) :: lost) loans) (found : m.pool? p.id = some p)
    (live : p.heap.block? b.addr = some b)
    (frees : p.heap.Frees (m.rest p.id ++ loans) [] b.addr step) :
    (m.putHeap p.id step.heap step.system).Sound lost loans := by
  have within := frees.inBudget (sound.budgets p (pool?_mem found).1).1
  have before : p.pairs.Perm
      ((b.addr, p.id) :: (step.heap.live.map fun c => (c.addr, p.id))) := by
    have split := ((sound.heap found).live_perm live).map fun c => (c.addr, p.id)
    have left : (p.heap.removeLive b).live = step.heap.live := frees.live.symm
    rw [List.map_cons, left] at split
    exact split
  refine sound.putHeap found frees.sound within frees.maxSize ?_
  exact List.perm_middle.trans (before.symm.append_right lost)

/-- A pool releases a live block that is no longer recorded. -/
theorem Sound.releaseIn {addr : Address} (sound : m.Sound ((addr, id) :: lost) loans)
    (caller : Caller) : (m.releaseIn caller id addr).answer = .ok () ∧
      ∃ lost', lost' ⊆ lost ∧ (m.releaseIn caller id addr).machine.Sound lost' loans := by
  obtain ⟨p, b, found, live, rfl, rfl⟩ := sound.live_of_lost
  have releasing := sound.releaseIn_releasing caller found live
  generalize m.releaseIn caller p.id b.addr = o at releasing
  cases releasing with
  | goesOn _ frees _ => exact ⟨rfl, lost, List.Subset.refl _, sound.withdraw found live frees⟩
  | @ends step _ frees _ _ =>
    obtain ⟨lost', fewer, after⟩ := (sound.withdraw found live frees).destroy
      (q := { p with heap := step.heap }) caller (pool?_putHeap step.heap step.system found) rfl
    exact ⟨rfl, lost', fewer, after⟩

/-- Releasing an address where the pool has no live block changes nothing it relies on. -/
theorem Sound.releaseIn_of_none {addr : Address} (sound : m.Sound lost loans) (caller : Caller)
    (missing : ∀ p, m.pool? id = some p → p.heap.block? addr = none) :
    (m.releaseIn caller id addr).machine.Sound lost loans ∧
      ∀ fault, (m.releaseIn caller id addr).answer = .error fault → fault.isCorruption = false := by
  unfold Machine.releaseIn
  cases found : m.pool? id with
  | none => exact ⟨sound, fun fault stopped => by cases stopped⟩
  | some p =>
    have put : (m.putHeap id p.heap m.system).Sound lost loans := by
      refine sound.putHeap found (sound.heap found) (sound.budgets p (pool?_mem found).1).1 rfl ?_
      rw [← (pool?_mem found).2]
      exact .refl _
    simp only [Heap.release_of_none (missing p found), Option.isNone_none, true_and]
    split
    · refine ⟨put, fun fault stopped => ?_⟩
      cases stopped
      rfl
    · rename_i gone
      have ended : p.phase = .destroyed := by simpa using gone
      simp only [ended, reduceCtorEq, false_and, if_false]
      exact ⟨put, fun fault stopped => by cases stopped⟩

end Machine

end PooledMemory
