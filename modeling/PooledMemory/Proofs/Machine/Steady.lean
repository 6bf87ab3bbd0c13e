import Mathlib.Data.List.Forall2
import PooledMemory.Proofs.Machine.Custody

namespace PooledMemory

/-- Two states of one pool that differ in nothing but where its free memory is. -/
structure Pool.Alike (p q : Pool) : Prop where
  frame : q = { p with heap := q.heap }
  live : q.heap.live = p.heap.live
  allocated : q.heap.allocated = p.heap.allocated

theorem Pool.Alike.refl (p : Pool) : p.Alike p := ⟨rfl, rfl, rfl⟩

/-- A block that came in last and goes out again leaves the others as they were. -/
theorem LiveBlock.filter_cons_self {b : LiveBlock} {live : List LiveBlock}
    (unique : ((b :: live).map (·.addr)).Nodup) :
    (b :: live).filter (·.addr != b.addr) = live := by
  rw [List.map_cons, List.nodup_cons] at unique
  rw [List.filter_cons_of_neg (by simp)]
  refine List.filter_eq_self.2 fun c member => bne_iff_ne.2 fun same => unique.1 ?_
  exact List.mem_map.2 ⟨c, member, same⟩

namespace Machine

variable {m after : Machine} {lost : List (Address × PoolId)} {loans loans' : List SystemBlock}
  {id : PoolId} {p : Pool}

/-- The live blocks of all pools, their tags and what is known about pools and threads are the same.
Only memory that is not in use may be laid out in another way. -/
structure Steady (m after : Machine) : Prop where
  pools : List.Forall₂ Pool.Alike m.pools after.pools
  roster : after.roster = m.roster
  nextId : after.nextId = m.nextId
  tags : after.tags.toList.Perm m.tags.toList
  marks : after.marks = m.marks
  current : ∀ thread, (after.threads thread).current = (m.threads thread).current

theorem alike_self (pools : List Pool) : List.Forall₂ Pool.Alike pools pools :=
  List.forall₂_same.2 fun p _ => .refl p

theorem Steady.refl (m : Machine) : m.Steady m :=
  ⟨alike_self _, rfl, rfl, .refl _, rfl, fun _ => rfl⟩

theorem Steady.of_pools {pools : List Pool} (alike : List.Forall₂ Pool.Alike m.pools pools)
    (system : SystemHeap) (events : List Event) :
    m.Steady { m with system, pools, events } :=
  ⟨alike, rfl, rfl, .refl _, rfl, fun _ => rfl⟩

theorem Sound.alike_updatePool (sound : m.Sound lost loans) (found : m.pool? id = some p)
    {heap : Heap} (live : heap.live = p.heap.live) (allocated : heap.allocated = p.heap.allocated) :
    List.Forall₂ Pool.Alike m.pools (m.updatePool id ({ · with heap })).pools := by
  obtain ⟨inPools, rfl⟩ := pool?_mem found
  refine List.forall₂_map_right_iff.2 (List.forall₂_same.2 fun q member => ?_)
  by_cases same : q.id = p.id
  · obtain rfl := sound.eq_of_id member inPools same
    rw [if_pos rfl]
    exact ⟨rfl, live, allocated⟩
  · rw [if_neg same]
    exact .refl q

theorem Sound.putHeap_steady (sound : m.Sound lost loans) (found : m.pool? id = some p)
    {heap : Heap} (system : SystemHeap) (books : Heap.SameBooks p.heap heap) :
    m.Steady (m.putHeap id heap system) :=
  .of_pools (sound.alike_updatePool found books.live books.allocated) system m.events

/-- A request is refused and nothing comes of it, or a block is placed in a live pool and tagged, or
the system heap hands out a block. -/
inductive Dealt (m : Machine) : Outcome (Except Failure Address) → Prop
  | refused {failure : Failure} {after : Machine} : m.Steady after →
    Dealt m (.ok (.error failure) after)
  | placed {p : Pool} {heap : Heap} {origin : Option Location} (b : LiveBlock) (system : SystemHeap)
    (tags : TagTable) (events : List Event) : m.pool? p.id = some p → p.phase = .live →
    heap.live = b :: p.heap.live → tags.toList.Perm ((b.addr, ⟨p.id, origin⟩) :: m.tags.toList) →
    Dealt m (.ok (.ok b.addr) { m.putHeap p.id heap system with tags, events })
  | lent {addr : Address} (system : SystemHeap) : m.owner? addr = none →
    Dealt m (.ok (.ok addr) { m with system })

theorem Sound.allocateIn_dealt (sound : m.Sound lost loans) (id : PoolId) (request : Request) :
    m.Dealt (m.allocateIn id request) := by
  have placing := sound.allocateIn_placing id request
  generalize m.allocateIn id request = o at placing
  cases placing with
  | unavailable => exact .refused (.refl m)
  | refused found _ _ grants answer _ =>
    exact .refused (sound.putHeap_steady found _ (grants.refused answer))
  | @placed p step addr tags bytes events found isLive _ grants answer perm _ _ =>
    obtain ⟨_, rfl⟩ := pool?_mem found
    obtain ⟨b, rfl, _, live, _, _⟩ := grants.granted answer
    exact .placed b _ tags events found isLive live perm

theorem Sound.serve_dealt (sound : m.Sound lost loans) (target : Target) (request : Request) :
    m.Dealt (m.serve target request) := by
  cases target with
  | pool id => exact sound.allocateIn_dealt id request
  | unavailable id => exact .refused (.refl m)
  | systemHeap =>
    simp only [Machine.serve]
    cases taken : m.system.allocate? request.size request.align request.zeroed with
    | none => exact .refused (.refl m)
    | some found =>
      obtain ⟨addr, system⟩ := found
      have filled : 0 < max request.size 1 := by omega
      exact .lent system ((sound.takeLoan filled taken).unowned_of_loan (List.mem_cons_self ..))

theorem Dealt.steady {o : Outcome (Except Failure Address)} (dealt : m.Dealt o) {failure : Failure}
    (answer : o.answer = .ok (.error failure)) : m.Steady o.machine := by
  cases dealt with
  | refused steady => exact steady
  | placed _ _ _ _ _ _ _ _ => cases answer
  | lent _ _ => cases answer

/-- A pool that cannot resize a block keeps it as it is. -/
theorem Sound.resizeIn_steady (sound : m.Sound lost loans) {addr : Address}
    (owned : m.owner? addr = some id) {size : Nat}
    (answer : (m.resizeIn id addr size).answer = .ok none) :
    m.Steady (m.resizeIn id addr size).machine := by
  have resizing := sound.resizeIn_resizing owned size
  generalize m.resizeIn id addr size = o at answer resizing ⊢
  cases resizing with
  | refused found _ _ _ _ books _ => exact sound.putHeap_steady found _ books
  | resized _ _ _ _ _ _ _ _ => cases answer

/-- A live pool that takes a block back goes on without it. -/
theorem Sound.releaseIn_live {addr : Address} (sound : m.Sound ((addr, id) :: lost) loans)
    (caller : Caller) (found : m.pool? id = some p) (isLive : p.phase = .live) :
    ∃ heap system, m.releaseIn caller id addr = .ok () (m.putHeap id heap system) ∧
      heap.live = p.heap.live.filter (·.addr != addr) ∧
      heap.allocated = LiveBlock.bytes heap.live % wordSize := by
  obtain ⟨q, b, found', live, rfl, rfl⟩ := sound.live_of_lost
  obtain rfl : p = q := Option.some.inj (found.symm.trans found')
  have releasing := sound.releaseIn_releasing caller found live
  generalize m.releaseIn caller p.id b.addr = o at releasing
  cases releasing with
  | goesOn _ frees _ => exact ⟨_, _, rfl, frees.live, frees.sound.counted⟩
  | ends _ _ pending _ =>
    rw [isLive] at pending
    cases pending

/-- A block that no pool owns is returned without a look at pools and tags, if it is returned. -/
theorem Sound.release_unowned_steady (sound : m.Sound lost loans) (caller : Caller)
    (expected : Option PoolId) {addr : Address} (unowned : m.owner? addr = none) :
    m.Steady (m.release caller expected addr).machine := by
  have steady : ∀ system events, m.Steady { m with system, events } := .of_pools (alike_self _)
  obtain returned | ⟨holder, _, stopped⟩ := sound.release_of_unowned caller expected unowned
  · rw [returned]
    exact steady _ _
  · rw [stopped]
    exact steady _ _

/-- A block that has just been placed in a pool can be given back as if it had never been there. -/
theorem Sound.placed_release (sound : m.Sound [] loans) (caller : Caller) {b : LiveBlock} {heap : Heap}
    {origin : Option Location} {system : SystemHeap} {tags : TagTable} {events : List Event}
    (found : m.pool? p.id = some p) (isLive : p.phase = .live) (live : heap.live = b :: p.heap.live)
    (perm : tags.toList.Perm ((b.addr, ⟨p.id, origin⟩) :: m.tags.toList))
    (sound' : ({ m.putHeap p.id heap system with tags, events } : Machine).Sound [] loans') :
    m.Steady (({ m.putHeap p.id heap system with tags, events } : Machine).release caller none
      b.addr).machine := by
  let placed : Machine := { m.putHeap p.id heap system with tags, events }
  have recorded : (b.addr, ⟨p.id, origin⟩) ∈ tags.toList :=
    perm.mem_iff.2 (List.mem_cons_self ..)
  have owned : placed.owner? b.addr = some p.id :=
    sound'.tags.owner?_eq_some_iff.2 ⟨_, recorded, rfl⟩
  have there : (placed.untag b.addr).pool? p.id = some { p with heap } :=
    pool?_putHeap heap system found
  obtain ⟨last, system', released, left, counted⟩ :=
    (sound'.untag owned).releaseIn_live caller there isLive
  have unique : ((b :: p.heap.live).map (·.addr)).Nodup := by
    have nodup := (sound'.heap (pool?_putHeap heap system found)).addr_nodup
    rwa [← live]
  have back : last.live = p.heap.live := by
    rw [left, live]
    exact LiveBlock.filter_cons_self unique
  have same : last.allocated = p.heap.allocated := by
    rw [counted, back, (sound.heap found).counted]
  obtain ⟨rest, removed, _, others⟩ := sound'.tags.remove recorded
  have untagged : (placed.untag b.addr).tags = rest := by
    simp only [Machine.untag, removed, placed]
    rfl
  have twice : ((placed.untag b.addr).putHeap p.id last system').pools =
      (m.updatePool p.id ({ · with heap := last })).pools :=
    pools_updatePool (f := ({ · with heap })) rfl fun _ => rfl
  rw [sound'.release_recorded caller owned rfl, released]
  refine ⟨?_, rfl, rfl, ?_, rfl, fun _ => rfl⟩
  · show List.Forall₂ _ _ ((placed.untag b.addr).putHeap p.id last system').pools
    rw [twice]
    exact sound.alike_updatePool found back same
  · show (placed.untag b.addr).tags.toList.Perm _
    rw [untagged]
    exact (others.symm.trans perm).cons_inv

theorem Steady.of_system {system : SystemHeap}
    (steady : ({ m with system } : Machine).Steady after) : m.Steady after :=
  ⟨steady.pools, steady.roster, steady.nextId, steady.tags, steady.marks, steady.current⟩

/-- A block that has just been obtained for a content can be given back. -/
theorem Dealt.release_steady {o : Outcome (Except Failure Address)} (dealt : m.Dealt o)
    (sound : m.Sound [] loans) (sound' : o.machine.Sound [] loans') (caller : Caller)
    {addr : Address} (answer : o.answer = .ok (.ok addr)) :
    m.Steady (o.machine.release caller none addr).machine := by
  cases dealt with
  | refused _ => cases answer
  | placed b system tags events found isLive live perm =>
    cases answer
    exact sound.placed_release caller found isLive live perm sound'
  | lent system unowned => exact (sound'.release_unowned_steady caller none
      ((Except.ok.inj (Except.ok.inj answer)) ▸ unowned)).of_system

/-- Where a block is not moved, either its new place was refused or it has been given back. -/
theorem Sound.elsewhere_steady (sound : m.Sound [] loans) (caller : Caller) {addr : Address}
    {owner : Option PoolId} {known : Option Nat} {target : Target} {request : Request}
    {next : Except Failure Address → Machine → Outcome (Option Address)}
    (refused : ∀ failure after, next (.error failure) after = .ok none after)
    (served : ∀ moved after, next (.ok moved) after =
      after.moveContent caller addr owner known moved request.size)
    (answer : ((m.serve target request).bind next).answer = .ok none) :
    m.Steady ((m.serve target request).bind next).machine := by
  have dealt := sound.serve_dealt target request
  have handed : ∀ addr, (m.serve target request).answer = .ok (.ok addr) → _ :=
    fun addr => (sound.serve target request).handed sound
  generalize m.serve target request = o at dealt handed answer ⊢
  obtain ⟨result, after⟩ := o
  cases result with
  | error fault => cases answer
  | ok result =>
    cases result with
    | error failure =>
      change (next _ _).answer = _ at answer
      show m.Steady (next _ _).machine
      rw [refused]
      exact dealt.steady rfl
    | ok moved =>
      obtain ⟨loans', sound', _⟩ := handed moved rfl
      change (next _ _).answer = _ at answer
      show m.Steady (next _ _).machine
      rw [served] at answer ⊢
      unfold moveContent at answer ⊢
      cases owner with
      | some id =>
        simp only at answer
        generalize Machine.releaseIn _ _ _ _ = released at answer
        obtain ⟨_ | _, _⟩ := released
        · cases answer
        · cases answer
      | none =>
        simp only at answer ⊢
        split at answer
        · cases answer
        · rename_i unknown
          simp only [if_neg unknown, Machine.moveStaged] at answer ⊢
          cases staged : after.system.reallocate? addr request.size with
          | none => exact dealt.release_steady sound sound' caller rfl
          | some found =>
            simp only [staged] at answer
            cases answer

theorem Sound.relocate_steady (sound : m.Sound [] loans) (caller : Caller) (target : Target)
    {addr : Address} {known : Option Nat} {request : Request}
    (answer : (m.relocate caller target addr known request).answer = .ok none) :
    m.Steady (m.relocate caller target addr known request).machine := by
  have ways := m.relocate_ways caller target addr known request
  generalize m.relocate caller target addr known request = o at answer ways ⊢
  cases ways with
  | stays _ => exact .refl m
  | resized owned _ => exact sound.resizeIn_steady owned answer
  | exchanged _ _ _ => cases answer
  | elsewhere _ refused served => exact sound.elsewhere_steady caller refused served answer

/-- Finding out where requests go changes nothing but what the thread remembers to have looked up. -/
theorem target_steady (m : Machine) (caller : Caller) (named : Option PoolId) :
    ∃ threads, (m.target caller named).2 = { m with threads } ∧
      m.Steady { m with threads } := by
  obtain ⟨threads, same⟩ := target_machine m caller named
  refine ⟨threads, same, alike_self _, rfl, rfl, .refl _, rfl, fun thread => ?_⟩
  show (({ m with threads } : Machine).threads thread).current = _
  rw [← same]
  exact target_current m caller named thread

theorem Steady.of_threads {threads : ThreadId → Register} (first : m.Steady { m with threads })
    (second : ({ m with threads } : Machine).Steady after) : m.Steady after :=
  ⟨second.pools, second.roster, second.nextId, second.tags, second.marks,
    fun thread => (second.current thread).trans (first.current thread)⟩

theorem Sound.allocate_steady (sound : m.Sound lost loans) (caller : Caller) (named : Option PoolId)
    (request : Request) {failure : Failure}
    (answer : (m.allocate caller named request).answer = .ok (.error failure)) :
    m.Steady (m.allocate caller named request).machine := by
  obtain ⟨threads, same, first⟩ := target_steady m caller named
  have targeted := sound.withThreads threads
  unfold Machine.allocate at answer ⊢
  simp only [same] at answer ⊢
  exact first.of_threads ((targeted.serve_dealt _ request).steady answer)

theorem Sound.resizeBlock_steady (sound : m.Sound lost loans) (id : PoolId) (addr : Address)
    (size : Nat) (answer : (m.resizeBlock id addr size).answer = .ok none) :
    m.Steady (m.resizeBlock id addr size).machine := by
  unfold Machine.resizeBlock at answer ⊢
  by_cases own : m.owner? addr = some id
  · simp only [if_pos own] at answer ⊢
    exact sound.resizeIn_steady own answer
  · simp only [if_neg own] at answer
    cases answer

theorem Sound.directed_steady (sound : m.Sound [] loans) {addr : Address}
    {o : Outcome (Option Address)} (directed : m.Directed addr o) (answer : o.answer = .ok none) :
    m.Steady o.machine := by
  cases directed with
  | marked _ => cases answer
  | @relocated threads caller target known request current =>
    have first : m.Steady { m with threads } := ⟨alike_self _, rfl, rfl, .refl _, rfl, current⟩
    exact first.of_threads ((sound.withThreads threads).relocate_steady caller target answer)

/-- A value that finds no place is dropped, and nothing else happens. -/
theorem box_of_failure (caller : Caller) (named : Option PoolId) (value : Value) {failure : Failure}
    (answer : (m.box caller named value).answer = .ok (.error failure)) :
    ∃ request, (m.allocate caller named request).answer = .ok (.error failure) ∧
      (m.box caller named value).machine =
        (m.allocate caller named request).machine.dropValue value := by
  refine ⟨value.type.request caller.site, ?_⟩
  unfold Machine.box at answer ⊢
  generalize m.allocate caller named _ = o at answer ⊢
  obtain ⟨result, middle⟩ := o
  cases result with
  | error fault => cases answer
  | ok result =>
    cases result with
    | error other =>
      cases answer
      exact ⟨rfl, rfl⟩
    | ok addr => cases answer

theorem Sound.box_steady (sound : m.Sound lost loans) (caller : Caller) (named : Option PoolId)
    (value : Value) {failure : Failure}
    (answer : (m.box caller named value).answer = .ok (.error failure)) :
    m.Steady (m.box caller named value).machine := by
  obtain ⟨request, refused, same⟩ := box_of_failure caller named value answer
  obtain ⟨pools, roster, nextId, tags, marks, current⟩ :=
    sound.allocate_steady caller named request refused
  rw [same]
  exact ⟨pools, roster, nextId, tags, marks, current⟩

end Machine

end PooledMemory
