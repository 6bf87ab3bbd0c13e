import PooledMemory.Proofs.Heap.Remnants
import PooledMemory.Proofs.Machine.Interference

namespace PooledMemory

namespace Machine

/-- A pool has issued a block with this byte. -/
def inBlock (m : Machine) (x : Address) : Bool := m.pools.any (·.heap.inBlock x)

/-- A pool has a segment with this byte. -/
def inSegment (m : Machine) (x : Address) : Bool := m.pools.any (·.heap.inSegment x)

/-- A byte of a segment that is in no block. It is free or parked. -/
structure Idle (m : Machine) (x : Address) : Prop where
  inSegment : m.inSegment x = true
  unused : m.inBlock x = false

/-- What there is in a segment before anybody writes to it. A new one has what it is delivered with. -/
def remains (m : Machine) (x : Address) : UInt8 :=
  if m.inSegment x then m.system.bytes x else m.system.fresh x

/-- An operation overwrites memory of segments that goes out of use, and it leaves everything else in
them as it is, apart from what it fills in blocks in use. -/
structure Cleans (m : Machine) (filled : Address → Prop) (after : Machine) : Prop where
  untouched : ∀ x, after.inSegment x = true → (m.inBlock x = true → after.inBlock x = true) →
    ¬ filled x → after.system.bytes x = m.remains x
  scrubbed : ∀ x, m.inBlock x = true → after.Idle x → after.system.bytes x = poisonByte
  obtained : ∀ x, m.inSegment x = false → after.inSegment x = true → m.system.Delivers x
  filled : ∀ x, filled x → after.inSegment x = true → after.inBlock x = true

/-- An operation that does the same, and that brings nothing into use. -/
structure Spends (m : Machine) (filled : Address → Prop) (after : Machine) : Prop where
  inSegment : ∀ x, after.inSegment x = true → m.inSegment x = true
  inBlock : ∀ x, after.inSegment x = true → after.inBlock x = true → m.inBlock x = true
  kept : ∀ x, after.inSegment x = true → (m.inBlock x = true → after.inBlock x = true) →
    ¬ filled x → after.system.bytes x = m.system.bytes x
  scrubbed : ∀ x, m.inBlock x = true → after.Idle x → after.system.bytes x = poisonByte
  filled : ∀ x, filled x → after.inSegment x = true → m.inBlock x = true

/-- Nothing is left of what was in blocks in memory that goes out of use, and what is in no block is
not written to. -/
def Tidies (m after : Machine) : Prop := m.Cleans (after.inBlock · = true) after

/-- A byte of a segment that comes into use. -/
structure Gained (m after : Machine) (x : Address) : Prop where
  inSegment : after.inSegment x = true
  unused : m.inBlock x = false
  used : after.inBlock x = true

/-- What comes into use is as it was, apart from what is filled. -/
def Gains (m : Machine) (filled : Address → Prop) (after : Machine) : Prop :=
  ∀ x, m.Gained after x → ¬ filled x → after.system.bytes x = m.remains x

variable {m middle after : Machine} {lost : List (Address × PoolId)} {loans : List SystemBlock}
  {id : PoolId} {p : Pool} {x : Address} {filled filled' : Address → Prop}

theorem Cleans.mono (cleans : m.Cleans filled after) (fewer : ∀ x, filled x → filled' x)
    (used : ∀ x, filled' x → after.inSegment x = true → after.inBlock x = true) :
    m.Cleans filled' after where
  untouched := fun x inside stays unfilled =>
    cleans.untouched x inside stays fun there => unfilled (fewer x there)
  scrubbed := cleans.scrubbed
  obtained := cleans.obtained
  filled := used

theorem Cleans.tidies (cleans : m.Cleans filled after) : m.Tidies after where
  untouched := fun x inside stays unfilled =>
    cleans.untouched x inside stays fun there => unfilled (cleans.filled x there inside)
  scrubbed := cleans.scrubbed
  obtained := cleans.obtained
  filled := fun _ used _ => used

theorem Gains.mono (gains : m.Gains filled after) (fewer : ∀ x, filled x → filled' x) :
    m.Gains filled' after := fun x gained unfilled =>
  gains x gained fun there => unfilled (fewer x there)

theorem Cleans.gains (cleans : m.Cleans filled after) : m.Gains filled after :=
  fun x gained => cleans.untouched x gained.inSegment fun _ => gained.used

/-- The operation only gives back, forgets and overwrites. -/
theorem Cleans.spends (cleans : m.Cleans (fun _ => False) after)
    (inSegment : ∀ x, after.inSegment x = true → m.inSegment x = true)
    (inBlock : ∀ x, after.inSegment x = true → after.inBlock x = true → m.inBlock x = true) :
    m.Spends (fun _ => False) after where
  inSegment := inSegment
  inBlock := inBlock
  kept := by
    intro x inside stays unfilled
    have same := cleans.untouched x inside stays unfilled
    rwa [remains, inSegment x inside] at same
  scrubbed := cleans.scrubbed
  filled := nofun

theorem Spends.cleans (spends : m.Spends (fun _ => False) after) :
    m.Cleans (fun _ => False) after where
  untouched := by
    intro x inside stays unfilled
    rw [remains, spends.inSegment x inside]
    exact spends.kept x inside stays unfilled
  scrubbed := spends.scrubbed
  obtained := fun x outside inside => nomatch outside.symm.trans (spends.inSegment x inside)
  filled := nofun

theorem Spends.trans (first : m.Spends filled middle) (second : middle.Spends filled' after) :
    m.Spends (fun x => filled x ∨ filled' x) after where
  inSegment := fun x inside => first.inSegment x (second.inSegment x inside)
  inBlock := fun x inside used =>
    first.inBlock x (second.inSegment x inside) (second.inBlock x inside used)
  kept := by
    intro x inside stays unfilled
    have before := second.inSegment x inside
    have still : middle.inBlock x = true → after.inBlock x = true :=
      fun used => stays (first.inBlock x before used)
    have old : m.inBlock x = true → middle.inBlock x = true :=
      fun used => second.inBlock x inside (stays used)
    exact (second.kept x inside still fun there => unfilled (.inr there)).trans
      (first.kept x before old fun there => unfilled (.inl there))
  scrubbed := by
    intro x used idle
    have inside := idle.inSegment
    cases still : middle.inBlock x with
    | true => exact second.scrubbed x still idle
    | false =>
      have gone := first.scrubbed x used ⟨second.inSegment x inside, still⟩
      refine (second.kept x inside (by simp [still]) fun there => ?_).trans gone
      exact nomatch still.symm.trans (second.filled x there inside)
  filled := by
    rintro x (there | there) inside
    · exact first.filled x there (second.inSegment x inside)
    · exact first.inBlock x (second.inSegment x inside) (second.filled x there inside)

theorem Spends.false_trans (first : m.Spends (fun _ => False) middle)
    (second : middle.Spends filled after) : m.Spends filled after := by
  simpa using first.trans second

theorem Spends.trans_false (first : m.Spends filled middle)
    (second : middle.Spends (fun _ => False) after) : m.Spends filled after := by
  simpa using first.trans second

theorem Spends.tidies (spends : m.Spends filled after) : m.Tidies after where
  untouched := by
    intro x inside stays unused
    rw [remains, spends.inSegment x inside]
    exact spends.kept x inside stays fun there => unused (stays (spends.filled x there inside))
  scrubbed := spends.scrubbed
  obtained := fun x outside inside => nomatch outside.symm.trans (spends.inSegment x inside)
  filled := fun _ used _ => used

theorem Spends.gains (spends : m.Spends filled after) : m.Gains filled' after :=
  fun x gained _ =>
    nomatch gained.unused.symm.trans (spends.inBlock x gained.inSegment gained.used)

/-- What comes into use in a first step is still there after a second one. -/
theorem Cleans.gains_spends (cleans : m.Cleans filled middle) (spends : middle.Spends filled' after) :
    m.Gains (fun x => filled x ∨ filled' x) after := by
  rintro x ⟨inside, unused, used⟩ unfilled
  exact (spends.kept x inside (fun _ => used) fun there => unfilled (.inr there)).trans
    (cleans.untouched x (spends.inSegment x inside) (by simp [unused]) fun there =>
      unfilled (.inl there))

theorem inSegment_of_pools (pools : after.pools = m.pools) : after.inSegment x = m.inSegment x := by
  rw [Machine.inSegment, pools, Machine.inSegment]

theorem inBlock_of_pools (pools : after.pools = m.pools) : after.inBlock x = m.inBlock x := by
  rw [Machine.inBlock, pools, Machine.inBlock]

/-- The pools stay as they are. -/
theorem Spends.of_pools (pools : after.pools = m.pools)
    (bytes : ∀ x, m.inSegment x = true → ¬ filled x → after.system.bytes x = m.system.bytes x)
    (used : ∀ x, filled x → m.inSegment x = true → m.inBlock x = true) : m.Spends filled after where
  inSegment := fun _ inside => inSegment_of_pools pools ▸ inside
  inBlock := fun _ _ used => inBlock_of_pools pools ▸ used
  kept := fun x inside _ unfilled => bytes x (inSegment_of_pools pools ▸ inside) unfilled
  scrubbed := fun _ used idle =>
    nomatch used.symm.trans ((inBlock_of_pools pools).symm.trans idle.unused)
  filled := fun x there inside => used x there (inSegment_of_pools pools ▸ inside)

theorem Spends.aside (pools : after.pools = m.pools) (bytes : after.system.bytes = m.system.bytes) :
    m.Spends (fun _ => False) after :=
  .of_pools pools (fun x _ _ => congrFun bytes x) nofun

/-- Blocks in use are filled once an operation is through. -/
theorem Cleans.fill (cleans : m.Cleans filled middle) (pools : after.pools = middle.pools)
    (bytes : ∀ x, middle.inSegment x = true → ¬ filled' x →
      after.system.bytes x = middle.system.bytes x)
    (used : ∀ x, filled' x → middle.inSegment x = true → middle.inBlock x = true) :
    m.Cleans (fun x => filled x ∨ filled' x) after := by
  have inSegment : ∀ x, after.inSegment x = middle.inSegment x := fun _ => inSegment_of_pools pools
  have inBlock : ∀ x, after.inBlock x = middle.inBlock x := fun _ => inBlock_of_pools pools
  refine ⟨fun x inside stays unfilled => ?_, fun x used' idle => ?_, fun x outside inside => ?_, ?_⟩
  · rw [inSegment] at inside
    rw [inBlock] at stays
    exact (bytes x inside fun there => unfilled (.inr there)).trans
      (cleans.untouched x inside stays fun there => unfilled (.inl there))
  · have inside := (inSegment x).symm.trans idle.inSegment
    have unused := (inBlock x).symm.trans idle.unused
    refine (bytes x inside fun there => ?_).trans (cleans.scrubbed x used' ⟨inside, unused⟩)
    exact nomatch unused.symm.trans (used x there inside)
  · exact cleans.obtained x outside (inSegment x ▸ inside)
  · rintro x (there | there) inside
    · exact (inBlock x).trans (cleans.filled x there (inSegment x ▸ inside))
    · exact (inBlock x).trans (used x there (inSegment x ▸ inside))

theorem Cleans.aside (cleans : m.Cleans filled middle) (pools : after.pools = middle.pools)
    (bytes : after.system.bytes = middle.system.bytes) : m.Cleans filled after := by
  have nothing : m.Cleans (fun x => filled x ∨ False) after :=
    cleans.fill pools (fun x _ _ => congrFun bytes x) nofun
  simpa using nothing

theorem Sound.inSegment_eq (sound : m.Sound lost loans) (found : m.pool? id = some p) (x : Address) :
    m.inSegment x = (p.heap.inSegment x || (m.others id).any (·.heap.inSegment x)) :=
  (sound.pools_perm found).any_eq

theorem Sound.inBlock_eq (sound : m.Sound lost loans) (found : m.pool? id = some p) (x : Address) :
    m.inBlock x = (p.heap.inBlock x || (m.others id).any (·.heap.inBlock x)) :=
  (sound.pools_perm found).any_eq

/-- What the other pools have in segments is none of the memory of a heap beside them. -/
theorem elsewhere_of_others {heap : Heap} {system : SystemHeap}
    (sound : heap.Sound system (m.rest id ++ loans) [])
    (inside : (m.others id).any (·.heap.inSegment x) = true) :
    heap.inSegment x = false ∧ heap.inBlock x = false := by
  obtain ⟨q, other, has⟩ := List.any_eq_true.1 inside
  obtain ⟨f, member, within⟩ := Heap.inSegment_iff.1 has
  have holding : f.segmentBlock ∈ q.heap.holdings :=
    List.mem_append_left _ (List.mem_map_of_mem member)
  exact sound.not_mine (List.mem_append_left _ (List.mem_flatMap.2 ⟨q, other, holding⟩)) within

/-- No more are the blocks of the other pools. -/
theorem Sound.inSegment_of_others {heap : Heap} {system : SystemHeap} (sound : m.Sound lost loans)
    (heapSound : heap.Sound system (m.rest id ++ loans) [])
    (used : (m.others id).any (·.heap.inBlock x) = true) : heap.inSegment x = false := by
  obtain ⟨q, other, has⟩ := List.any_eq_true.1 used
  have own := sound.heap (sound.pool?_eq (List.mem_of_mem_filter other))
  obtain ⟨s, holding, within⟩ := own.holding_of_inBlock has
  exact (heapSound.not_mine (List.mem_append_left _ (List.mem_flatMap.2 ⟨q, other, holding⟩))
    within).1

theorem Sound.held_of_inSegment (sound : m.Sound lost loans) (inside : m.inSegment x = true) :
    m.system.Holds x := by
  obtain ⟨q, member, has⟩ := List.any_eq_true.1 inside
  exact (sound.heap (sound.pool?_eq member)).held_of_inSegment has

/-- What the system heap has handed to a caller is in no segment. -/
theorem Sound.not_inSegment_of_loan {s : SystemBlock} (sound : m.Sound lost loans)
    (loaned : s ∈ loans) (has : s.span.has x = true) : m.inSegment x = false := by
  refine Bool.eq_false_iff.2 fun inside => ?_
  obtain ⟨q, member, segment⟩ := List.any_eq_true.1 inside
  have heap := sound.heap (sound.pool?_eq member)
  exact nomatch segment.symm.trans (heap.not_mine (List.mem_append_right _ loaned) has).1

/-- Exchanging it writes to no segment. -/
theorem Sound.exchange_inSegment {addr moved size : Nat} {system : SystemHeap}
    (sound : m.Sound lost loans) (loaned : addr ∈ loans.map (·.addr))
    (resized : m.system.reallocate? addr size = some (moved, system))
    (inside : m.inSegment x = true) : system.bytes x = m.system.bytes x := by
  obtain ⟨s, inLoans, rfl⟩ := List.mem_map.1 loaned
  have stored : s ∈ m.system.blocks := sound.held.mem_iff.2 (List.mem_append_right _ inLoans)
  refine sound.below.resize_held resized (sound.held_of_inSegment inside) fun b stored' start has => ?_
  obtain rfl := sound.below.eq_of_addr stored' stored start
  exact nomatch inside.symm.trans (sound.not_inSegment_of_loan inLoans has)

section Stored

variable {f : Pool → Pool} {heap : Heap} {system : SystemHeap}

theorem Sound.stored_inSegment (sound : m.Sound lost loans) (found : m.pool? id = some p)
    (pools : after.pools = (m.updatePool id f).pools) (stored : (f p).heap = heap) (x : Address) :
    after.inSegment x = (heap.inSegment x || (m.others id).any (·.heap.inSegment x)) := by
  have perm : after.pools.Perm (f p :: m.others id) := pools ▸ sound.updatePool_perm found f
  rw [← stored]
  exact perm.any_eq

theorem Sound.stored_inBlock (sound : m.Sound lost loans) (found : m.pool? id = some p)
    (pools : after.pools = (m.updatePool id f).pools) (stored : (f p).heap = heap) (x : Address) :
    after.inBlock x = (heap.inBlock x || (m.others id).any (·.heap.inBlock x)) := by
  have perm : after.pools.Perm (f p :: m.others id) := pools ▸ sound.updatePool_perm found f
  rw [← stored]
  exact perm.any_eq

/-- A heap operation leaves the memory of the other pools alone. -/
theorem Sound.stored_cleans (sound : m.Sound lost loans) (found : m.pool? id = some p)
    (heapSound : heap.Sound system (m.rest id ++ loans) [])
    (cleans : p.heap.Cleans m.system filled heap system)
    (pools : after.pools = (m.updatePool id f).pools) (stored : (f p).heap = heap)
    (bytes : after.system.bytes = system.bytes) : m.Cleans filled after := by
  have inSegment := sound.stored_inSegment found pools stored
  have inBlock := sound.stored_inBlock found pools stored
  refine ⟨fun x inside stays unfilled => ?_, fun x used idle => ?_, fun x outside inside => ?_,
    fun x there _ => by rw [inBlock, cleans.filled x there, Bool.true_or]⟩
  · rw [bytes, remains, sound.inSegment_eq found]
    cases others : (m.others id).any (·.heap.inSegment x) with
    | true =>
      have held := sound.held_of_inSegment (x := x)
        (by rw [sound.inSegment_eq found, others, Bool.or_true])
      rw [Bool.or_true]
      exact cleans.outside x held (elsewhere_of_others (sound.heap found) others).2
        (elsewhere_of_others heapSound others).2
    | false =>
      rw [inSegment, others, Bool.or_false] at inside
      rw [Bool.or_false]
      refine cleans.untouched x inside (fun used => ?_) unfilled
      rw [sound.inBlock_eq found, used, inBlock, Bool.true_or] at stays
      refine (Bool.or_eq_true_iff.1 (stays rfl)).resolve_right fun taken => ?_
      exact nomatch inside.symm.trans (sound.inSegment_of_others heapSound taken)
  · have unused := idle.unused
    have inside := idle.inSegment
    rw [inBlock, Bool.or_eq_false_iff] at unused
    rw [sound.inBlock_eq found, unused.2, Bool.or_false] at used
    rw [inSegment] at inside
    cases others : (m.others id).any (·.heap.inSegment x) with
    | true => exact nomatch used.symm.trans (elsewhere_of_others (sound.heap found) others).2
    | false =>
      rw [others, Bool.or_false] at inside
      rw [bytes]
      exact cleans.scrubbed x used ⟨inside, unused.1⟩
  · rw [sound.inSegment_eq found, Bool.or_eq_false_iff] at outside
    rw [inSegment, outside.2, Bool.or_false] at inside
    exact cleans.obtained x outside.1 inside

/-- A heap operation that obtains no segment and issues no block is one of its pool, too. -/
theorem Sound.stored_spends (sound : m.Sound lost loans) (found : m.pool? id = some p)
    (heapSound : heap.Sound system (m.rest id ++ loans) [])
    (cleans : p.heap.Cleans m.system (fun _ => False) heap system)
    (segments : ∀ x, heap.inSegment x = true → p.heap.inSegment x = true)
    (fewer : heap.live ⊆ p.heap.live) (pools : after.pools = (m.updatePool id f).pools)
    (stored : (f p).heap = heap) (bytes : after.system.bytes = system.bytes) :
    m.Spends (fun _ => False) after := by
  have inSegment := sound.stored_inSegment found pools stored
  have inBlock := sound.stored_inBlock found pools stored
  refine (sound.stored_cleans found heapSound cleans pools stored bytes).spends (fun x inside => ?_)
    fun x _ used => ?_
  · rw [inSegment] at inside
    rw [sound.inSegment_eq found]
    exact Bool.or_eq_true_iff.2 ((Bool.or_eq_true_iff.1 inside).imp_left (segments x))
  · rw [inBlock] at used
    rw [sound.inBlock_eq found]
    exact Bool.or_eq_true_iff.2
      ((Bool.or_eq_true_iff.1 used).imp_left (Heap.inBlock_of_subset fewer))

end Stored

/-- A byte of a segment that is in a block in use is in one that a pool has issued. -/
theorem Sound.inBlock_of_inUse (sound : m.Sound lost loans) {b : Block} (used : m.InUse b)
    (has : b.span.has x = true) (inside : m.inSegment x = true) : m.inBlock x = true := by
  rcases List.mem_append.1 (sound.inUse_iff.1 used) with own | lent
  · obtain ⟨p, inPools, issued⟩ := List.mem_flatMap.1 own
    obtain ⟨c, live, rfl⟩ := mem_issued.1 issued
    exact List.any_eq_true.2 ⟨p, inPools, Heap.inBlock_iff.2 ⟨c, live, has⟩⟩
  · obtain ⟨c, loaned, rfl⟩ := List.mem_map.1 lent
    exact nomatch inside.symm.trans (sound.not_inSegment_of_loan loaned has)

/-- Writing into a block in use changes nothing else. -/
theorem Sound.write_spends {b : Block} {addr len : Nat} (sound : m.Sound lost loans)
    (used : m.InUse b) (inside : (⟨addr, len⟩ : Span).Within b.span) (content : Nat → UInt8) :
    m.Spends ((⟨addr, len⟩ : Span).has · = true) (m.write addr len content) :=
  .of_pools rfl (fun _ _ outside => write_bytes outside) fun _ has =>
    sound.inBlock_of_inUse used (inside.has has)

theorem allocateIn_bytes {request : Request} {step : HeapStep (Option Address)}
    (found : m.pool? id = some p) (live : p.phase = .live)
    (allocated : p.heap.allocate m.system request.size request.align = .ok step)
    (unzeroed : request.zeroed = false) :
    (m.allocateIn id request).machine.system.bytes = step.system.bytes := by
  unfold Machine.allocateIn
  simp only [found, live, ne_eq, not_true_eq_false, if_false, allocated, unzeroed,
    Bool.false_eq_true]
  cases step.answer with
  | none => rfl
  | some addr =>
    cases tagged : (m.putHeap id step.heap step.system).tags.insert addr ⟨id, request.origin⟩ with
    | error twice =>
      simp only [tagged]
      rfl
    | ok tags =>
      simp only [tagged]
      split
      · rfl
      · rfl

/-- A pool issues memory as it is, unless it is asked to zero it. -/
theorem Sound.allocateIn_cleans (sound : m.Sound lost loans) (id : PoolId) (request : Request) :
    m.Cleans (fun x => request.zeroed = true ∧ (m.allocateIn id request).machine.inBlock x = true)
      (m.allocateIn id request).machine := by
  have placing := sound.allocateIn_placing id request
  have unzeroed : request.zeroed = false → ∀ p step, m.pool? id = some p → p.phase = .live →
      p.heap.allocate m.system request.size request.align = .ok step →
      (m.allocateIn id request).machine.system.bytes = step.system.bytes :=
    fun unzeroed p step found live allocated => allocateIn_bytes found live allocated unzeroed
  generalize m.allocateIn id request = o at placing unzeroed ⊢
  cases placing with
  | unavailable => exact (Spends.aside rfl rfl).cleans.mono nofun fun _ there _ => there.2
  | @refused p step found live allocated grants answer after =>
    have cleans : m.Cleans (fun _ => False) (m.putHeap id step.heap step.system) :=
      sound.stored_cleans found grants.sound ((sound.heap found).allocate_cleans allocated)
        rfl rfl rfl
    exact cleans.mono nofun fun _ there _ => there.2
  | @placed p step addr tags bytes events found live allocated grants answer _ zeroed after =>
    let issued : Machine := m.putHeap id step.heap step.system
    have cleans : m.Cleans (fun _ => False) issued := sound.stored_cleans found grants.sound
      ((sound.heap found).allocate_cleans allocated) rfl rfl rfl
    have fill : m.Cleans (fun x => False ∨ request.zeroed = true ∧ issued.inBlock x = true)
        { m.putHeap id step.heap { step.system with bytes } with tags, events } := by
      refine cleans.fill rfl (fun x _ unfilled => ?_) fun _ there _ => there.2
      cases asked : request.zeroed with
      | false => exact congrFun (unzeroed asked p step found live allocated) x
      | true =>
        obtain ⟨b, rfl, fits, given, _⟩ := grants.granted answer
        have inPools := (pool?_mem (pool?_putHeap step.heap step.system found)).1
        refine zeroed x fun has => unfilled ⟨asked, List.any_eq_true.2 ⟨_, inPools, ?_⟩⟩
        exact Heap.inBlock_iff.2 ⟨b, given ▸ List.mem_cons_self .., Span.has_wider fits has⟩
    exact fill.mono (fun x there => there.resolve_left not_false) fun _ there _ => there.2

/-- The system heap takes no segment for a request that it serves itself. -/
theorem Sound.serveSystem_spends (sound : m.Sound lost loans) (request : Request) :
    m.Spends (fun _ => False) (m.serve .systemHeap request).machine := by
  simp only [Machine.serve]
  cases taken : m.system.allocate? request.size request.align request.zeroed with
  | none => exact .aside rfl rfl
  | some found =>
    exact .of_pools rfl (fun x inside _ =>
      sound.below.take_held taken (sound.held_of_inSegment inside).occupies) fun _ => False.elim

theorem Sound.serve_cleans (sound : m.Sound lost loans) (target : Target) (request : Request) :
    m.Cleans (fun x => request.zeroed = true ∧ (m.serve target request).machine.inBlock x = true)
      (m.serve target request).machine := by
  cases target with
  | pool id => exact sound.allocateIn_cleans id request
  | unavailable id =>
    have aside : m.Spends (fun _ => False) (m.serve (.unavailable id) request).machine :=
      .aside rfl rfl
    exact aside.cleans.mono nofun fun _ there _ => there.2
  | systemHeap =>
    exact (sound.serveSystem_spends request).cleans.mono nofun fun _ there _ => there.2

/-- The first bytes of the place that a block has moved to, if it has. -/
def Carried (answer : Except Fault (Option Address)) (len : Nat) (x : Address) : Prop :=
  ∃ moved, answer = .ok (some moved) ∧ (⟨moved, len⟩ : Span).has x = true

/-- How much of what a block moves to may hold the content of the old place: as much as there was in a
pool, and all that is asked for where only the system heap might tell. -/
def carriedSize (m : Machine) (addr : Address) (size : Nat) : Nat :=
  match m.owner? addr with
  | some id => (m.blockSize? id addr).getD 0
  | none => size

theorem Sound.carriedSize_eq {b : Block} (sound : m.Sound lost loans) (used : m.InUse b)
    (own : b.owner = some id) (owned : m.owner? b.addr = some id) (size : Nat) :
    m.carriedSize b.addr size = b.size := by
  simp only [carriedSize, owned, sound.blockSize?_of_inUse used own, Option.getD_some]

/-- What a block is resized to carries the content of the old one, and no more is written. -/
theorem Sound.resizeIn_cleans (sound : m.Sound lost loans) {addr : Address}
    (owned : m.owner? addr = some id) (size : Nat) :
    ∃ filled, m.Cleans filled (m.resizeIn id addr size).machine ∧
      ∀ x, filled x → Carried (m.resizeIn id addr size).answer (m.carriedSize addr size) x := by
  have resizing := sound.resizeIn_resizing owned size
  generalize m.resizeIn id addr size = o at resizing
  cases resizing with
  | @refused p b step found live resized heapSound answer _ after =>
    have heap := sound.heap found
    have cleans : p.heap.Cleans m.system (fun _ => False) step.heap step.system := by
      cases rounded : chunkSize? size with
      | none =>
        rw [Heap.resize_of_none (.inr rounded)] at resized
        cases resized
        exact .refl p.heap m.system
      | some chunk =>
        refine (heap.resize_cleans live rounded resized).mono ?_ nofun
        rintro x ⟨r, given, _⟩
        cases answer.symm.trans given
    have stored : m.Cleans (fun _ => False) (m.putHeap id step.heap step.system) :=
      sound.stored_cleans found heapSound cleans rfl rfl rfl
    exact ⟨_, stored, nofun⟩
  | @resized p b chunk step r tags found live rounded resized settles answer after =>
    obtain ⟨used, rfl⟩ := inUse_of_live found live
    have cleans : m.Cleans (Heap.carried b chunk step.answer)
        { m.putHeap id step.heap step.system with tags } :=
      sound.stored_cleans found settles.sound
        ((sound.heap found).resize_cleans live rounded resized) rfl rfl rfl
    rw [sound.carriedSize_eq used rfl owned]
    refine ⟨_, cleans, ?_⟩
    rintro x ⟨r', given, has⟩
    cases answer.symm.trans given
    exact ⟨r.addr, rfl, Span.has_wider (Nat.min_le_left ..) has⟩

end Machine

end PooledMemory
