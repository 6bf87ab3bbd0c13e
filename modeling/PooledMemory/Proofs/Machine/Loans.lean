import PooledMemory.Proofs.Heap.Returns
import PooledMemory.Proofs.Machine.Effects

namespace PooledMemory

theorem SystemBlock.lent_injective : Function.Injective SystemBlock.lent := by
  rintro ⟨addr, size, align⟩ ⟨_, _, _⟩ same
  cases same
  rfl

namespace Machine

variable {m : Machine} {lost : List (Address × PoolId)} {loans : List SystemBlock} {id : PoolId}
  {p : Pool}

theorem Sound.write_change (sound : m.Sound lost loans) (addr : Address) (len : Nat)
    (content : Nat → UInt8) : Change m (m.write addr len content) [] [] [⟨addr, len⟩] :=
  sound.still (sound.withBytes _) [] [] loans rfl rfl rfl (.refl _) (.refl _)
    fun _ _ _ outside => write_bytes (outside _ (List.mem_singleton_self _))

theorem Sound.untag_change (sound : m.Sound lost loans) {addr : Address}
    (owned : m.owner? addr = some id) : Change m (m.untag addr) [] [] [] :=
  sound.aside (sound.untag owned) rfl rfl rfl rfl

theorem Sound.lend_change {system : SystemHeap} {size align addr : Nat} {zeroed : Bool}
    (sound : m.Sound lost loans) (filled : 0 < size)
    (taken : m.system.take? size align zeroed = some (addr, system)) :
    Change m { m with system } [] [⟨none, addr, size, max align granule⟩] [] :=
  sound.still (sound.takeLoan filled taken) [] [⟨addr, size, max align granule⟩] loans rfl rfl rfl
    (.refl _) (.refl _) fun _ held _ _ => sound.below.take_held taken held.occupies

theorem Sound.giveBack_change {b : SystemBlock} (sound : m.Sound lost (b :: loans)) :
    Change m (m.releaseToSystem b.addr) [b.lent] [] [] :=
  sound.still sound.returnLoan [b] [] loans rfl rfl rfl (.refl _) (.refl _)
    fun _ _ _ _ => rfl

/-- A block of the system heap gives way to one of another size with the same content. -/
theorem Sound.exchange_change {b : SystemBlock} {system : SystemHeap} {size moved : Nat}
    (sound : m.Sound lost (b :: loans))
    (resized : m.system.reallocate? b.addr size = some (moved, system)) :
    ∃ new : SystemBlock, new.addr = moved ∧ new.size = max size 1 ∧
      { m with system }.Sound lost (new :: loans) ∧
      Change m { m with system } [b.lent] [new.lent] [] ∧
      ∀ i, i < m.system.promised b → i < size →
        system.bytes (moved + i) = m.system.bytes (b.addr + i) := by
  have filled : 0 < max size 1 := by omega
  have stored : b ∈ m.system.blocks :=
    sound.held.mem_iff.2 (List.mem_append_right _ (List.mem_cons_self ..))
  obtain ⟨below, blocks⟩ := sound.below.resize filled (sound.held.trans List.perm_middle) resized
  have sound' : { m with system }.Sound lost (⟨moved, max size 1, max granule granule⟩ :: loans) :=
    sound.withSystem below (blocks.trans List.perm_middle.symm)
  refine ⟨_, rfl, rfl, sound', ?_, fun i inOld inNew => ?_⟩
  · refine sound.still sound' [b] [⟨moved, max size 1, max granule granule⟩] loans rfl rfl rfl
      (.refl _) (.refl _) fun x held outside _ => sound.below.resize_held resized held
        fun c stored' start => ?_
    obtain rfl := sound.below.eq_of_addr stored' stored start
    exact outside c (List.mem_append_left _ (List.mem_singleton_self c))
  · exact sound.below.resize_content stored resized inOld
      (Nat.lt_of_lt_of_le inNew (Nat.le_max_left _ _))

theorem Sound.allocateIn_lends (sound : m.Sound lost loans) (id : PoolId) (request : Request) :
    m.system.Lends (m.allocateIn id request).machine.system := by
  have placing := sound.allocateIn_placing id request
  generalize m.allocateIn id request = o at placing
  cases placing with
  | unavailable => exact .refl m.system
  | refused _ _ allocated _ _ _ => exact Heap.allocate_lends allocated
  | placed _ _ _ _ _ allocated _ _ _ _ _ => exact (Heap.allocate_lends allocated).withBytes _

/-- Whoever serves a request, what the system heap does in one way or another stays as it is. -/
theorem Sound.serve_lends (sound : m.Sound lost loans) (target : Target) (request : Request) :
    m.system.Lends (m.serve target request).machine.system := by
  cases target with
  | pool id => exact sound.allocateIn_lends id request
  | unavailable id => exact .refl m.system
  | systemHeap =>
    simp only [Machine.serve]
    cases taken : m.system.allocate? request.size request.align request.zeroed with
    | none => exact .refl m.system
    | some found => exact SystemHeap.take_lends taken

/-- No request overwrites what the system heap has handed to a caller, if only as spare bytes. -/
theorem Sound.serve_held (sound : m.Sound lost loans) {s : SystemBlock} (loaned : s ∈ loans)
    (target : Target) (request : Request) {x : Address} (has : (m.system.reach s).has x = true) :
    (m.serve target request).machine.system.bytes x = m.system.bytes x := by
  have occupied : m.system.Occupies x :=
    ⟨s, sound.held.mem_iff.2 (List.mem_append_right _ loaned), has⟩
  cases target with
  | pool id =>
    simp only [Machine.serve]
    have placing := sound.allocateIn_placing id request
    generalize m.allocateIn id request = o at placing
    cases placing with
    | unavailable => rfl
    | refused _ _ allocated _ _ _ => exact Heap.allocate_held sound.below allocated occupied
    | @placed p step addr _ bytes _ _ _ allocated grants answer _ zeroed _ =>
      obtain ⟨b, rfl, fits, live, _⟩ := grants.granted answer
      rw [← (Heap.allocate_lends allocated).reach] at has
      have clear := grants.sound.clear_of_others (live ▸ List.mem_cons_self ..)
        (List.mem_append_right _ loaned) has
      exact (zeroed x fun inside => clear (Span.has_wider fits inside)).trans
        (Heap.allocate_held sound.below allocated occupied)
  | unavailable id => rfl
  | systemHeap =>
    simp only [Machine.serve]
    cases taken : m.system.allocate? request.size request.align request.zeroed with
    | none => rfl
    | some found => exact sound.below.take_held taken occupied

theorem Sound.serve_supplied (sound : m.Sound lost loans) (target : Target) (request : Request) :
    Supplied m target.owner request (m.serve target request) := by
  have refused : Change m m [] [] [] := sound.aside sound rfl rfl rfl rfl
  cases target with
  | pool id => exact sound.allocateIn_supplied id request
  | unavailable id => exact .refused refused
  | systemHeap =>
    simp only [Machine.serve]
    cases taken : m.system.allocate? request.size request.align request.zeroed with
    | none => exact .refused refused
    | some found =>
      obtain ⟨addr, system⟩ := found
      have filled : 0 < max request.size 1 := by omega
      exact .supplied (b := ⟨none, addr, max request.size 1, max request.align granule⟩)
        (sound.lend_change filled taken) rfl (Nat.le_max_left _ _)

theorem holding_of_contains {h : Heap} {addr : Address} (inside : h.contains addr = true) :
    ∃ b ∈ h.holdings, b.span.has addr = true := by
  rcases Bool.or_eq_true_iff.1 inside with found | own
  · obtain ⟨i, index⟩ := Option.isSome_iff_exists.1 found
    obtain ⟨s, atIndex, starts⟩ := Heap.segmentIndex?_mem index
    have framed : s.frame ∈ h.segments.map (·.frame) :=
      List.mem_map_of_mem (List.mem_of_getElem? atIndex)
    exact ⟨s.frame.segmentBlock, List.mem_append_left _ (List.mem_map_of_mem framed),
      Span.has_iff.2 (Segment.contains_iff.1 starts)⟩
  · obtain ⟨b, live, test⟩ := List.any_eq_true.1 own
    simp only [Bool.and_eq_true, decide_eq_true_eq] at test
    have region : b.region ∈ LiveBlock.regions h.live :=
      List.mem_map_of_mem (List.mem_filter.2 ⟨live, test.1.1⟩)
    exact ⟨b.region, List.mem_append_right _ region, Span.has_iff.2 ⟨test.1.2, test.2⟩⟩

/-- No pool has a block in its memory that the system heap has handed to a caller. -/
theorem Sound.holder?_of_loan (sound : m.Sound lost loans) {addr : Address}
    (loaned : addr ∈ loans.map (·.addr)) : m.holder? addr = none := by
  obtain ⟨c, inLoans, rfl⟩ := List.mem_map.1 loaned
  have stored : c ∈ m.system.blocks := sound.held.mem_iff.2 (List.mem_append_right _ inLoans)
  have notInside : ∀ p ∈ m.pools, ¬ p.heap.contains c.addr = true := by
    intro p inPools inside
    obtain ⟨b, holding, has⟩ := holding_of_contains inside
    have held : b ∈ m.system.blocks :=
      sound.held.mem_iff.2 (List.mem_append_left _ (List.mem_flatMap.2 ⟨p, inPools, holding⟩))
    have different : b ≠ c := fun same =>
      (sound.mem_loans_iff.1 inLoans).2 p inPools (same ▸ holding)
    have own : c.span.has c.addr = true :=
      Span.has_iff.2 ⟨Nat.le_refl _, Nat.lt_add_of_pos_right (sound.below.filled c stored)⟩
    exact (sound.below.apart.forall held stored different).not_has has own
  have missing : m.listedPools.find? (·.heap.contains c.addr) = none := by
    refine List.find?_eq_none.2 fun p listed => ?_
    obtain ⟨id, _, found⟩ := List.mem_filterMap.1 listed
    exact notInside p (pool?_mem found).1
  rw [holder?, missing]
  rfl

theorem Sound.unowned_of_loan (sound : m.Sound lost loans) {addr : Address}
    (loaned : addr ∈ loans.map (·.addr)) : m.owner? addr = none := by
  cases owned : m.owner? addr with
  | none => rfl
  | some id =>
    obtain ⟨p, b, found, live⟩ := sound.live_of_owner? owned
    exact absurd (sound.mem_livePairs_iff.2 ⟨p, b, found, live⟩) (sound.not_live_of_loan loaned)

/-- What the system heap has handed to a caller goes back there. -/
theorem Sound.release_loaned (sound : m.Sound lost loans) (caller : Caller)
    (expected : Option PoolId) {addr : Address} (loaned : addr ∈ loans.map (·.addr)) :
    m.release caller expected addr = .ok () (m.releaseToSystem addr) := by
  refine (sound.release_of_unowned caller expected (sound.unowned_of_loan loaned)).resolve_right ?_
  rintro ⟨holder, inside, _⟩
  rw [sound.holder?_of_loan loaned] at inside
  cases inside

theorem inUse_of_loan {b : SystemBlock} (sound : m.Sound lost loans) (loaned : b ∈ loans) :
    m.InUse b.lent :=
  sound.inUse_iff.2 (List.mem_append_right _ (List.mem_map_of_mem loaned))

/-- A block in use that no pool issued is among those that callers have from the system heap. -/
theorem Sound.exists_loan {b : Block} (sound : m.Sound lost loans) (used : m.InUse b)
    (unowned : b.owner = none) : ∃ s ∈ loans, s.lent = b := by
  rcases List.mem_append.1 (sound.inUse_iff.1 used) with own | lent
  · obtain ⟨p, _, issued⟩ := List.mem_flatMap.1 own
    obtain ⟨c, _, rfl⟩ := mem_issued.1 issued
    cases unowned
  · exact List.mem_map.1 lent

theorem Sound.mem_loans_iff_inUse {s : SystemBlock} (sound : m.Sound lost loans) :
    s ∈ loans ↔ m.InUse s.lent := by
  refine ⟨inUse_of_loan sound, fun used => ?_⟩
  obtain ⟨t, loaned, same⟩ := sound.exists_loan used rfl
  obtain rfl : t = s := SystemBlock.lent_injective same
  exact loaned

theorem Sound.loan_of_inUse {b : SystemBlock} (sound : m.Sound lost loans) (used : m.InUse b.lent) :
    ∃ others, m.Sound lost (b :: others) :=
  ⟨loans.erase b, sound.withLoans (List.perm_cons_erase (sound.mem_loans_iff_inUse.2 used))⟩

/-- A block that a caller has goes out of use when it is released, and the call is not stopped. -/
theorem Sound.release_change (sound : m.Sound lost loans) (caller : Caller)
    (expected : Option PoolId) {addr : Address} (handed : m.Handed loans addr)
    (named : ∀ id, m.owner? addr = some id → expected.all (· == id) = true) :
    ∃ (b : Block) (untagged after : Machine), m.release caller expected addr = .ok () after ∧
      m.InUse b ∧ b.addr = addr ∧ Change m untagged [] [] [] ∧ Change untagged after [b] [] [] := by
  rcases handed with ⟨id, owned⟩ | loaned
  · have untag := sound.untag_change owned
    obtain ⟨answer, _⟩ := (sound.untag owned).releaseIn caller
    obtain ⟨b, used, _, start, change⟩ := (sound.untag owned).releaseIn_change caller
    refine ⟨b, m.untag addr, _, ?_, ?_, start, untag, change⟩
    · rw [sound.release_recorded caller owned (named _ owned), Outcome.ok, ← answer]
    · simpa using (untag.inUse b).1 used
  · obtain ⟨b, inLoans, rfl⟩ := List.mem_map.1 loaned
    obtain ⟨others, sound'⟩ := sound.loan_of_inUse (inUse_of_loan sound inLoans)
    exact ⟨b.lent, m, m.releaseToSystem b.addr, sound.release_loaned caller expected loaned,
      inUse_of_loan sound inLoans, rfl, sound.aside sound rfl rfl rfl rfl, sound'.giveBack_change⟩

end Machine

end PooledMemory
