import PooledMemory.Proofs.Heap.Returns
import PooledMemory.Proofs.Machine.Phases

namespace PooledMemory

/-- A byte lies in a segment or a region of the heap. -/
def Heap.Holds (h : Heap) (x : Address) : Prop := ∃ b ∈ h.holdings, b.span.has x = true

instance (h : Heap) (x : Address) : Decidable (h.Holds x) :=
  inferInstanceAs (Decidable (∃ b ∈ h.holdings, b.span.has x = true))

/-- The search through segments and regions finds all that the heap holds. -/
theorem Heap.Sound.contains_iff {h : Heap} {system : SystemHeap} {rest : List SystemBlock}
    {hole : List Span} (sound : h.Sound system rest hole) {x : Address} :
    h.contains x = true ↔ h.Holds x := by
  constructor
  · exact Machine.holding_of_contains
  · rintro ⟨b, holding, inside⟩
    refine Bool.or_eq_true_iff.2 ?_
    rcases List.mem_append.1 holding with segment | region
    · obtain ⟨f, framed, rfl⟩ := List.mem_map.1 segment
      obtain ⟨s, inSegments, rfl⟩ := List.mem_map.1 framed
      obtain ⟨i, found⟩ := List.mem_iff_getElem?.1 inSegments
      have within : s.contains x = true := Segment.contains_iff.2 (Span.has_iff.1 inside)
      rw [segmentIndex?_eq sound.tiles.toOrdered found within]
      exact .inl rfl
    · obtain ⟨c, kept, rfl⟩ := List.mem_map.1 region
      obtain ⟨live, own⟩ := List.mem_filter.1 kept
      obtain ⟨lower, upper⟩ := Span.has_iff.1 inside
      refine .inr (List.any_eq_true.2 ⟨c, live, ?_⟩)
      simp only [Bool.and_eq_true, decide_eq_true_eq]
      exact ⟨⟨own, lower⟩, upper⟩

namespace SystemHeap

/-- Returning blocks does not look at bytes. -/
theorem foldl_release_bytes (addrs : List Address) (s : SystemHeap) (bytes : Bytes) :
    addrs.foldl SystemHeap.release { s with bytes } =
      { addrs.foldl SystemHeap.release s with bytes } := by
  induction addrs generalizing s with
  | nil => rfl
  | cons addr rest ih => exact ih (s.release addr)

end SystemHeap

/-- What goes back to the system heap when a pool takes back a block: the region of the block, and
the segments of a pool that has waited for nothing but this block. -/
def Pool.returned (p : Pool) (b : LiveBlock) : List Address :=
  (if b.dedicated then [b.addr] else []) ++
    if p.phase = .deletePending ∧ p.heap.live.length = 1 then p.heap.segments.map (·.base) else []

namespace Machine

/-- A pool has taken back one block. All others, the other pools and the tags of other blocks are as
they were. -/
structure TakenBack (m after : Machine) (p : Pool) (b : LiveBlock) : Prop where
  exchanges : Exchanges m after [b.issuedBy p.id] [] []
  others : ∀ q ∈ m.pools, q.id ≠ p.id → q ∈ after.pools
  tags : ∃ tag, m.tags.toList.Perm ((b.addr, tag) :: after.tags.toList)
  system : after.system =
    { (p.returned b).foldl SystemHeap.release m.system with bytes := after.system.bytes }

/-- What becomes of a released address is decided by what is there: a live block, other memory of a
pool, or memory of the system heap. -/
structure Dispatched (m : Machine) (addr : Address) (o : Outcome Unit) : Prop where
  owned : ∀ p ∈ m.pools, ∀ b ∈ p.heap.live, b.addr = addr →
    o.answer = .ok () ∧ TakenBack m o.machine p b
  inside : (∀ p ∈ m.pools, ∀ b ∈ p.heap.live, b.addr ≠ addr) → ∀ p ∈ m.pools, p.heap.Holds addr →
    o = .stop (.insidePool addr p.id) (m.note (.strayRelease p.id addr))
  elsewhere : (∀ p ∈ m.pools, ∀ b ∈ p.heap.live, b.addr ≠ addr) →
    (∀ p ∈ m.pools, ¬ p.heap.Holds addr) → o = .ok () (m.releaseToSystem addr)

variable {m : Machine} {lost : List (Address × PoolId)} {loans : List SystemBlock} {id : PoolId}
  {p q : Pool} {b : LiveBlock} {addr : Address}

/-- No byte is held by two pools. -/
theorem Sound.holds_unique (sound : m.Sound lost loans) (inPools : p ∈ m.pools)
    (inPools' : q ∈ m.pools) {x : Address} (first : p.heap.Holds x) (second : q.heap.Holds x) :
    p = q := by
  obtain ⟨b, holding, inside⟩ := first
  obtain ⟨c, holding', inside'⟩ := second
  have stored : ∀ {r : Pool} {d : SystemBlock}, r ∈ m.pools → d ∈ r.heap.holdings →
      d ∈ m.system.blocks := fun inPools holding =>
    sound.held.mem_iff.2 (List.mem_append_left _ (List.mem_flatMap.2 ⟨_, inPools, holding⟩))
  have same : b = c := by
    by_contra different
    have apart := sound.below.apart.forall (stored inPools holding) (stored inPools' holding')
      different
    exact apart.not_has inside inside'
  subst same
  have perm := (sound.pools_perm (sound.pool?_eq inPools)).flatMap_right (·.heap.holdings)
  rw [List.flatMap_cons] at perm
  have all := (List.nodup_append.1 (sound.held.nodup_iff.1 sound.blocks_nodup)).1
  have unique := perm.nodup_iff.1 all
  by_contra different
  have other : q ∈ m.others p.id := by
    refine List.mem_filter.2 ⟨inPools', ?_⟩
    simpa using fun same => different (sound.eq_of_id inPools inPools' same.symm)
  exact (List.nodup_append.1 unique).2.2 b holding b
    (List.mem_flatMap.2 ⟨q, other, holding'⟩) rfl

/-- The pool that an address lies in is found on the list of pools. -/
theorem Sound.holder?_eq (sound : m.Sound lost loans) (enrolled : m.Enrolled)
    (inPools : p ∈ m.pools) (holds : p.heap.Holds addr) : m.holder? addr = some p.id := by
  have listed := sound.listed_perm enrolled
  have stands : p.phase ≠ .destroyed := by
    intro ended
    obtain ⟨b, holding, _⟩ := holds
    rw [(enrolled.vacant p inPools ended).holdings] at holding
    cases holding
  have here : p ∈ m.listedPools :=
    listed.symm.subset (List.mem_filter.2 ⟨inPools, by simpa using stands⟩)
  obtain ⟨q, found⟩ : ∃ q, m.listedPools.find? (·.heap.contains addr) = some q :=
    Option.isSome_iff_exists.1 (List.find?_isSome.2
      ⟨p, here, (sound.heap (sound.pool?_eq inPools)).contains_iff.2 holds⟩)
  have inPools' : q ∈ m.pools :=
    List.mem_of_mem_filter (listed.subset (List.mem_of_find?_eq_some found))
  have inside : q.heap.contains addr = true :=
    List.find?_some (p := fun r : Pool => r.heap.contains addr) found
  have holds' := (sound.heap (sound.pool?_eq inPools')).contains_iff.1 inside
  rw [holder?, found, sound.holds_unique inPools inPools' holds holds']
  rfl

theorem Sound.holder?_eq_none (sound : m.Sound lost loans) (enrolled : m.Enrolled)
    (nowhere : ∀ p ∈ m.pools, ¬ p.heap.Holds addr) : m.holder? addr = none := by
  have missing : m.listedPools.find? (·.heap.contains addr) = none := by
    refine List.find?_eq_none.2 fun p listed inside => ?_
    have inPools := List.mem_of_mem_filter ((sound.listed_perm enrolled).subset listed)
    exact nowhere p inPools ((sound.heap (sound.pool?_eq inPools)).contains_iff.1 inside)
  rw [holder?, missing]
  rfl

theorem mem_updatePool_of_ne {f : Pool → Pool} (inPools : q ∈ m.pools) (other : q.id ≠ id) :
    q ∈ (m.updatePool id f).pools :=
  List.mem_map.2 ⟨q, inPools, if_neg other⟩

/-- A pool that is destroyed without a live block returns its segments. -/
theorem releaseAll_bases {h : Heap} (nothing : h.live = []) (s : SystemHeap) :
    (h.releaseAll s).2 = ((h.segments.map (·.frame)).map (·.addr)).foldl SystemHeap.release s := by
  simp only [Heap.releaseAll_system, nothing, List.foldl_append, List.foldl_map]
  rfl

/-- A pool takes back a block that has lost its tag. -/
theorem Sound.releaseIn_returned (sound : m.Sound ((b.addr, p.id) :: lost) loans) (caller : Caller)
    (found : m.pool? p.id = some p) (live : p.heap.block? b.addr = some b) :
    let after := (m.releaseIn caller p.id b.addr).machine
    after.tags = m.tags ∧ (∀ q ∈ m.pools, q.id ≠ p.id → q ∈ after.pools) ∧ after.system =
      { (p.returned b).foldl SystemHeap.release m.system with bytes := after.system.bytes } := by
  have length := ((sound.heap found).live_perm live).length_eq
  -- the region goes back at once, and poison leaves all but the bytes alone
  have region : ∀ {step : HeapStep (Option Nat)}, p.heap.release m.system b.addr = .ok step →
      step.system = { (if b.dedicated then [b.addr] else []).foldl SystemHeap.release m.system with
        bytes := step.system.bytes } := by
    intro step released
    rw [Heap.release_system live released]
    cases b.dedicated <;> rfl
  have releasing := sound.releaseIn_releasing caller found live
  generalize m.releaseIn caller p.id b.addr = o at releasing
  cases releasing with
  | goesOn released frees occupied =>
    have stays : ¬ (p.phase = .deletePending ∧ p.heap.live.length = 1) := by
      rintro ⟨pending, one⟩
      rw [← show _ = (p.heap.removeLive b).live from frees.live, one, List.length_cons] at length
      exact occupied pending (List.length_eq_zero_iff.1 (by omega))
    refine ⟨rfl, fun q inPools other => mem_updatePool_of_ne inPools other, ?_⟩
    rw [Pool.returned, if_neg stays, List.append_nil]
    exact region released
  | @ends step released frees pending nothing =>
    have waited : p.phase = .deletePending ∧ p.heap.live.length = 1 := by
      rw [← show _ = (p.heap.removeLive b).live from frees.live, nothing] at length
      exact ⟨pending, length⟩
    have segments : (step.heap.segments.map (·.frame)).map (·.addr) =
        p.heap.segments.map (·.base) := by
      rw [Heap.release_frames released, List.map_map]
      rfl
    obtain ⟨threads, same⟩ := destroy_eq (m.putHeap p.id step.heap step.system) caller
      { p with heap := step.heap }
    have put : (m.putHeap p.id step.heap step.system).system = step.system := rfl
    simp only [Outcome.ok, same, nothing]
    refine ⟨rfl, fun q inPools other =>
      mem_updatePool_of_ne (mem_updatePool_of_ne inPools other) other, ?_⟩
    rw [put, releaseAll_bases nothing, segments, region released, SystemHeap.foldl_release_bytes,
      Pool.returned, if_pos waited, List.foldl_append]

/-- A live block is taken back by its pool, whoever releases it without naming another one. -/
theorem Sound.release_takenBack (sound : m.Sound [] loans) (caller : Caller)
    (inPools : p ∈ m.pools) (live : b ∈ p.heap.live) :
    (m.release caller none b.addr).answer = .ok () ∧
      TakenBack m (m.release caller none b.addr).machine p b := by
  have found := sound.pool?_eq inPools
  have owned : m.owner? b.addr = some p.id := sound.owner?_of_live ⟨p, inPools, rfl, b, live, rfl⟩
  have here : (m.untag b.addr).pool? p.id = some p := found
  have start := (sound.heap found).block?_eq live
  have untagged := sound.untag owned
  obtain ⟨tag, tagged, number⟩ := sound.tags.owner?_eq_some_iff.1 owned
  obtain ⟨tags, removed, _, perm⟩ := sound.tags.remove tagged
  have forgotten : (m.untag b.addr).tags = tags := by
    simp only [Machine.untag, removed]
    rfl
  obtain ⟨tags', others, system⟩ := untagged.releaseIn_returned caller here start
  obtain ⟨c, used, _, there, release⟩ := untagged.releaseIn_change caller
  have usedHere : (m.untag b.addr).InUse (b.issuedBy p.id) :=
    .inl ⟨p, inPools, mem_issued.2 ⟨b, live, rfl⟩⟩
  obtain rfl := untagged.inUse_unique used usedHere there
  rw [sound.release_recorded caller owned rfl]
  refine ⟨(untagged.releaseIn caller).1, ?_, others, ⟨tag, ?_⟩, system⟩
  · simpa using (sound.untag_change owned).toExchanges.trans release.toExchanges
  · rw [tags', forgotten]
    exact perm

/-- As long as some block is live, what is released is dispatched by what is there. -/
theorem Sound.release_dispatched (sound : m.Sound [] loans) (enrolled : m.Enrolled)
    (someLive : ∃ p ∈ m.pools, p.heap.live ≠ []) {caller : Caller} (outside : caller.nested = false)
    (addr : Address) : Dispatched m addr (m.release caller none addr) := by
  obtain ⟨p, inPools, occupied⟩ := someLive
  obtain ⟨b, live⟩ := List.exists_mem_of_ne_nil _ occupied
  obtain ⟨tag, tagged, _⟩ := sound.tags.owner?_eq_some_iff.1
    (sound.owner?_of_live ⟨p, inPools, rfl, b, live, rfl⟩)
  have recorded := sound.tags.isEmpty_of_mem tagged
  have unowned : (∀ p ∈ m.pools, ∀ b ∈ p.heap.live, b.addr ≠ addr) → m.owner? addr = none := by
    refine fun nowhere => Option.eq_none_iff_forall_ne_some.2 fun id owned => ?_
    obtain ⟨q, inPools', _, c, live', start⟩ := mem_livePairs.1 (sound.live_of_tagged owned)
    exact nowhere q inPools' c live' start
  refine ⟨fun q inPools' c live' start => ?_, fun nowhere q inPools' holds => ?_,
    fun nowhere free => ?_⟩
  · subst start
    exact sound.release_takenBack caller inPools' live'
  · simp only [Machine.release, recorded, sound.remove?_of_unowned (unowned nowhere), outside,
      Bool.false_eq_true, if_false, sound.holder?_eq enrolled inPools' holds]
  · refine (sound.release_of_unowned caller none (unowned nowhere)).resolve_right ?_
    rintro ⟨holder, inside, _⟩
    rw [sound.holder?_eq_none enrolled free] at inside
    cases inside

/-- In all states that programs reach and where a block is live, a thread that is not in the middle of
bookkeeping can release any address without a mark: if it is that of a live block, the pool takes that
block back; if it is other memory of a pool, the call stops and nothing is different; and any other
address goes to the system heap. -/
theorem Reachable.dispatched (reached : Reachable m) (someLive : ∃ p ∈ m.pools, p.heap.live ≠ [])
    {caller : Caller} (outside : caller.nested = false) (unmarked : m.marks.contains addr = false) :
    Dispatched m addr (m.free caller none addr) ∧ Dispatched m addr (m.freeLayout caller addr) := by
  obtain ⟨loans, sound⟩ := reached.sound
  have dispatched := sound.release_dispatched reached.enrolled someLive outside addr
  have free : m.free caller none addr = m.release caller none addr := if_neg (by simp [unmarked])
  have freeLayout : m.freeLayout caller addr = m.release caller none addr :=
    if_neg (by simp [unmarked])
  rw [free, freeLayout]
  exact ⟨dispatched, dispatched⟩

/-- A live block, an address inside of it and one that no pool holds are released. -/
theorem busy_dispatched :
    let caller : Caller := { thread := 1 }
    let start : Address := SystemHeap.slotBase 3 + 352
    (busy.InUse ⟨some 1, start, 112, 16⟩ ∧ busy.marks.contains start = false) ∧
      (busy.free caller none start).answer = .ok () ∧
      (∃ p ∈ busy.pools, TakenBack busy (busy.free caller none start).machine p
        ⟨start, 112, 16, false⟩) ∧
      busy.free caller none (start + 8) = .stop (.insidePool (start + 8) 1)
        (busy.note (.strayRelease 1 (start + 8))) ∧
      busy.freeLayout caller 8 = .ok () (busy.releaseToSystem 8) := by
  have someLive : ∃ p ∈ busy.pools, p.heap.live ≠ [] := by decide +kernel
  have outside : ({ thread := 1 } : Caller).nested = false := rfl
  obtain ⟨p, inPools, number, live, holds⟩ : ∃ p ∈ busy.pools, p.id = 1 ∧
      (⟨SystemHeap.slotBase 3 + 352, 112, 16, false⟩ : LiveBlock) ∈ p.heap.live ∧
      p.heap.Holds (SystemHeap.slotBase 3 + 352 + 8) := by decide +kernel
  have unmarked : busy.marks.contains (SystemHeap.slotBase 3 + 352) = false := by decide +kernel
  have unmarked' : busy.marks.contains (SystemHeap.slotBase 3 + 352 + 8) = false := by
    decide +kernel
  have unmarked'' : busy.marks.contains 8 = false := by decide +kernel
  have owned := (Reachable.dispatched busy_reachable someLive outside unmarked).1.owned p inPools _
    live rfl
  have inside := (Reachable.dispatched busy_reachable someLive outside unmarked').1.inside
    (by decide +kernel) p inPools holds
  have elsewhere := (Reachable.dispatched busy_reachable someLive outside unmarked'').2.elsewhere
    (by decide +kernel) (by decide +kernel)
  rw [number] at inside
  exact ⟨by decide +kernel, owned.1, ⟨p, inPools, owned.2⟩, inside, elsewhere⟩

end Machine

end PooledMemory
