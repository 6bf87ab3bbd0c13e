import PooledMemory.Proofs.Machine.Remnants

namespace PooledMemory

namespace Machine

variable {m middle after : Machine} {lost : List (Address × PoolId)} {loans : List SystemBlock}
  {id : PoolId} {p : Pool} {filled filled' : Address → Prop}

/-- Something else than the memory of a pool is updated. -/
theorem Sound.updated_spends {f : Pool → Pool} (sound : m.Sound lost loans)
    (keeps : ∀ p, (f p).heap = p.heap) (id : PoolId) :
    m.Spends (fun _ => False) (m.updatePool id f) := by
  cases found : m.pool? id with
  | some p =>
    exact sound.stored_spends found (sound.heap found) (.refl p.heap m.system)
      (fun _ inside => inside) (List.Subset.refl _) rfl (keeps p) rfl
  | none =>
    refine .aside ((List.map_congr_left fun q member => if_neg ?_).trans (List.map_id' _)) rfl
    simpa using List.find?_eq_none.1 found q member

theorem Sound.destroy_spends (sound : m.Sound lost loans) (caller : Caller)
    (found : m.pool? p.id = some p) : m.Spends (fun _ => False) (m.destroy caller p) := by
  obtain ⟨heapSound, live, segments, _⟩ := (sound.heap found).releaseAll
  obtain ⟨threads, same⟩ := destroy_eq m caller p
  rw [same]
  refine sound.stored_spends found heapSound (sound.heap found).releaseAll_cleans (fun x inside => ?_)
    ?_ rfl rfl rfl
  · rw [Heap.inSegment, segments] at inside
    cases inside
  · rw [live]
    exact List.nil_subset _

theorem Sound.retire_spends (sound : m.Sound lost loans) (caller : Caller) (id : PoolId) :
    m.Spends (fun _ => False) (m.retire caller id).2 := by
  unfold Machine.retire
  cases found : m.pool? id with
  | none => exact .aside rfl rfl
  | some p =>
    obtain ⟨_, rfl⟩ := pool?_mem found
    simp only
    split
    · exact .aside rfl rfl
    · split
      · obtain ⟨threads, cleared⟩ :=
          clearCurrent_eq (m.setPhase p.id .deletePending) caller.thread p.id
        have pending : m.Spends (fun _ => False) (m.setPhase p.id .deletePending) :=
          sound.updated_spends (f := ({ · with phase := .deletePending })) (fun _ => rfl) p.id
        rw [cleared]
        exact pending.false_trans (.aside rfl rfl)
      · exact sound.destroy_spends caller found

theorem Sound.dropPool_spends (sound : m.Sound lost loans) (caller : Caller) (id : PoolId) :
    m.Spends (fun _ => False) (m.dropPool caller id).machine := by
  obtain ⟨_, _, sound'⟩ := sound.retire caller id
  have letGo := (sound.retire_spends caller id).false_trans
    (sound'.updated_spends (f := ({ · with held := false })) (fun _ => rfl) id)
  unfold Machine.dropPool
  simp only
  split
  · split
    · exact letGo
    · exact letGo
  · exact letGo

theorem Sound.exitThread_spends (sound : m.Sound lost loans) (thread : ThreadId) :
    m.Spends (fun _ => False) (m.exitThread thread) := by
  have retireAll : ∀ (owned : List Pool) (m : Machine) (lost : List (Address × PoolId)),
      m.Sound lost loans → m.Spends (fun _ => False)
        (owned.foldl (fun m p => (m.retire { thread, nested := true } p.id).2) m) := by
    intro owned
    induction owned with
    | nil => exact fun m lost sound => .aside rfl rfl
    | cons p rest ih =>
      intro m lost sound
      obtain ⟨middle, _, retired⟩ := sound.retire { thread, nested := true } p.id
      exact (sound.retire_spends { thread, nested := true } p.id).false_trans (ih _ middle retired)
  have reaped : ∀ count, m.Spends (fun _ => False) (m.note (.threadReaped thread count)) :=
    fun _ => .aside rfl rfl
  unfold Machine.exitThread
  simp only
  split
  · exact .aside rfl rfl
  · exact ((reaped _).false_trans (retireAll _ _ lost (sound.note _))).false_trans (.aside rfl rfl)

theorem Sound.trimPool_spends (sound : m.Sound lost loans) (id : PoolId) :
    m.Spends (fun _ => False) (m.trimPool id).machine := by
  unfold Machine.trimPool
  cases found : m.pool? id with
  | none => exact .aside rfl rfl
  | some p =>
    obtain ⟨step, trimmed, _, heapSound⟩ := (sound.heap found).trim
    obtain ⟨cleans, segments, live⟩ := (sound.heap found).trim_cleans trimmed
    have spends : m.Spends (fun _ => False) (m.putHeap id step.heap step.system) :=
      sound.stored_spends found heapSound cleans segments (live ▸ List.Subset.refl _) rfl rfl rfl
    simp only [trimmed, Outcome.ok]
    split
    · exact spends.false_trans (.aside rfl rfl)
    · exact spends

/-- A pool that is opened has no memory. -/
theorem openPool_spends (m : Machine) (caller : Caller) (settings : PoolSettings) :
    m.Spends (fun _ => False) (m.openPool caller settings).2 := by
  have opened : ∀ {p : Pool} {after : Machine}, p.heap = .empty settings.maxSize →
      after.pools = m.pools ++ [p] → after.system = m.system →
      m.Spends (fun _ => False) after := by
    intro p after heap pools system
    have inSegment : ∀ x, after.inSegment x = m.inSegment x := fun x => by
      rw [Machine.inSegment, pools, List.any_append, List.any_cons, heap, Machine.inSegment]
      exact Bool.or_false _
    have inBlock : ∀ x, after.inBlock x = m.inBlock x := fun x => by
      rw [Machine.inBlock, pools, List.any_append, List.any_cons, heap, Machine.inBlock]
      exact Bool.or_false _
    refine ⟨fun x inside => inSegment x ▸ inside, fun x _ used => inBlock x ▸ used,
      fun x _ _ _ => by rw [system], fun x used idle => ?_, fun _ => False.elim⟩
    exact absurd (idle.unused.symm.trans ((inBlock x).trans used)) Bool.false_ne_true
  unfold Machine.openPool
  simp only
  split
  · exact opened rfl rfl rfl
  · exact opened rfl rfl rfl

/-- A block that its pool takes back is overwritten. -/
theorem Sound.releaseIn_spends {addr : Address} (sound : m.Sound ((addr, id) :: lost) loans)
    (caller : Caller) : m.Spends (fun _ => False) (m.releaseIn caller id addr).machine := by
  obtain ⟨p, b, found, live, rfl, rfl⟩ := sound.live_of_lost
  have stored : ∀ {step : HeapStep (Option Nat)}, p.heap.release m.system b.addr = .ok step →
      p.heap.Frees (m.rest p.id ++ loans) [] b.addr step →
      m.Spends (fun _ => False) (m.putHeap p.id step.heap step.system) := by
    intro step released frees
    refine sound.stored_spends found frees.sound ((sound.heap found).release_cleans released)
      (fun x inside => ?_) (frees.live ▸ List.filter_subset_self _) rfl rfl rfl
    exact (Heap.inSegment_of_frames (Heap.release_frames released) x).symm.trans inside
  have releasing := sound.releaseIn_releasing caller found live
  generalize m.releaseIn caller p.id b.addr = o at releasing
  cases releasing with
  | goesOn released frees _ => exact stored released frees
  | @ends step released frees _ _ =>
    have ended := (sound.withdraw found live frees).destroy_spends
      (p := { p with heap := step.heap }) caller (pool?_putHeap step.heap step.system found)
    exact (stored released frees).false_trans ended

theorem Sound.releaseOwned_spends (sound : m.Sound lost loans) (caller : Caller) {addr : Address}
    (owned : m.owner? addr = some id) :
    m.Spends (fun _ => False) ((m.untag addr).releaseIn caller id addr).machine := by
  have untagged : m.Spends (fun _ => False) (m.untag addr) := .aside rfl rfl
  exact untagged.false_trans ((sound.untag owned).releaseIn_spends caller)

/-- Whatever a thread is to release, no pool loses more than a block of its own. -/
theorem Sound.release_spends (sound : m.Sound lost loans) (caller : Caller)
    (expected : Option PoolId) (addr : Address) :
    m.Spends (fun _ => False) (m.release caller expected addr).machine := by
  cases owned : m.owner? addr with
  | some owner =>
    by_cases fits : expected.all (· == owner) = true
    · rw [sound.release_recorded caller owned fits]
      exact sound.releaseOwned_spends caller owned
    · cases expected with
      | none => exact absurd rfl fits
      | some other =>
        have wrong : other ≠ owner := by simpa using fits
        rw [sound.release_misnamed caller owned wrong]
        exact .aside rfl rfl
  | none =>
    obtain returned | ⟨holder, _, stopped⟩ := sound.release_of_unowned caller expected owned
    · rw [returned]
      exact .aside rfl rfl
    · rw [stopped]
      exact .aside rfl rfl

theorem Sound.releaseBlock_spends (sound : m.Sound lost loans) (caller : Caller) (id : PoolId)
    (addr : Address) : m.Spends (fun _ => False) (m.releaseBlock caller id addr).machine := by
  unfold Machine.releaseBlock
  cases owned : m.owner? addr with
  | some owner =>
    simp only
    split
    · rename_i same
      subst same
      exact sound.releaseOwned_spends caller owned
    · exact .aside rfl rfl
  | none =>
    rcases sound.lost_or_missing id owned with ⟨_, _, isLost⟩ | missing
    · exact isLost.releaseIn_spends caller
    · rw [sound.releaseIn_missing caller missing]
      exact .aside rfl rfl

section Moves

variable {addr source : Address} {size : Nat} {new : Block} {known : Option Nat} {target : Target}
  {request : Request}

theorem Sound.copied_spends {len : Nat} (sound : m.Sound lost loans) (used : m.InUse new)
    (fits : len ≤ new.size) (source : Address) :
    m.Spends ((⟨new.addr, len⟩ : Span).has · = true) (m.copied source new.addr len) :=
  sound.write_spends used (Span.within_of_le fits) _

theorem Sound.moveStaged_spends (sound : m.Sound lost loans) (caller : Caller)
    (loaned : source ∈ loans.map (·.addr)) (used : m.InUse new) (fits : size ≤ new.size) :
    ∃ filled, m.Spends filled (m.moveStaged caller source new.addr size).machine ∧
      ∀ x, filled x → Carried (m.moveStaged caller source new.addr size).answer size x := by
  unfold Machine.moveStaged
  cases staged : m.system.reallocate? source size with
  | none => exact ⟨_, sound.release_spends caller none new.addr, nofun⟩
  | some found =>
    obtain ⟨place, system⟩ := found
    have written : m.Spends ((⟨new.addr, size⟩ : Span).has · = true)
        { m with system := { system with bytes := system.bytes.copy place new.addr size } } := by
      refine .of_pools rfl (fun x inside outside => ?_) fun x has =>
        sound.inBlock_of_inUse used (Span.has_wider fits has)
      exact (Bytes.copy_of_not_has outside).trans (sound.exchange_inSegment loaned staged inside)
    exact ⟨_, written.trans_false (.aside rfl rfl), fun x has => ⟨new.addr, rfl, has⟩⟩

/-- Nothing is written but the content of the old block to the new one. -/
theorem Sound.moveContent_spends {owner : Option PoolId} (sound : m.Sound lost loans)
    (caller : Caller) (given : m.Handed loans source) (used : m.InUse new) (fits : size ≤ new.size)
    (owned : m.owner? source = owner) :
    ∃ filled, m.Spends filled (m.moveContent caller source owner known new.addr size).machine ∧
      ∀ x, filled x → Carried (m.moveContent caller source owner known new.addr size).answer
        (m.carriedSize source size) x := by
  have written : ∀ old, m.Spends ((⟨new.addr, min old size⟩ : Span).has · = true)
      (m.copied source new.addr (min old size)) :=
    fun old => sound.copied_spends used (Nat.le_trans (Nat.min_le_right ..) fits) source
  cases owner with
  | some id =>
    let old := (m.blockSize? id source).getD 0
    have size_eq : m.carriedSize source size = old := by rw [carriedSize, owned]
    have copied : (m.copied source new.addr (min old size)).Sound lost loans := sound.withBytes _
    have answer := ((copied.untag owned).releaseIn caller).1
    refine ⟨_, (written old).trans_false (copied.releaseOwned_spends caller owned), fun x has => ?_⟩
    rw [size_eq]
    refine ⟨new.addr, ?_, Span.has_wider (Nat.min_le_left ..) has⟩
    exact congrArg (Except.map fun _ => some new.addr) answer
  | none =>
    have size_eq : m.carriedSize source size = size := by rw [carriedSize, owned]
    have loaned := given.loaned owned
    rw [size_eq]
    unfold Machine.moveContent
    simp only
    split
    · refine ⟨_, (written _).trans_false (.aside rfl rfl), fun x has => ⟨new.addr, rfl, ?_⟩⟩
      exact Span.has_wider (Nat.min_le_right ..) has
    · exact sound.moveStaged_spends caller loaned used fits

/-- A block that moves to another heap has a new place, which stays as it is where no content goes. -/
theorem Sound.elsewhere_spends {owner : Option PoolId} (sound : m.Sound lost loans)
    (caller : Caller) (target : Target)
    {next : Except Failure Address → Machine → Outcome (Option Address)}
    (refused : ∀ failure after, next (.error failure) after = .ok none after)
    (served : ∀ moved after, next (.ok moved) after =
      after.moveContent caller addr owner known moved request.size)
    (owned : m.owner? addr = owner) (given : m.Handed loans addr) :
    ∃ filled, (m.serve target request).machine.Spends filled
        ((m.serve target request).bind next).machine ∧
      ∀ x, filled x → Carried ((m.serve target request).bind next).answer
        (m.carriedSize addr request.size) x := by
  have supplied := sound.serve_supplied target request
  have handed : ∀ addr, (m.serve target request).answer = .ok (.ok addr) → _ :=
    fun addr => (sound.serve target request).handed sound
  generalize m.serve target request = o at supplied handed
  cases supplied with
  | @refused failure after change =>
    have same : Outcome.bind (.ok (.error failure) after) next = .ok none after :=
      refused failure after
    rw [same]
    exact ⟨_, .aside rfl rfl, nofun⟩
  | @supplied new after change _ enough =>
    obtain ⟨loans', soundAfter, _, more, keeps⟩ := handed new.addr rfl
    have used : after.InUse new := (change.inUse new).2 (.inl (List.mem_singleton_self new))
    have same : Outcome.bind (.ok (.ok new.addr) after) next =
        after.moveContent caller addr owner known new.addr request.size := served new.addr after
    have still : after.owner? addr = owner ∧ after.Handed loans' addr ∧
        after.carriedSize addr request.size = m.carriedSize addr request.size := by
      rcases given with ⟨id, here⟩ | loaned
      · obtain ⟨b, old, rfl, own⟩ := sound.inUse_of_owner? here
        have there := keeps id b.addr here
        exact ⟨there.trans (here.symm.trans owned), .inl ⟨id, there⟩,
          (soundAfter.carriedSize_eq (change.still_inUse old (by simp)) own there _).trans
            (sound.carriedSize_eq old own here _).symm⟩
      · have free := sound.unowned_of_loan loaned
        have still := List.map_subset (·.addr) more loaned
        have there : after.owner? addr = none := soundAfter.unowned_of_loan still
        refine ⟨there.trans (free.symm.trans owned), .inr still, ?_⟩
        rw [carriedSize, there, carriedSize, free]
    obtain ⟨same', given', size_eq⟩ := still
    rw [same, ← size_eq]
    exact soundAfter.moveContent_spends caller given' used enough same'

/-- A call cleans up behind it, on its way to the state in between and from there, and what it brings
into use is as it was, apart from what it fills. -/
structure Sweeps (m midway : Machine) (filled : Address → Prop) (after : Machine) : Prop where
  first : m.Tidies midway
  second : midway.Tidies after
  obtained : ∀ x, m.inSegment x = false → after.inSegment x = true → m.system.Delivers x
  gains : m.Gains filled after

theorem Spends.sweeps (spends : m.Spends filled after) : m.Sweeps m filled' after :=
  ⟨Spends.tidies (.aside rfl rfl), spends.tidies, spends.tidies.obtained, spends.gains⟩

theorem Cleans.sweeps (cleans : m.Cleans filled after) (fewer : ∀ x, filled x → filled' x) :
    m.Sweeps m filled' after :=
  ⟨Spends.tidies (.aside rfl rfl), cleans.tidies, cleans.obtained, cleans.gains.mono fewer⟩

/-- What threads remember is no memory. -/
theorem Sweeps.of_threads {threads : ThreadId → Register}
    (sweeps : ({ m with threads } : Machine).Sweeps middle filled after) :
    m.Sweeps middle filled after := by
  obtain ⟨⟨untouched, scrubbed, obtained, filled⟩, second, obtained', gains⟩ := sweeps
  exact ⟨⟨untouched, scrubbed, obtained, filled⟩, second, obtained',
    fun x ⟨inside, unused, used⟩ => gains x ⟨inside, unused, used⟩⟩

/-- A block that is resized or moved takes along its content and leaves none behind. -/
theorem Sound.relocate_sweeps (sound : m.Sound lost loans) (caller : Caller) (target : Target)
    (given : m.Handed loans addr) (unzeroed : request.zeroed = false) :
    m.Sweeps (m.arrival addr target request)
      (Carried (m.relocate caller target addr known request).answer
        (m.carriedSize addr request.size))
      (m.relocate caller target addr known request).machine := by
  have ways := m.relocate_ways caller target addr known request
  generalize m.relocate caller target addr known request = o at ways
  have stays : m.owner? addr = target.owner → m.arrival addr target request = m := fun own =>
    if_pos own
  cases ways with
  | stays either =>
    have same : m.arrival addr target request = m := by
      rcases either with own | nothing
      · exact stays own
      · rw [arrival, nothing, ite_self]
    rw [same]
    exact Spends.sweeps (.aside rfl rfl)
  | resized owned own =>
    obtain ⟨filled, cleans, fewer⟩ := sound.resizeIn_cleans owned request.size
    rw [stays (owned.trans own.symm)]
    exact cleans.sweeps fewer
  | @exchanged moved system free unowned resized =>
    have loaned := given.loaned free
    rw [stays (free.trans unowned.symm)]
    have exchange : m.Spends (fun _ => False) { m with system } :=
      .of_pools rfl (fun x inside _ => sound.exchange_inSegment loaned resized inside) nofun
    exact exchange.sweeps
  | elsewhere foreign refused served =>
    obtain ⟨filled, spends, fewer⟩ := sound.elsewhere_spends caller target refused served rfl given
    by_cases own : m.owner? addr = target.owner
    · cases target with
      | pool id => exact absurd own (foreign id rfl)
      | unavailable id => exact absurd own (foreign id rfl)
      | systemHeap =>
        rw [stays own]
        exact ((sound.serveSystem_spends request).false_trans spends).sweeps
    · have cleans := sound.serve_cleans target request
      rw [arrival, if_neg own]
      refine ⟨cleans.tidies, spends.tidies, fun x outside inside =>
        cleans.obtained x outside (spends.inSegment x inside),
        (cleans.gains_spends spends).mono ?_⟩
      rintro x (⟨zeroed, _⟩ | there)
      · cases unzeroed.symm.trans zeroed
      · exact fewer x there

/-- No fault stops a block that is to be resized or moved, whatever is passed. -/
theorem Sound.relocate_goesOn (sound : m.Sound lost loans) (caller : Caller) (target : Target)
    (addr : Address) (known : Option Nat) (request : Request) :
    ¬ ∃ fault, (m.relocate caller target addr known request).answer = .error fault := by
  intro stops
  have relocation := sound.relocate_relocation caller target (.inr stops)
  obtain ⟨fault, stopped⟩ := stops
  generalize m.relocate caller target addr known request = o at relocation stopped
  cases relocation <;> cases stopped

end Moves

theorem Sound.allocate_cleans (sound : m.Sound lost loans) (caller : Caller)
    (named : Option PoolId) (request : Request) :
    ∃ filled, m.Cleans filled (m.allocate caller named request).machine ∧
      ∀ x, filled x → request.zeroed = true := by
  obtain ⟨threads, same⟩ := target_machine m caller named
  unfold Machine.allocate
  simp only [same]
  obtain ⟨untouched, scrubbed, obtained, filled⟩ :=
    (sound.withThreads threads).serve_cleans (m.target caller named).1 request
  exact ⟨_, ⟨untouched, scrubbed, obtained, filled⟩, fun _ there => there.1⟩

/-- A value that is put into a new block fills no more than its place. -/
theorem Sound.box_cleans (sound : m.Sound lost loans) (caller : Caller) (named : Option PoolId)
    (value : Value) :
    ∃ filled, m.Cleans filled (m.box caller named value).machine ∧
      ∀ x, filled x → ∃ b, (m.box caller named value).answer = .ok (.ok b) ∧
        (⟨b.addr, value.type.payload⟩ : Span).has x = true := by
  obtain ⟨_, cleans, zeroes⟩ := sound.allocate_cleans caller named (value.type.request caller.site)
  obtain ⟨owner, supplied⟩ := sound.allocate_supplied caller named (value.type.request caller.site)
  unfold Machine.box
  generalize m.allocate caller named _ = o at cleans supplied
  cases supplied with
  | @refused failure middle change =>
    have dropped : m.Cleans _ (middle.dropValue value) := cleans.aside rfl rfl
    exact ⟨_, dropped, fun x there => nomatch zeroes x there⟩
  | @supplied new middle change _ enough =>
    obtain ⟨lost', loans', sound'⟩ := change.sound
    have used : middle.InUse new := (change.inUse new).2 (.inl (List.mem_singleton_self new))
    have fits : value.type.payload ≤ new.size :=
      Nat.le_trans value.type.payload_le_size (Nat.le_trans (Nat.le_max_left _ _) enough)
    refine ⟨_, cleans.fill rfl (fun x _ outside => write_bytes outside) fun x has =>
      sound'.inBlock_of_inUse used (Span.has_wider fits has), ?_⟩
    rintro x (there | has)
    · cases zeroes x there
    · exact ⟨_, rfl, has⟩

theorem Sound.boxOrAbort_cleans (sound : m.Sound lost loans) (caller : Caller)
    (named : Option PoolId) (value : Value) :
    ∃ filled, m.Cleans filled (m.boxOrAbort caller named value).machine ∧
      ∀ x, filled x → ∃ b, (m.boxOrAbort caller named value).answer = .ok b ∧
        (⟨b.addr, value.type.payload⟩ : Span).has x = true := by
  obtain ⟨filled, cleans, puts⟩ := sound.box_cleans caller named value
  unfold Machine.boxOrAbort
  generalize m.box caller named value = o at cleans puts
  obtain ⟨answer, after⟩ := o
  cases answer with
  | error fault => exact ⟨filled, cleans, fun x there => nomatch puts x there⟩
  | ok answer =>
    cases answer with
    | error failure => exact ⟨filled, cleans, fun x there => nomatch puts x there⟩
    | ok box =>
      refine ⟨filled, cleans, fun x there => ?_⟩
      obtain ⟨b, ⟨⟩, has⟩ := puts x there
      exact ⟨box, rfl, has⟩

end Machine

namespace Call

/-- Callers write only inside blocks in use. -/
def Tame (c : Call) (m : Machine) : Prop :=
  ∀ w, c.written? = some w → ∃ b, m.InUse b ∧ w.Within b.span

/-- A test for calls that write inside a block of a pool only. -/
def isTame (c : Call) (m : Machine) : Bool :=
  c.written?.all fun w => m.pools.any fun p => p.heap.live.any fun b =>
    b.addr ≤ w.addr && w.stop ≤ b.span.stop

theorem tame_of_isTame {c : Call} {m : Machine} (fit : c.isTame m = true) : c.Tame m := by
  intro w writes
  simp only [isTame, writes, Option.all_some, List.any_eq_true, Bool.and_eq_true,
    decide_eq_true_eq] at fit
  obtain ⟨p, inPools, b, live, inside⟩ := fit
  exact ⟨b.issuedBy p.id, .inl ⟨p, inPools, Machine.mem_issued.2 ⟨b, live, rfl⟩⟩, inside⟩

def areTame : List Call → Machine → Bool
  | [], _ => true
  | c :: rest, m => c.isTame m && areTame rest (c.run m).machine

/-- What a call itself puts into memory that it brings into use: zeroes if it is asked to, a value, or
the content of the block that it moves. -/
def Fills (c : Call) (m : Machine) (x : Address) : Prop :=
  match c with
  | allocate _ _ request => request.zeroed = true
  | allocateLayout _ _ _ zeroed => zeroed = true
  | resizeBlock id addr size => Machine.Carried (m.resizeBlock id addr size).answer
    (m.carriedSize addr size) x
  | reallocate caller named addr size =>
    Machine.Carried (m.reallocate caller named addr size).answer (m.carriedSize addr size) x
  | reallocateLayout caller addr old align size =>
    Machine.Carried (m.reallocateLayout caller addr old align size).answer
      (m.carriedSize addr size) x
  | box caller named value => ∃ b, (m.box caller named value).answer = .ok (.ok b) ∧
    (⟨b.addr, value.type.payload⟩ : Span).has x = true
  | boxOrAbort caller named value => ∃ b, (m.boxOrAbort caller named value).answer = .ok b ∧
    (⟨b.addr, value.type.payload⟩ : Span).has x = true
  | _ => False

end Call

namespace Machine

variable {m : Machine} {lost : List (Address × PoolId)} {loans : List SystemBlock} {c : Call}

theorem Sound.reallocate_sweeps (sound : m.Sound lost loans) (caller : Caller)
    (named : Option PoolId) {addr : Address} (size : Nat) (given : m.Handed loans addr ∨
      ∃ fault, (m.reallocate caller named addr size).answer = .error fault) :
    m.Sweeps ((Call.reallocate caller named addr size).midway m)
      ((Call.reallocate caller named addr size).Fills m)
      (m.reallocate caller named addr size).machine := by
  obtain ⟨threads, same⟩ := target_machine m caller named
  have targeted := sound.withThreads threads
  show m.Sweeps
    (if m.marks.contains addr then m
      else (m.target caller named).2.arrival addr (m.target caller named).1
        (.plain size caller.site))
    (Carried (m.reallocate caller named addr size).answer (m.carriedSize addr size)) _
  unfold Machine.reallocate at given ⊢
  simp only [same] at given ⊢
  by_cases marked : m.marks.contains addr = true
  · simp only [if_pos marked]
    exact Spends.sweeps (.aside rfl rfl)
  · simp only [if_neg marked] at given ⊢
    have goesOn := targeted.relocate_goesOn caller (m.target caller named).1 addr none
      (.plain size caller.site)
    have handed := given.resolve_right goesOn
    exact (targeted.relocate_sweeps caller _ handed rfl).of_threads

theorem Sound.reallocateLayout_sweeps (sound : m.Sound lost loans) (caller : Caller)
    {addr : Address} (old align size : Nat) (given : m.Handed loans addr ∨
      ∃ fault, (m.reallocateLayout caller addr old align size).answer = .error fault) :
    m.Sweeps ((Call.reallocateLayout caller addr old align size).midway m)
      ((Call.reallocateLayout caller addr old align size).Fills m)
      (m.reallocateLayout caller addr old align size).machine := by
  obtain ⟨threads, same⟩ := target_machine m caller none
  have targeted := sound.withThreads threads
  show m.Sweeps
    (if m.marks.contains addr then m
      else (m.target caller none).2.arrival addr (m.target caller none).1
        ⟨size, align, false, none⟩)
    (Carried (m.reallocateLayout caller addr old align size).answer (m.carriedSize addr size)) _
  unfold Machine.reallocateLayout at given ⊢
  simp only [same] at given ⊢
  by_cases marked : m.marks.contains addr = true
  · simp only [if_pos marked]
    exact Spends.sweeps (.aside rfl rfl)
  · simp only [if_neg marked] at given ⊢
    have handed := given.resolve_right
      (targeted.relocate_goesOn caller _ addr (some old) ⟨size, align, false, none⟩)
    exact (targeted.relocate_sweeps caller _ handed rfl).of_threads

/-- All calls clean up if they route blocks in use or are stopped, and if callers write nowhere
else. -/
theorem Sound.run_sweeps (sound : m.Sound lost loans)
    (sane : c.Sane m ∨ ∃ fault, (c.run m).answer = .error fault)
    (handed : ∀ addr, c.routed? = some addr →
      m.Handed loans addr ∨ ∃ fault, (c.run m).answer = .error fault) (tame : c.Tame m) :
    m.Sweeps (c.midway m) (c.Fills m) (c.run m).machine := by
  have aside : ∀ {filled : Address → Prop} {after : Machine}, after.pools = m.pools →
      after.system.bytes = m.system.bytes → m.Sweeps m filled after :=
    fun pools bytes => (Spends.aside pools bytes).sweeps
  cases c with
  | openPool caller settings => exact (openPool_spends m caller settings).sweeps
  | dropPool caller id => exact (sound.dropPool_spends caller id).sweeps
  | trimPool id => exact (sound.trimPool_spends id).sweeps
  | exitThread thread => exact (sound.exitThread_spends thread).sweeps
  | select caller id => cases id <;> exact aside rfl rfl
  | allocate caller named request =>
    obtain ⟨filled, cleans, zeroes⟩ := sound.allocate_cleans caller named request
    exact cleans.sweeps zeroes
  | allocateLayout caller size align zeroed =>
    obtain ⟨filled, cleans, zeroes⟩ :=
      sound.allocate_cleans caller none ⟨size, align, zeroed, none⟩
    exact cleans.sweeps zeroes
  | foreign request => exact (sound.serveSystem_spends request).sweeps
  | resizeBlock id addr size =>
    show m.Sweeps m (Carried (m.resizeBlock id addr size).answer (m.carriedSize addr size))
      (m.resizeBlock id addr size).machine
    unfold Machine.resizeBlock
    split
    · rename_i owned
      obtain ⟨filled, cleans, fewer⟩ := sound.resizeIn_cleans owned size
      exact cleans.sweeps fewer
    · exact aside rfl rfl
  | releaseBlock caller id addr => exact (sound.releaseBlock_spends caller id addr).sweeps
  | reallocate caller named addr size =>
    exact sound.reallocate_sweeps caller named size
      ((handed addr rfl).imp_right Outcome.stops_map)
  | reallocateLayout caller addr old align size =>
    exact sound.reallocateLayout_sweeps caller old align size
      ((handed addr rfl).imp_right Outcome.stops_map)
  | free caller expected addr =>
    simp only [Call.run, Machine.free]
    split
    · exact aside rfl rfl
    · exact (sound.release_spends caller expected addr).sweeps
  | freeLayout caller addr =>
    simp only [Call.run, Machine.freeLayout]
    split
    · exact aside rfl rfl
    · exact (sound.release_spends caller none addr).sweeps
  | write addr len content =>
    obtain ⟨b, used, inside⟩ := tame _ rfl
    exact (sound.write_spends used inside content).sweeps
  | box caller named value =>
    obtain ⟨filled, cleans, puts⟩ := sound.box_cleans caller named value
    exact cleans.sweeps puts
  | boxOrAbort caller named value =>
    obtain ⟨filled, cleans, puts⟩ := sound.boxOrAbort_cleans caller named value
    exact cleans.sweeps puts
  | assignBox box value =>
    obtain ⟨b, used, inside⟩ := tame _ rfl
    have dropped : m.Spends (fun _ => False) (m.dropValue (m.readBox box)) := .aside rfl rfl
    exact (dropped.false_trans ((sound.dropValue (m.readBox box)).write_spends used inside
      value.byte)).sweeps
  | dropBox caller box =>
    have dropped : m.Spends (fun _ => False) (m.dropValue (m.readBox box)) := .aside rfl rfl
    exact (dropped.false_trans
      ((sound.dropValue (m.readBox box)).release_spends caller none box.addr)).sweeps
  | unbox caller box => exact (sound.release_spends caller none box.addr).sweeps
  | reportLeaks =>
    obtain ⟨events, same⟩ := reportLeaks_machine m
    simp only [Call.run, Outcome.ok, same]
    exact aside rfl rfl
  | adjust system =>
    rcases sane with ⟨_, _, _, bytes⟩ | ⟨fault, stopped⟩
    · exact aside rfl bytes
    · cases stopped
  | restore | mark | unmark | dropValue => exact aside rfl rfl

end Machine

end PooledMemory
