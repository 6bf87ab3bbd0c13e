import PooledMemory.Proofs.Machine.Call

namespace PooledMemory

namespace Machine

variable {m : Machine} {lost : List (Address × PoolId)} {loans : List SystemBlock} {id : PoolId}

theorem Sound.select (sound : m.Sound lost loans) (caller : Caller) (id : Option PoolId) :
    (m.select caller id).2.Sound lost loans := by
  cases id with
  | some id => exact sound.frame rfl rfl rfl rfl
  | none => exact sound.frame rfl rfl rfl rfl

/-- Reporting what is live adds to the events and touches nothing else. -/
theorem reportLeaks_machine (m : Machine) : ∃ events, m.reportLeaks.2 = { m with events } := by
  have noted : ∀ (blocks : List BlockReport) (m : Machine), ∃ events,
      blocks.foldl (fun m block => m.note (.leakedBlock block)) m = { m with events } := by
    intro blocks
    induction blocks with
    | nil => exact fun m => ⟨m.events, rfl⟩
    | cons block rest ih => exact fun m => ih (m.note (.leakedBlock block))
  exact noted m.liveBlocks m

theorem Sound.reportLeaks (sound : m.Sound lost loans) : m.reportLeaks.2.Sound lost loans := by
  obtain ⟨events, same⟩ := reportLeaks_machine m
  rw [same]
  exact sound.frame rfl rfl rfl rfl

theorem Sound.resizeBlock (sound : m.Sound lost loans) (id : PoolId) (addr : Address) (size : Nat) :
    (m.resizeBlock id addr size).Keeps lost := by
  unfold Machine.resizeBlock
  by_cases own : m.owner? addr = some id
  · rw [if_pos own]
    obtain ⟨answer, resized, after⟩ := sound.resizeIn own size
    refine ⟨⟨lost, loans, List.Subset.refl _, after⟩, fun fault stopped => ?_⟩
    rw [resized] at stopped
    cases stopped
  · rw [if_neg own]
    exact Outcome.keeps_stop sound rfl

/-- A block that has no tag is not live in a pool, or it has lost its tag. -/
theorem Sound.lost_or_missing (sound : m.Sound lost loans) (id : PoolId) {addr : Address}
    (unowned : m.owner? addr = none) :
    (∃ left, left ⊆ lost ∧ m.Sound ((addr, id) :: left) loans) ∨
      ∀ p, m.pool? id = some p → p.heap.block? addr = none := by
  by_cases live : (addr, id) ∈ m.livePairs
  · rcases List.mem_append.1 (sound.agree.mem_iff.2 live) with tagged | isLost
    · obtain ⟨⟨a, tag⟩, inTags, same⟩ := List.mem_map.1 tagged
      cases same
      exact absurd inTags (sound.tags.owner?_eq_none_iff.1 unowned tag)
    · exact .inl ⟨_, List.erase_subset, sound.withLost (List.perm_cons_erase isLost)⟩
  · refine .inr fun p found => Option.eq_none_iff_forall_not_mem.2 fun b start => ?_
    exact live (sound.mem_livePairs_iff.2 ⟨p, b, found, start⟩)

/-- A block that a pool is to release is recorded for it, or it has lost its tag, or it is not live. -/
theorem Sound.releaseBlock (sound : m.Sound lost loans) (caller : Caller) (id : PoolId)
    (addr : Address) : (m.releaseBlock caller id addr).Keeps lost := by
  have released : ∀ {m : Machine} {left : List (Address × PoolId)}, left ⊆ lost →
      m.Sound ((addr, id) :: left) loans → (m.releaseIn caller id addr).Keeps lost := by
    intro m left fewer sound
    obtain ⟨answer, lost', fewer', after⟩ := sound.releaseIn caller
    refine ⟨⟨lost', loans, List.Subset.trans fewer' fewer, after⟩, fun fault stopped => ?_⟩
    rw [answer] at stopped
    cases stopped
  unfold Machine.releaseBlock
  cases owned : m.owner? addr with
  | some owner =>
    by_cases own : owner = id
    · subst own
      simp only [if_true]
      exact released (List.Subset.refl _) (sound.untag owned)
    · simp only [if_neg own]
      exact Outcome.keeps_stop sound rfl
  | none =>
    rcases sound.lost_or_missing id owned with ⟨left, fewer, isLost⟩ | missing
    · exact released fewer isLost
    · obtain ⟨after, clean⟩ := sound.releaseIn_of_none caller missing
      exact ⟨⟨lost, loans, List.Subset.refl _, after⟩, clean⟩

theorem Sound.dropValue (sound : m.Sound lost loans) (value : Value) :
    (m.dropValue value).Sound lost loans :=
  sound.frame rfl rfl rfl rfl

theorem Sound.mark (sound : m.Sound lost loans) (addr : Address) : (m.mark addr).Sound lost loans :=
  sound.frame rfl rfl rfl rfl

theorem Sound.unmark (sound : m.Sound lost loans) (addr : Address) :
    (m.unmark addr).Sound lost loans :=
  sound.frame rfl rfl rfl rfl

/-- Putting a value into a block, or dropping it, is no matter of what the pools do. -/
theorem box_machine (m : Machine) (caller : Caller) (named : Option PoolId) (value : Value) :
    let after := (m.allocate caller named (value.type.request caller.site)).machine
    ∃ bytes dropped, (m.box caller named value).machine =
      { after with system := { after.system with bytes }, dropped } := by
  unfold Machine.box
  generalize m.allocate caller named _ = o
  obtain ⟨answer, after⟩ := o
  cases answer with
  | error fault => exact ⟨_, _, rfl⟩
  | ok answer =>
    cases answer with
    | error failure => exact ⟨_, _, rfl⟩
    | ok addr => exact ⟨_, _, rfl⟩

theorem boxOrAbort_machine (m : Machine) (caller : Caller) (named : Option PoolId)
    (value : Value) :
    (m.boxOrAbort caller named value).machine = (m.box caller named value).machine := by
  unfold Machine.boxOrAbort
  generalize m.box caller named value = o
  obtain ⟨answer, after⟩ := o
  cases answer with
  | error fault => rfl
  | ok answer =>
    cases answer with
    | error failure => rfl
    | ok box => rfl

theorem boxOrAbort_answer (m : Machine) (caller : Caller) (named : Option PoolId)
    (value : Value) : (m.boxOrAbort caller named value).answer.toOption =
      (m.box caller named value).answer.toOption.bind (·.toOption) := by
  unfold Machine.boxOrAbort
  generalize m.box caller named value = o
  obtain ⟨answer, after⟩ := o
  cases answer with
  | error fault => rfl
  | ok answer =>
    cases answer with
    | error failure => rfl
    | ok box => rfl

theorem Sound.box (sound : m.Sound lost loans) (caller : Caller) (named : Option PoolId)
    (value : Value) : (m.box caller named value).Keeps lost := by
  refine (sound.allocate caller named _).keeps.bind fun answer after _ lost' loans' sound' => ?_
  cases answer with
  | error failure => exact Outcome.keeps_ok (sound'.dropValue value) _
  | ok addr => exact Outcome.keeps_ok (sound'.withBytes _) _

theorem Sound.boxOrAbort (sound : m.Sound lost loans) (caller : Caller) (named : Option PoolId)
    (value : Value) : (m.boxOrAbort caller named value).Keeps lost := by
  refine (sound.box caller named value).bind fun answer after _ lost' loans' sound' => ?_
  cases answer with
  | error failure => exact Outcome.keeps_stop sound' rfl
  | ok box => exact Outcome.keeps_ok sound' _

theorem Sound.free (sound : m.Sound lost loans) (caller : Caller) {expected : Option PoolId}
    {addr : Address} (handed : m.Handed loans addr ∨
      ∃ fault, (m.free caller expected addr).answer = .error fault)
    (named : ∀ id, m.owner? addr = some id → expected.all (· == id) = true) :
    (m.free caller expected addr).Keeps lost := by
  unfold Machine.free at handed ⊢
  by_cases marked : m.marks.contains addr = true
  · rw [if_pos marked]
    exact Outcome.keeps_stop sound rfl
  · rw [if_neg marked] at handed ⊢
    cases owned : m.owner? addr with
    | some id => exact (sound.release_owned caller owned (named id owned)).2
    | none =>
      refine sound.release_unowned caller expected owned (handed.imp_left fun known => ?_)
      rcases known with ⟨id, owned'⟩ | loaned
      · rw [owned] at owned'
        cases owned'
      · exact loaned

theorem Sound.freeLayout (sound : m.Sound lost loans) (caller : Caller) {addr : Address}
    (handed : m.Handed loans addr ∨ ∃ fault, (m.freeLayout caller addr).answer = .error fault) :
    (m.freeLayout caller addr).Keeps lost := by
  unfold Machine.freeLayout at handed ⊢
  by_cases marked : m.marks.contains addr = true
  · rw [if_pos marked]
    exact Outcome.keeps_stop sound rfl
  · rw [if_neg marked] at handed ⊢
    exact sound.release caller handed

theorem Sound.directed (sound : m.Sound lost loans) {addr : Address}
    {o : Outcome (Option Address)} (directed : m.Directed addr o)
    (handed : m.Handed loans addr ∨ ∃ fault, o.answer = .error fault) : o.Keeps lost := by
  cases directed with
  | marked harmless => exact Outcome.keeps_stop (sound.withThreads _) harmless
  | relocated caller target known request _ =>
    exact (sound.withThreads _).relocate caller target handed

/-- Every call keeps the state sound if the block that it routes is recorded, for no owner but the
one it names, or handed out, or if it is stopped. -/
theorem Sound.run (sound : m.Sound lost loans) (c : Call)
    (sane : c.Sane m ∨ ∃ fault, (c.run m).answer = .error fault)
    (handed : ∀ addr, c.routed? = some addr →
      m.Handed loans addr ∨ ∃ fault, (c.run m).answer = .error fault)
    (named : ∀ addr, c.routed? = some addr → ∀ owner, m.owner? addr = some owner →
      c.expected?.all (· == owner) = true) : (c.run m).Keeps lost := by
  cases c with
  | openPool caller settings =>
    rcases sane with word | ⟨fault, stopped⟩
    · exact Outcome.keeps_ok (sound.openPool caller word) _
    · cases stopped
  | dropPool caller id =>
    obtain ⟨⟨lost', fewer, after⟩, clean⟩ := sound.dropPool caller id
    exact ⟨⟨lost', loans, fewer, after⟩, clean⟩
  | trimPool id =>
    obtain ⟨after, bytes, answer⟩ := sound.trimPool id
    refine Outcome.Keeps.map ⟨⟨lost, loans, List.Subset.refl _, after⟩, fun fault stopped => ?_⟩ _
    rw [answer] at stopped
    cases stopped
  | exitThread thread =>
    obtain ⟨lost', fewer, after⟩ := sound.exitThread thread
    refine ⟨⟨lost', loans, fewer, after⟩, fun fault stopped => ?_⟩
    cases stopped
  | select caller id => exact Outcome.keeps_ok (sound.select caller id) _
  | restore thread current => exact Outcome.keeps_ok (sound.updateRegister thread _) _
  | allocate caller chosen request => exact (sound.allocate caller chosen request).keeps.map _
  | allocateLayout caller size align zeroed =>
    exact (sound.allocate caller none ⟨size, align, zeroed, none⟩).keeps.map _
  | foreign request => exact (sound.serve .systemHeap request).keeps.map _
  | resizeBlock id addr size => exact (sound.resizeBlock id addr size).map _
  | releaseBlock caller id addr => exact sound.releaseBlock caller id addr
  | reallocate caller chosen addr size =>
    exact (sound.directed (m.reallocate_directed caller chosen addr size)
      ((handed addr rfl).imp_right Outcome.stops_map)).map _
  | reallocateLayout caller addr old align size =>
    exact (sound.directed (m.reallocateLayout_directed caller addr old align size)
      ((handed addr rfl).imp_right Outcome.stops_map)).map _
  | free caller expected addr => exact sound.free caller (handed addr rfl) (named addr rfl)
  | freeLayout caller addr => exact sound.freeLayout caller (handed addr rfl)
  | mark addr => exact Outcome.keeps_ok (sound.mark addr) _
  | unmark addr => exact Outcome.keeps_ok (sound.unmark addr) _
  | write addr len content => exact Outcome.keeps_ok (sound.withBytes _) _
  | box caller chosen value => exact (sound.box caller chosen value).map _
  | boxOrAbort caller chosen value => exact (sound.boxOrAbort caller chosen value).map _
  | assignBox box value =>
    exact Outcome.keeps_ok ((sound.dropValue (m.readBox box)).withBytes _) _
  | dropBox caller box =>
    exact (sound.dropValue (m.readBox box)).release caller (handed box.addr rfl)
  | unbox caller box =>
    have stops := (handed box.addr rfl).imp_right fun stops =>
      Outcome.stops_map (Outcome.stops_map stops)
    exact ((sound.release caller stops).map _).map _
  | dropValue value => exact Outcome.keeps_ok (sound.dropValue value) _
  | reportLeaks => exact Outcome.keeps_ok sound.reportLeaks _
  | adjust system =>
    rcases sane with ⟨below, blocks, _, _⟩ | ⟨fault, stopped⟩
    · have adjusted : { m with system }.Sound lost loans := sound.congr below blocks rfl rfl rfl
      exact Outcome.keeps_ok adjusted _
    · cases stopped

end Machine

end PooledMemory
