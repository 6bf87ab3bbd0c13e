import PooledMemory.Proofs.Machine.Conduct

namespace PooledMemory

/-- How far a pool has come in its life. -/
def Phase.rank : Phase → Nat
  | live => 0
  | deletePending => 1
  | destroyed => 2

namespace Pool

/-- What may become of a pool: its phase only moves on, and a pool that is no longer live gets no
further blocks. -/
structure Evolves (p q : Pool) : Prop extends p.Remains q where
  phase : p.phase.rank ≤ q.phase.rank
  live : p.phase ≠ .live → q.heap.live.length ≤ p.heap.live.length

variable {p q r : Pool} {gone new : List LiveBlock}

theorem Evolves.refl (p : Pool) : p.Evolves p :=
  ⟨⟨rfl, rfl, rfl⟩, Nat.le_refl _, fun _ => Nat.le_refl _⟩

theorem Evolves.trans (first : p.Evolves q) (second : q.Evolves r) : p.Evolves r where
  id := second.id.trans first.id
  settings := second.settings.trans first.settings
  owner := second.owner.trans first.owner
  phase := Nat.le_trans first.phase second.phase
  live := by
    intro ended
    have later : q.phase ≠ .live := by
      intro isLive
      have rank := first.phase
      rw [isLive] at rank
      cases phase : p.phase with
      | live => exact ended phase
      | deletePending => simp [phase, Phase.rank] at rank
      | destroyed => simp [phase, Phase.rank] at rank
    exact Nat.le_trans (second.live later) (first.live ended)

theorem Turn.evolves (turn : p.Turn q gone new) (remains : p.Remains q) : p.Evolves q := by
  refine ⟨remains, ?_, fun ended => ?_⟩
  · cases turn with
    | steady phase _ _ _ => exact Nat.le_of_eq (congrArg Phase.rank phase.symm)
    | issued before _ _ _ => exact before ▸ Nat.zero_le _
    | resized phase _ _ _ _ => exact Nat.le_of_eq (congrArg Phase.rank phase.symm)
    | released phase _ _ _ _ => exact Nat.le_of_eq (congrArg Phase.rank phase.symm)
    | deferred before _ _ _ => exact before ▸ Nat.zero_le _
  · cases turn with
    | steady _ live _ _ => exact Nat.le_of_eq (congrArg List.length live)
    | issued before _ _ _ => exact absurd before ended
    | resized _ before behind _ _ =>
      exact Nat.le_of_eq (behind.length_eq.trans before.length_eq.symm)
    | released _ before behind _ _ =>
      rw [before.length_eq, behind.length_eq]
      exact Nat.le_succ _
    | deferred before _ _ _ => exact absurd before ended

theorem Turn.destroyed_iff (turn : p.Turn q gone new) :
    q.phase = .destroyed ↔ p.phase = .destroyed := by
  cases turn with
  | steady phase _ _ _ => rw [phase]
  | issued before behind _ _ => simp [before, behind]
  | resized phase _ _ _ _ => rw [phase]
  | released phase _ _ _ _ => rw [phase]
  | deferred before behind _ _ => simp [before, behind]

theorem Turn.pending (turn : p.Turn q gone new)
    (before : p.phase = .deletePending → p.heap.live ≠ []) (waits : q.phase = .deletePending) :
    q.heap.live ≠ [] := by
  cases turn with
  | steady phase live _ _ =>
    rw [live]
    exact before (phase.symm.trans waits)
  | issued _ behind _ _ => cases behind.symm.trans waits
  | resized _ _ perm _ _ => exact fun nothing => by simpa [nothing] using perm.length_eq
  | released phase _ _ _ occupied => exact occupied (phase.symm.trans waits)
  | deferred _ _ heap occupied =>
    rw [heap]
    exact occupied

theorem Turn.vacant (turn : p.Turn q gone new) (before : p.phase = .destroyed → p.heap.Vacant)
    (ended : q.phase = .destroyed) : q.heap.Vacant := by
  have vacant := before (turn.destroyed_iff.1 ended)
  cases turn with
  | steady phase _ _ stays => exact stays (phase.symm.trans ended) vacant
  | issued _ behind _ _ => cases behind.symm.trans ended
  | resized _ perm _ _ _ => simpa [vacant.live] using perm.length_eq
  | released _ perm _ _ _ => simpa [vacant.live] using perm.length_eq
  | deferred _ behind _ _ => cases behind.symm.trans ended

end Pool

namespace Machine

/-- The numbers of the pools that are not destroyed. -/
def standing (pools : List Pool) : List PoolId :=
  (pools.filter (·.phase != .destroyed)).map (·.id)

/-- Exactly the pools that are not destroyed are listed, those that wait for blocks have some, and
nothing is left in those that are destroyed. -/
structure Enrolled (m : Machine) : Prop where
  listed : m.roster.Perm (standing m.pools)
  pending : ∀ p ∈ m.pools, p.phase = .deletePending → p.heap.live ≠ []
  vacant : ∀ p ∈ m.pools, p.phase = .destroyed → p.heap.Vacant

/-- Pools change as pools may, and new ones come after all others. -/
structure Evolves (m after : Machine) : Prop where
  pools : ∀ p ∈ m.pools, ∃ q ∈ after.pools, p.Evolves q
  ids : m.pools.map (·.id) <+: after.pools.map (·.id)

variable {m middle after : Machine} {lost : List (Address × PoolId)} {loans : List SystemBlock}
  {id : PoolId} {p q : Pool} {gone new : List Block} {written : List Span} {c : Call}

theorem Evolves.refl (m : Machine) : m.Evolves m :=
  ⟨fun p member => ⟨p, member, .refl p⟩, List.prefix_refl _⟩

theorem Evolves.trans (first : m.Evolves middle) (second : middle.Evolves after) :
    m.Evolves after := by
  refine ⟨fun p member => ?_, first.ids.trans second.ids⟩
  obtain ⟨q, inMiddle, evolves⟩ := first.pools p member
  obtain ⟨r, inAfter, evolves'⟩ := second.pools q inMiddle
  exact ⟨r, inAfter, evolves.trans evolves'⟩

/-- Nothing but the removed element is lost, wherever the last one ends up. -/
theorem swapRemove_perm {ids : List PoolId} (member : id ∈ ids) :
    ids.Perm (id :: swapRemove ids id) := by
  obtain ⟨i, index⟩ := Option.isSome_iff_exists.1 (List.isSome_idxOf?.2 member)
  obtain ⟨inside, here, _⟩ := List.idxOf?_eq_some_iff.1 index
  obtain ⟨init, last, rfl⟩ := (List.eq_nil_or_concat' ids).resolve_left (List.ne_nil_of_mem member)
  have removed : swapRemove (init ++ [last]) id = init.set i last := by
    simp only [swapRemove, index, List.getLast?_concat, List.dropLast_concat]
  have front : (init ++ [last]).Perm (last :: init) := List.perm_append_singleton last init
  rw [removed]
  by_cases early : i < init.length
  · rw [List.getElem_append_left early] at here
    have taken : init.Perm (id :: init.eraseIdx i) := by
      rw [← here]
      exact (List.getElem_cons_eraseIdx_perm early).symm
    have put := List.set_perm_cons_eraseIdx early last
    exact (front.trans (taken.cons last)).trans ((List.Perm.swap ..).trans (put.symm.cons id))
  · rw [List.getElem_append_right (Nat.le_of_not_lt early), List.getElem_singleton] at here
    rw [List.set_eq_of_length_le (Nat.le_of_not_lt early), ← here]
    exact front

theorem standing_perm {pools pools' : List Pool} (perm : pools.Perm pools') :
    (standing pools).Perm (standing pools') :=
  (perm.filter _).map _

theorem standing_cons (p : Pool) (pools : List Pool) :
    standing (p :: pools) =
      if p.phase = .destroyed then standing pools else p.id :: standing pools := by
  unfold standing
  by_cases ended : p.phase = .destroyed
  · rw [if_pos ended, List.filter_cons_of_neg (by simp [ended])]
  · rw [if_neg ended, List.filter_cons_of_pos (by simpa using ended), List.map_cons]

theorem Enrolled.mem_roster (enrolled : m.Enrolled) :
    id ∈ m.roster ↔ ∃ p ∈ m.pools, p.phase ≠ .destroyed ∧ p.id = id := by
  rw [enrolled.listed.mem_iff, standing, List.mem_map]
  simp only [List.mem_filter, bne_iff_ne, and_assoc]

/-- A live pool is always on the list. -/
theorem Enrolled.listed_of_live (enrolled : m.Enrolled)
    (isLive : (m.pool? id).map (·.phase) = some .live) : id ∈ m.roster := by
  obtain ⟨p, found, phase⟩ := Option.map_eq_some_iff.1 isLive
  obtain ⟨inPools, number⟩ := pool?_mem found
  exact enrolled.mem_roster.2 ⟨p, inPools, by simp [phase], number⟩

/-- One pool is replaced by another state of it. -/
theorem Sound.replaced (sound : m.Sound lost loans) (found : m.pool? p.id = some p)
    (pools : after.pools = (m.updatePool p.id fun _ => q).pools) :
    m.pools.Perm (p :: m.others p.id) ∧ after.pools.Perm (q :: m.others p.id) :=
  ⟨sound.pools_perm found, pools ▸ sound.updatePool_perm found fun _ => q⟩

theorem Sound.replaced_evolves (sound : m.Sound lost loans) (found : m.pool? p.id = some p)
    (pools : after.pools = (m.updatePool p.id fun _ => q).pools) (evolves : p.Evolves q) :
    m.Evolves after := by
  obtain ⟨before, behind⟩ := sound.replaced found pools
  refine ⟨fun r member => ?_, ?_⟩
  · rcases List.mem_cons.1 (before.subset member) with rfl | other
    · exact ⟨q, behind.symm.subset (List.mem_cons_self ..), evolves⟩
    · exact ⟨r, behind.symm.subset (List.mem_cons_of_mem _ other), .refl r⟩
  · have numbers : after.pools.map (·.id) = m.pools.map (·.id) := by
      rw [pools, Machine.updatePool, List.map_map]
      refine List.map_congr_left fun r _ => ?_
      by_cases same : r.id = p.id
      · simp [same, evolves.id]
      · simp [same]
    exact ⟨[], by rw [List.append_nil, numbers]⟩

theorem Enrolled.opened (enrolled : m.Enrolled) (pools : after.pools = m.pools ++ [p])
    (roster : after.roster = m.roster ++ [p.id]) (phase : p.phase = .live) :
    after.Enrolled ∧ m.Evolves after := by
  have stands : standing [p] = [p.id] := by simp [standing, phase]
  have all : ∀ {P : Pool → Prop}, (∀ r ∈ m.pools, P r) → P p → ∀ r ∈ after.pools, P r := by
    intro P old same r member
    rw [pools] at member
    rcases List.mem_append.1 member with inPools | new
    · exact old r inPools
    · rwa [List.mem_singleton.1 new]
  refine ⟨⟨?_, all enrolled.pending ?_, all enrolled.vacant ?_⟩, fun r member => ?_, ?_⟩
  · rw [roster, pools, standing, List.filter_append, List.map_append, ← stands]
    exact enrolled.listed.append_right _
  · rw [phase]
    exact nofun
  · rw [phase]
    exact nofun
  · rw [pools]
    exact ⟨r, List.mem_append_left _ member, .refl r⟩
  · rw [pools, List.map_append]
    exact List.prefix_append _ _

/-- What holds of all pools holds of them when one is replaced. -/
theorem Sound.forall_replaced {P : Pool → Prop} (sound : m.Sound lost loans)
    (found : m.pool? p.id = some p) (pools : after.pools = (m.updatePool p.id fun _ => q).pools)
    (old : ∀ r ∈ m.pools, P r) (new : P q) : ∀ r ∈ after.pools, P r := by
  intro r member
  rcases List.mem_cons.1 ((sound.replaced found pools).2.subset member) with rfl | other
  · exact new
  · exact old r (List.mem_of_mem_filter other)

theorem Sound.enrolled_turned {gone new : List LiveBlock} (sound : m.Sound lost loans)
    (enrolled : m.Enrolled) (found : m.pool? p.id = some p)
    (pools : after.pools = (m.updatePool p.id fun _ => q).pools) (roster : after.roster = m.roster)
    (remains : p.Remains q) (turn : p.Turn q gone new) : after.Enrolled := by
  obtain ⟨inPools, _⟩ := pool?_mem found
  obtain ⟨before, behind⟩ := sound.replaced found pools
  have same : standing (p :: m.others p.id) = standing (q :: m.others p.id) := by
    simp only [standing_cons, turn.destroyed_iff, remains.id]
  refine ⟨?_, ?_, ?_⟩
  · rw [roster]
    refine enrolled.listed.trans ((standing_perm before).trans ?_)
    rw [same]
    exact (standing_perm behind).symm
  · exact sound.forall_replaced found pools enrolled.pending
      (turn.pending (enrolled.pending p inPools))
  · exact sound.forall_replaced found pools enrolled.vacant
      (turn.vacant (enrolled.vacant p inPools))

theorem Sound.enrolled_ended (sound : m.Sound lost loans) (enrolled : m.Enrolled)
    (found : m.pool? p.id = some p) (pools : after.pools = (m.updatePool p.id fun _ => q).pools)
    (roster : after.roster = swapRemove m.roster p.id) (stands : p.phase ≠ .destroyed)
    (ended : q.phase = .destroyed) (vacant : q.heap.Vacant) : after.Enrolled := by
  obtain ⟨before, behind⟩ := sound.replaced found pools
  refine ⟨?_, ?_, ?_⟩
  · have first := enrolled.listed.trans (standing_perm before)
    have second := standing_perm behind
    rw [standing_cons, if_neg stands] at first
    rw [standing_cons, if_pos ended] at second
    have inRoster : p.id ∈ m.roster := first.symm.subset (List.mem_cons_self ..)
    rw [roster]
    exact ((swapRemove_perm inRoster).symm.trans first).cons_inv.trans second.symm
  · refine sound.forall_replaced found pools enrolled.pending ?_
    rw [ended]
    exact nofun
  · exact sound.forall_replaced found pools enrolled.vacant fun _ => vacant

/-- One operation keeps the list of pools in order. -/
theorem Sound.change_enrolled (sound : m.Sound lost loans) (enrolled : m.Enrolled)
    (change : Change m after gone new written) : after.Enrolled ∧ m.Evolves after := by
  cases change.shift with
  | still pools roster _ _ =>
    obtain ⟨listed, pending, vacant⟩ := enrolled
    rw [← pools] at pending vacant
    rw [← pools, ← roster] at listed
    refine ⟨⟨listed, pending, vacant⟩, ?_, ⟨[], by rw [List.append_nil, pools]⟩⟩
    rw [pools]
    exact (Evolves.refl m).pools
  | opened pools roster _ _ phase _ => exact enrolled.opened pools roster phase
  | turned found pools roster _ remains turn =>
    exact ⟨sound.enrolled_turned enrolled found pools roster remains turn,
      sound.replaced_evolves found pools (turn.evolves remains)⟩
  | @ended p q found pools roster _ remains stands ended vacant _ =>
    have evolves : p.Evolves q := by
      refine ⟨remains, ?_, fun _ => ?_⟩
      · rw [ended]
        cases p.phase <;> decide
      · rw [vacant.live]
        exact Nat.zero_le _
    exact ⟨sound.enrolled_ended enrolled found pools roster stands ended vacant,
      sound.replaced_evolves found pools evolves⟩

theorem Course.enrolled {may : Machine → List Block → List Block → List Span → Prop}
    (course : Course may m after) (sound : ∃ lost loans, m.Sound lost loans)
    (enrolled : m.Enrolled) : after.Enrolled ∧ m.Evolves after := by
  induction course with
  | refl => exact ⟨enrolled, .refl m⟩
  | tail before step ih =>
    obtain ⟨_, _, _, change, _⟩ := step
    obtain ⟨_, _, soundMiddle⟩ := Course.sound before sound
    obtain ⟨still, evolves⟩ := ih
    obtain ⟨enrolled', evolves'⟩ := soundMiddle.change_enrolled still change
    exact ⟨enrolled', evolves.trans evolves'⟩

theorem Relocation.course {addr : Address} {target : Target} {known : Option Nat}
    {request : Request} {o : Outcome (Option Address)}
    (relocation : Relocation m addr target known request o) :
    Course (fun _ _ _ _ => True) m o.machine := by
  cases relocation with
  | refused change _ => exact change.course trivial
  | refitted _ _ _ _ change _ _ _ => exact change.course trivial
  | carried _ _ _ issue way _ _ _ _ =>
    exact (issue.course trivial).trans (way.mono fun _ _ _ _ _ => trivial)
  | abandoned _ issue untag release _ =>
    exact (issue.course trivial).trans ((untag.course trivial).trans (release.course trivial))

end Machine

/-- Calls as they conduct themselves keep the list of pools in order. -/
theorem Call.Conduct.enrolled {m after : Machine} {lost : List (Address × PoolId)}
    {loans : List SystemBlock} {c : Call} (conduct : c.Conduct m after) (sound : m.Sound lost loans)
    (enrolled : m.Enrolled) : after.Enrolled ∧ m.Evolves after := by
  cases conduct with
  | rises _ course => exact course.enrolled ⟨_, _, sound⟩ enrolled
  | falls _ course => exact course.enrolled ⟨_, _, sound⟩ enrolled
  | @moves _ _ _ _ threads _ _ _ relocation same =>
    subst same
    have targeted := sound.withThreads threads
    obtain ⟨listed, pending, vacant⟩ := enrolled
    obtain ⟨enrolled', pools, ids⟩ :=
      relocation.course.enrolled ⟨_, _, targeted⟩ ⟨listed, pending, vacant⟩
    exact ⟨enrolled', pools, ids⟩

namespace Machine

variable {m after : Machine} {lost : List (Address × PoolId)} {loans : List SystemBlock}
  {id : PoolId} {p q : Pool}

theorem start_enrolled (slots : List Nat) : (Machine.start slots).Enrolled :=
  ⟨.refl _, List.forall_mem_nil _, List.forall_mem_nil _⟩

theorem Reachable.enrolled (reached : Reachable m) : m.Enrolled := by
  induction reached with
  | start slots => exact start_enrolled slots
  | step c before proper ih =>
    obtain ⟨loans, sound⟩ := before.sound
    exact ((before.conduct proper).enrolled sound ih).1

/-- The states that proper calls lead to. -/
inductive Follows (m : Machine) : Machine → Prop
  | refl : Follows m m
  | step {middle : Machine} (c : Call) : Follows m middle → c.Proper middle →
    Follows m (c.run middle).machine

theorem Follows.reachable (follows : m.Follows after) (reached : Reachable m) :
    Reachable after := by
  induction follows with
  | refl => exact reached
  | step c _ proper ih => exact ih.step c proper

theorem Follows.evolves (follows : m.Follows after) (reached : Reachable m) : m.Evolves after := by
  induction follows with
  | refl => exact .refl m
  | step c before proper ih =>
    have middle := before.reachable reached
    obtain ⟨loans, sound⟩ := middle.sound
    exact ih.trans ((middle.conduct proper).enrolled sound middle.enrolled).2

/-- No two pools have one number, and exactly the pools that are not destroyed are listed, once
each. A pool that waits for its blocks has some, and a destroyed one has nothing. -/
structure Registered (m : Machine) : Prop where
  ids : (m.pools.map (·.id)).Nodup
  listed : m.listedPools.Perm (m.pools.filter (·.phase != .destroyed))
  pending : ∀ p ∈ m.pools, p.phase = .deletePending → p.heap.live ≠ []
  vacant : ∀ p ∈ m.pools, p.phase = .destroyed →
    p.heap.segments = [] ∧ p.heap.holdings = [] ∧ p.heap.parked = [] ∧ p.heap.live = []
  untagged : ∀ p ∈ m.pools, p.phase = .destroyed → ∀ addr, m.owner? addr ≠ some p.id

theorem Sound.listed_perm (sound : m.Sound lost loans) (enrolled : m.Enrolled) :
    m.listedPools.Perm (m.pools.filter (·.phase != .destroyed)) := by
  refine (enrolled.listed.filterMap m.pool?).trans (.of_eq ?_)
  rw [standing, List.filterMap_map]
  have each : ∀ p ∈ m.pools.filter (·.phase != .destroyed), (m.pool? ∘ (·.id)) p = some p :=
    fun p member => sound.pool?_eq (List.mem_of_mem_filter member)
  rw [List.filterMap_congr each, List.filterMap_some]

/-- Whoever takes its last block from a pool that waits for it destroys the pool. -/
theorem Evolves.destroyed (evolves : m.Evolves after) (registered : after.Registered)
    (inPools : p ∈ m.pools) (inAfter : q ∈ after.pools) (same : q.id = p.id)
    (waits : p.phase = .deletePending) (nothing : q.heap.live = []) : q.phase = .destroyed := by
  obtain ⟨r, member, later⟩ := evolves.pools p inPools
  have one : q = r :=
    List.inj_on_of_nodup_map registered.ids inAfter member (same.trans later.id.symm)
  have rank := later.phase
  rw [waits, ← one] at rank
  cases phase : q.phase with
  | live => simp [phase, Phase.rank] at rank
  | deletePending => exact absurd nothing (registered.pending q inAfter phase)
  | destroyed => rfl

/-- In all states that programs reach, the pools are registered as their phases demand, and whatever
programs do next, pools only move on to later phases. -/
theorem Reachable.registered (reached : Reachable m) : m.Registered ∧
    ∀ after, m.Follows after → m.Evolves after ∧ after.Registered ∧
      ∀ p ∈ m.pools, ∀ q ∈ after.pools, q.id = p.id → p.phase = .deletePending →
        q.heap.live = [] → q.phase = .destroyed := by
  have registered : ∀ {m : Machine}, Reachable m → m.Registered := by
    intro m reached
    obtain ⟨loans, sound⟩ := reached.sound
    have enrolled := reached.enrolled
    refine ⟨sound.ids, sound.listed_perm enrolled, enrolled.pending, fun p member ended => ?_,
      fun p member ended addr owned => ?_⟩
    · have vacant := enrolled.vacant p member ended
      exact ⟨vacant.segments, vacant.holdings, vacant.parked, vacant.live⟩
    · obtain ⟨q, b, found, start⟩ := sound.live_of_owner? owned
      cases (sound.pool?_eq member).symm.trans found
      have live := (Heap.block?_mem start).1
      rw [(enrolled.vacant p member ended).live] at live
      cases live
  refine ⟨registered reached, fun after follows => ?_⟩
  have evolves := follows.evolves reached
  have registered' := registered (follows.reachable reached)
  exact ⟨evolves, registered', fun p inPools q inAfter same waits nothing =>
    evolves.destroyed registered' inPools inAfter same waits nothing⟩

theorem Follows.runAll {middle : Machine} (follows : m.Follows middle) (calls : List Call)
    (fit : Call.areProper calls middle = true) : m.Follows (Call.runAll calls middle) := by
  induction calls generalizing middle with
  | nil => exact follows
  | cons c rest ih =>
    simp only [Call.areProper, Bool.and_eq_true] at fit
    exact ih (follows.step c (Call.proper_of_isProper fit.1)) fit.2

/-- A pool whose handle is gone waits for its only block. -/
def waiting : Machine := Call.runAll
  [.openPool { thread := 0 } { lazy := true }, .allocate { thread := 0 } (some 1) (.plain 40),
    .dropPool { thread := 0 } 1]
  (.start [3])

/-- The block that a pool waits for moves to the system heap, and that is the end of the pool. -/
theorem waiting_registered :
    let after := Call.runAll [.reallocate { thread := 1 } none (SystemHeap.slotBase 3) 60] waiting
    (waiting.pools.map (·.phase) = [.deletePending] ∧ after.pools.map (·.phase) = [.destroyed]) ∧
      waiting.Registered ∧ waiting.Evolves after ∧ after.Registered := by
  have reached : Reachable waiting := (Reachable.start [3]).runAll _ (by decide +kernel)
  have follows := (Follows.refl : waiting.Follows waiting).runAll
    [.reallocate { thread := 1 } none (SystemHeap.slotBase 3) 60] (by decide +kernel)
  obtain ⟨registered, later⟩ := Reachable.registered reached
  obtain ⟨evolves, registered', _⟩ := later _ follows
  exact ⟨⟨by decide +kernel, by decide +kernel⟩, registered, evolves, registered'⟩

end Machine

end PooledMemory
