import PooledMemory.Proofs.Machine.Reachable
import PooledMemory.Proofs.Machine.Relocation

namespace PooledMemory

namespace Machine

/-- The state of a move when its new place has been requested, if it needs one. -/
def arrival (m : Machine) (addr : Address) (target : Target) (request : Request) : Machine :=
  if m.owner? addr = target.owner then m else (m.serve target request).machine

end Machine

namespace Call

/-- A call may take a block out of use. -/
def disposes : Call → Bool
  | dropPool .. | exitThread .. | resizeBlock .. | releaseBlock .. | reallocate ..
  | reallocateLayout .. | free .. | freeLayout .. | dropBox .. | unbox .. => true
  | _ => false

/-- Where a call puts content that its caller has chosen. -/
def written? : Call → Option Span
  | write addr len _ => some ⟨addr, len⟩
  | assignBox target value => some ⟨target.addr, value.type.payload⟩
  | _ => none

/-- The state of a call in between, when a block that moves to another heap has both its places.
Other calls have no such state, and it is where they begin. -/
def midway (c : Call) (m : Machine) : Machine :=
  match c with
  | reallocate caller named addr size =>
    if m.marks.contains addr then m
    else (m.target caller named).2.arrival addr (m.target caller named).1 (.plain size caller.site)
  | reallocateLayout caller addr _ align size =>
    if m.marks.contains addr then m
    else (m.target caller none).2.arrival addr (m.target caller none).1 ⟨size, align, false, none⟩
  | _ => m

/-- No block goes out of use, and those in use from the start are written to on demand only. -/
structure Rising (c : Call) (m _after : Machine) (gone _new : List Block) (written : List Span) :
    Prop where
  gone : gone = []
  written : ∀ w ∈ written, c.written? = some w ∨ ∀ b, m.InUse b → b.span.Apart w

/-- No block comes into use. The ones that go are named, or their pool has ended. -/
structure Falling (c : Call) (after : Machine) (gone new : List Block) (written : List Span) :
    Prop where
  gone : ∀ b ∈ gone, c.block? = some b.addr ∨ ∃ id, b.owner = some id ∧ after.HasEnded id
  new : new = []
  written : written = []

/-- What a call does: blocks come into use, or go out of use, or one block is resized or moved. -/
inductive Conduct (c : Call) (m after : Machine) : Prop
  | rises : c.block? = none → Machine.Course (c.Rising m) m after → Conduct c m after
  | falls : c.midway m = m → Machine.Course c.Falling m after → Conduct c m after
  | moves {addr : Address} {target : Target} {known : Option Nat} {request : Request}
    {threads : ThreadId → Register} {o : Outcome (Option Address)} : c.block? = some addr →
    c.midway m = ({ m with threads } : Machine).arrival addr target request →
    Machine.Relocation { m with threads } addr target known request o → o.machine = after →
    Conduct c m after

end Call

namespace Machine

variable {m after : Machine} {lost : List (Address × PoolId)} {loans : List SystemBlock}
  {id : PoolId} {c : Call} {gone new : List Block} {written : List Span}

theorem Course.refl {may : Machine → List Block → List Block → List Span → Prop} : Course may m m :=
  Relation.ReflTransGen.refl

theorem Change.rises {first : Machine} (change : Change m after [] new []) :
    Course (c.Rising first) m after :=
  change.course ⟨rfl, by simp⟩

theorem Change.falls (change : Change m after gone [] [])
    (named : ∀ b ∈ gone, c.block? = some b.addr ∨ ∃ id, b.owner = some id ∧ after.HasEnded id) :
    Course c.Falling m after :=
  change.course ⟨named, rfl, rfl⟩

/-- What threads remember is no part of a change. -/
theorem Change.of_threads {threads : ThreadId → Register}
    (change : Change { m with threads } after gone new written) :
    Change m after gone new written := by
  obtain ⟨⟨inUse, old, fresh, kept⟩, sound, shift⟩ := change
  refine ⟨⟨inUse, old, fresh, kept⟩, sound, ?_⟩
  cases shift with
  | still pools roster nextId owners => exact .still pools roster nextId owners
  | opened pools roster number nextId phase heap =>
    exact .opened pools roster number nextId phase heap
  | turned found pools roster nextId remains turn =>
    exact .turned found pools roster nextId remains turn
  | ended found pools roster nextId remains before behind vacant peak =>
    exact .ended found pools roster nextId remains before behind vacant peak

theorem Sound.allocate_supplies (sound : m.Sound lost loans) (caller : Caller)
    (named : Option PoolId) (request : Request) :
    Supplied m (m.target caller named).1.owner request (m.allocate caller named request) := by
  obtain ⟨threads, same⟩ := target_machine m caller named
  have targeted := sound.withThreads threads
  have supplied := targeted.serve_supplied (m.target caller named).1 request
  show Supplied m _ request ((m.target caller named).2.serve (m.target caller named).1 request)
  rw [same]
  generalize ({ m with threads } : Machine).serve (m.target caller named).1 request = o at supplied
  cases supplied with
  | refused change => exact .refused change.of_threads
  | supplied change owner enough => exact .supplied change.of_threads owner enough

theorem Sound.allocate_supplied (sound : m.Sound lost loans) (caller : Caller)
    (named : Option PoolId) (request : Request) :
    ∃ owner, Supplied m owner request (m.allocate caller named request) :=
  ⟨_, sound.allocate_supplies caller named request⟩

theorem Supplied.rises {owner : Option PoolId} {request : Request}
    {o : Outcome (Except Failure Address)} (supplied : Supplied m owner request o) :
    Course (c.Rising m) m o.machine := by
  cases supplied with
  | refused change => exact change.rises
  | supplied change _ _ => exact change.rises

/-- A block that has just come into use lies apart from all others. -/
theorem Change.apart_new {b d : Block} {len : Nat} (change : Change m after [] [b] [])
    (used : m.InUse d) (le : len ≤ b.size) : d.span.Apart ⟨b.addr, len⟩ := by
  obtain ⟨lost', loans', sound'⟩ := change.sound
  have other : d ≠ b := fun same => by
    simpa using change.fresh b (List.mem_singleton_self b) (same ▸ used)
  have comes : after.InUse b := (change.inUse b).2 (.inl (List.mem_singleton_self b))
  exact (sound'.inUse_apart (change.still_inUse used (by simp)) comes other).mono
    (Span.within_of_le le)

/-- A value is written to a block that has just come into use. -/
theorem Sound.box_rises (sound : m.Sound lost loans) (caller : Caller) (named : Option PoolId)
    (value : Value) : Course (c.Rising m) m (m.box caller named value).machine := by
  obtain ⟨owner, supplied⟩ :=
    sound.allocate_supplied caller named (value.type.request caller.site)
  unfold Machine.box
  generalize m.allocate caller named _ = o at supplied
  cases supplied with
  | @refused failure middle change =>
    obtain ⟨lost', loans', sound'⟩ := change.sound
    have drop : Change middle (middle.dropValue value) [] [] [] :=
      sound'.aside (sound'.dropValue value) rfl rfl rfl rfl
    exact change.rises.trans drop.rises
  | @supplied b middle change _ enough =>
    obtain ⟨lost', loans', sound'⟩ := change.sound
    have fits : value.type.payload ≤ b.size :=
      Nat.le_trans value.type.payload_le_size (Nat.le_trans (Nat.le_max_left _ _) enough)
    have fill := sound'.write_change b.addr value.type.payload value.byte
    refine change.rises.trans (fill.course ⟨rfl, fun w member => .inr fun d used => ?_⟩)
    rw [List.mem_singleton.1 member]
    exact change.apart_new used fits

theorem Sound.boxOrAbort_rises (sound : m.Sound lost loans) (caller : Caller)
    (named : Option PoolId) (value : Value) :
    Course (c.Rising m) m (m.boxOrAbort caller named value).machine := by
  rw [boxOrAbort_machine]
  exact sound.box_rises caller named value

theorem Sound.reportLeaks_change (sound : m.Sound lost loans) :
    Change m m.reportLeaks.2 [] [] [] := by
  obtain ⟨events, same⟩ := reportLeaks_machine m
  rw [same]
  exact sound.aside (sound.frame rfl rfl rfl rfl) rfl rfl rfl rfl

/-- Nobody holds the handle of a pool any more. -/
theorem Sound.letGo_change (sound : m.Sound lost loans) (id : PoolId) :
    Change m (m.updatePool id ({ · with held := false })) [] [] [] := by
  have sound' : (m.updatePool id ({ · with held := false })).Sound lost loans :=
    sound.updatePool fun _ => ⟨rfl, rfl, rfl⟩
  cases found : m.pool? id with
  | none =>
    refine sound.aside sound' ?_ rfl rfl rfl
    refine (List.map_congr_left fun q member => if_neg ?_).trans (List.map_id' _)
    simpa using List.find?_eq_none.1 found q member
  | some p =>
    obtain ⟨_, rfl⟩ := pool?_mem found
    have pools := congrArg Machine.pools (sound.updatePool_eq found ({ · with held := false }))
    exact sound.turned sound' [] [] found pools rfl rfl ⟨rfl, rfl, rfl⟩
      (.steady rfl rfl rfl fun _ vacant => vacant) fun _ _ _ _ => rfl

theorem Sound.retire_falls (sound : m.Sound lost loans) (caller : Caller) (id : PoolId) :
    Course c.Falling m (m.retire caller id).2 := by
  obtain ⟨gone, change, ended⟩ := sound.retire_change caller id
  exact change.falls fun b member => .inr ⟨id, ended b member⟩

theorem Sound.dropPool_falls (sound : m.Sound lost loans) (caller : Caller) (id : PoolId) :
    Course c.Falling m (m.dropPool caller id).machine := by
  obtain ⟨lost', _, sound'⟩ := sound.retire caller id
  have course : Course c.Falling m
      ((m.retire caller id).2.updatePool id ({ · with held := false })) :=
    (sound.retire_falls caller id).trans ((sound'.letGo_change id).falls (by simp))
  unfold Machine.dropPool
  simp only
  split
  · split
    · exact course
    · exact course
  · exact course

theorem Sound.exitThread_falls (sound : m.Sound lost loans) (thread : ThreadId) :
    Course c.Falling m (m.exitThread thread) := by
  have retireAll : ∀ (owned : List Pool) (m : Machine) (lost : List (Address × PoolId)),
      m.Sound lost loans → Course c.Falling m
        (owned.foldl (fun m p => (m.retire { thread, nested := true } p.id).2) m) := by
    intro owned
    induction owned with
    | nil => exact fun m lost sound => .refl
    | cons p rest ih =>
      intro m lost sound
      obtain ⟨middle, _, retired⟩ := sound.retire { thread, nested := true } p.id
      exact (sound.retire_falls { thread, nested := true } p.id).trans (ih _ middle retired)
  have forgets : ∀ middle, Course c.Falling m middle →
      Course c.Falling m (middle.updateRegister thread fun _ => .empty) := by
    intro middle course
    obtain ⟨lost', loans', sound'⟩ := course.sound ⟨lost, loans, sound⟩
    exact course.trans ((sound'.aside (sound'.updateRegister _ _) rfl rfl rfl rfl).falls (by simp))
  unfold Machine.exitThread
  simp only
  split
  · exact forgets m .refl
  · have reaped := fun count => sound.note (.threadReaped thread count)
    have noted : ∀ count, Change m (m.note (.threadReaped thread count)) [] [] [] :=
      fun count => sound.aside (reaped count) rfl rfl rfl rfl
    exact forgets _ (((noted _).falls (by simp)).trans (retireAll _ _ lost (reaped _)))

/-- A block is released, or the call stops with at most the record of the block taken off. -/
theorem Sound.release_course (sound : m.Sound lost loans) (caller : Caller)
    {expected : Option PoolId} {addr : Address} (handed : m.Handed loans addr ∨
      ∃ fault, (m.release caller expected addr).answer = .error fault) :
    Course (fun _ gone new written => (∀ b ∈ gone, b.addr = addr) ∧ new = [] ∧ written = []) m
      (m.release caller expected addr).machine := by
  have released : m.Handed loans addr →
      (∀ id, m.owner? addr = some id → expected.all (· == id) = true) →
      Course (fun _ gone new written => (∀ b ∈ gone, b.addr = addr) ∧ new = [] ∧ written = []) m
        (m.release caller expected addr).machine := by
    intro known fits
    obtain ⟨b, untagged, after, same, _, rfl, untag, release⟩ :=
      sound.release_change caller expected known fits
    rw [same]
    exact (untag.course ⟨by simp, rfl, rfl⟩).trans (release.course ⟨by simp, rfl, rfl⟩)
  cases owned : m.owner? addr with
  | some owner =>
    by_cases fits : expected.all (· == owner) = true
    · refine released (.inl ⟨owner, owned⟩) fun id owned' => ?_
      cases owned.symm.trans owned'
      exact fits
    · cases expected with
      | none => exact absurd rfl fits
      | some other =>
        have wrong : other ≠ owner := by simpa using fits
        rw [sound.release_misnamed caller owned wrong]
        exact (sound.untag_change owned).course ⟨by simp, rfl, rfl⟩
  | none =>
    rcases handed with known | ⟨fault, stopped⟩
    · refine released known fun id owned' => ?_
      cases owned.symm.trans owned'
    · obtain returned | ⟨holder, _, same⟩ := sound.release_of_unowned caller expected owned
      · rw [returned] at stopped
        cases stopped
      · rw [same]
        have noted := sound.note (.strayRelease holder addr)
        exact (sound.aside noted rfl rfl rfl rfl).course ⟨by simp, rfl, rfl⟩

theorem Sound.release_falls (sound : m.Sound lost loans) (caller : Caller)
    {expected : Option PoolId} {addr : Address} (named : c.block? = some addr)
    (handed : m.Handed loans addr ∨
      ∃ fault, (m.release caller expected addr).answer = .error fault) :
    Course c.Falling m (m.release caller expected addr).machine :=
  (sound.release_course caller handed).mono fun _ _ _ _ ⟨gone, new, written⟩ =>
    ⟨fun b member => .inl (named.trans (congrArg some (gone b member).symm)), new, written⟩

theorem Sound.dropBox_falls (sound : m.Sound lost loans) (caller : Caller) (box : Boxed)
    (handed : m.Handed loans box.addr ∨ ∃ fault, (m.dropBox caller box).answer = .error fault) :
    Course (Call.dropBox caller box).Falling m (m.dropBox caller box).machine := by
  have drop : Change m (m.dropValue (m.readBox box)) [] [] [] :=
    sound.aside (sound.dropValue (m.readBox box)) rfl rfl rfl rfl
  have release := (sound.dropValue (m.readBox box)).release_falls (c := .dropBox caller box)
    caller rfl handed
  exact (drop.falls (by simp)).trans release

theorem Sound.unbox_falls (sound : m.Sound lost loans) (caller : Caller) (box : Boxed)
    (handed : m.Handed loans box.addr ∨
      ∃ fault, ((Call.unbox caller box).run m).answer = .error fault) :
    Course (Call.unbox caller box).Falling m (m.unbox caller box).machine :=
  sound.release_falls caller rfl
    (handed.imp_right fun stops => Outcome.stops_map (Outcome.stops_map stops))

/-- A pool is to release what is not live in it. -/
theorem Sound.releaseIn_missing_change {addr : Address} (sound : m.Sound lost loans)
    (caller : Caller) (missing : ∀ p, m.pool? id = some p → p.heap.block? addr = none) :
    Change m (m.releaseIn caller id addr).machine [] [] [] := by
  unfold Machine.releaseIn
  cases found : m.pool? id with
  | none => exact sound.aside sound rfl rfl rfl rfl
  | some p =>
    obtain ⟨_, rfl⟩ := pool?_mem found
    have put : (m.putHeap p.id p.heap m.system).Sound lost loans :=
      sound.putHeap found (sound.heap found) (sound.budgets p (pool?_mem found).1).1 rfl (.refl _)
    have stored : Change m (m.putHeap p.id p.heap m.system) [] [] [] :=
      sound.heapTurned [] [] found (sound.heap found) ⟨⟨_, _, put⟩, rfl, rfl, rfl, rfl⟩
        (.steady rfl rfl rfl fun _ vacant => vacant) fun _ _ _ => rfl
    simp only [Heap.release_of_none (missing p found), Option.isNone_none, true_and]
    split
    · exact stored
    · rename_i gone
      have ended : p.phase = .destroyed := not_not.1 gone
      simp only [ended, reduceCtorEq, false_and, if_false]
      exact stored

theorem Sound.releaseBlock_falls (sound : m.Sound lost loans) (caller : Caller) {addr : Address}
    (named : c.block? = some addr) :
    Course c.Falling m (m.releaseBlock caller id addr).machine := by
  have released : ∀ {m : Machine} {lost : List (Address × PoolId)},
      m.Sound ((addr, id) :: lost) loans →
      Course c.Falling m (m.releaseIn caller id addr).machine := by
    intro m lost sound
    obtain ⟨b, _, _, rfl, change⟩ := sound.releaseIn_change caller
    exact change.falls (by simp [named])
  unfold Machine.releaseBlock
  cases owned : m.owner? addr with
  | some owner =>
    by_cases own : owner = id
    · subst own
      simp only [if_true]
      exact ((sound.untag_change owned).falls (by simp)).trans (released (sound.untag owned))
    · simp only [if_neg own]
      exact .refl
  | none =>
    rcases sound.lost_or_missing id owned with ⟨_, _, isLost⟩ | missing
    · exact released isLost
    · exact (sound.releaseIn_missing_change caller missing).falls (by simp)

theorem Sound.resizeBlock_conduct (sound : m.Sound lost loans) (id : PoolId) (addr : Address)
    (size : Nat) :
    (Call.resizeBlock id addr size).Conduct m (m.resizeBlock id addr size).machine := by
  unfold Machine.resizeBlock
  by_cases own : m.owner? addr = some id
  · rw [if_pos own]
    have relocation : Relocation m addr (.pool id) none (.plain size) (m.resizeIn id addr size) :=
      sound.resizeIn_relocation (.pool id) own rfl (.plain size)
    have stays : m.arrival addr (.pool id) (.plain size) = m := if_pos own
    exact .moves rfl stays.symm relocation rfl
  · rw [if_neg own]
    exact .falls rfl .refl

theorem Sound.reallocate_conduct (sound : m.Sound lost loans) (caller : Caller)
    (named : Option PoolId) (addr : Address) (size : Nat) (handed : m.Handed loans addr ∨
      ∃ fault, (m.reallocate caller named addr size).answer = .error fault) :
    (Call.reallocate caller named addr size).Conduct m
      (m.reallocate caller named addr size).machine := by
  obtain ⟨threads, same⟩ := target_machine m caller named
  have targeted := sound.withThreads threads
  have middle : (Call.reallocate caller named addr size).midway m =
      if m.marks.contains addr then m
      else (m.target caller named).2.arrival addr (m.target caller named).1
        (.plain size caller.site) := rfl
  unfold Machine.reallocate at handed ⊢
  simp only [same] at handed middle ⊢
  by_cases marked : m.marks.contains addr = true
  · rw [if_pos marked] at middle ⊢
    have aside : Change m { m with threads } [] [] [] := sound.aside targeted rfl rfl rfl rfl
    exact .falls middle (aside.falls (by simp))
  · rw [if_neg marked] at handed middle ⊢
    exact .moves rfl middle (targeted.relocate_relocation caller _ handed) rfl

theorem Sound.reallocateLayout_conduct (sound : m.Sound lost loans) (caller : Caller)
    (addr : Address) (old align size : Nat) (handed : m.Handed loans addr ∨
      ∃ fault, (m.reallocateLayout caller addr old align size).answer = .error fault) :
    (Call.reallocateLayout caller addr old align size).Conduct m
      (m.reallocateLayout caller addr old align size).machine := by
  obtain ⟨threads, same⟩ := target_machine m caller none
  have targeted := sound.withThreads threads
  have middle : (Call.reallocateLayout caller addr old align size).midway m =
      if m.marks.contains addr then m else (m.target caller none).2.arrival addr
        (m.target caller none).1 ⟨size, align, false, none⟩ := rfl
  unfold Machine.reallocateLayout at handed ⊢
  by_cases marked : m.marks.contains addr = true
  · rw [if_pos marked] at middle ⊢
    exact .falls middle .refl
  · simp only [if_neg marked, same] at handed middle ⊢
    exact .moves rfl middle (targeted.relocate_relocation caller _ handed) rfl

/-- Calls that take no block give blocks out at most. -/
theorem Sound.run_rises (sound : m.Sound lost loans) (gives : c.disposes = false)
    (sane : c.Sane m ∨ ∃ fault, (c.run m).answer = .error fault) :
    Course (c.Rising m) m (c.run m).machine := by
  have aside : ∀ after : Machine, after.Sound lost loans → after.pools = m.pools →
      after.roster = m.roster → after.nextId = m.nextId → after.system.bytes = m.system.bytes →
      Course (c.Rising m) m after := fun after sound' pools roster nextId bytes =>
    (sound.aside sound' pools roster nextId bytes).rises
  have dropped : ∀ value, Change m (m.dropValue value) [] [] [] := fun value =>
    sound.aside (sound.dropValue value) rfl rfl rfl rfl
  cases c with
  | openPool caller settings =>
    rcases sane with word | ⟨fault, stopped⟩
    · exact (sound.openPool_change caller word).rises
    · cases stopped
  | trimPool id => exact (sound.trimPool_change id).rises
  | select caller id =>
    cases id with
    | some id => exact aside _ (sound.select caller (some id)) rfl rfl rfl rfl
    | none => exact aside _ (sound.select caller none) rfl rfl rfl rfl
  | restore thread current =>
    have chosen := sound.updateRegister thread ({ · with current })
    exact aside (m.setCurrent thread current) chosen rfl rfl rfl rfl
  | allocate caller chosen request =>
    obtain ⟨owner, supplied⟩ := sound.allocate_supplied caller chosen request
    exact supplied.rises
  | allocateLayout caller size align zeroed =>
    obtain ⟨owner, supplied⟩ := sound.allocate_supplied caller none ⟨size, align, zeroed, none⟩
    exact supplied.rises
  | foreign request => exact (sound.serve_supplied .systemHeap request).rises
  | mark addr => exact aside _ (sound.mark addr) rfl rfl rfl rfl
  | unmark addr => exact aside _ (sound.unmark addr) rfl rfl rfl rfl
  | write addr len content =>
    exact (sound.write_change addr len content).course ⟨rfl, by simp [Call.written?]⟩
  | box caller chosen value => exact sound.box_rises caller chosen value
  | boxOrAbort caller chosen value => exact sound.boxOrAbort_rises caller chosen value
  | assignBox box value =>
    have drop := dropped (m.readBox box)
    have fill := (sound.dropValue (m.readBox box)).write_change box.addr value.type.payload
      value.byte
    exact drop.rises.trans (fill.course ⟨rfl, by simp [Call.written?]⟩)
  | dropValue value => exact (dropped value).rises
  | reportLeaks => exact sound.reportLeaks_change.rises
  | adjust system =>
    rcases sane with ⟨below, blocks, _, bytes⟩ | ⟨fault, stopped⟩
    · have adjusted : { m with system }.Sound lost loans := sound.congr below blocks rfl rfl rfl
      exact aside _ adjusted rfl rfl rfl bytes
    · cases stopped
  | _ => cases gives

/-- Every call conducts itself, whether it is stopped or not. -/
theorem Sound.conduct (sound : m.Sound lost loans) (c : Call)
    (sane : c.Sane m ∨ ∃ fault, (c.run m).answer = .error fault)
    (handed : ∀ addr, c.routed? = some addr →
      m.Handed loans addr ∨ ∃ fault, (c.run m).answer = .error fault) :
    c.Conduct m (c.run m).machine := by
  cases c with
  | dropPool caller id => exact .falls rfl (sound.dropPool_falls caller id)
  | exitThread thread => exact .falls rfl (sound.exitThread_falls thread)
  | resizeBlock id addr size => exact sound.resizeBlock_conduct id addr size
  | releaseBlock caller id addr => exact .falls rfl (sound.releaseBlock_falls caller rfl)
  | reallocate caller chosen addr size =>
    exact sound.reallocate_conduct caller chosen addr size
      ((handed addr rfl).imp_right Outcome.stops_map)
  | reallocateLayout caller addr old align size =>
    exact sound.reallocateLayout_conduct caller addr old align size
      ((handed addr rfl).imp_right Outcome.stops_map)
  | free caller expected addr =>
    have given := handed addr rfl
    simp only [Call.run, Machine.free] at given ⊢
    by_cases marked : m.marks.contains addr = true
    · rw [if_pos marked]
      exact .falls rfl .refl
    · rw [if_neg marked] at given ⊢
      exact .falls rfl (sound.release_falls caller rfl given)
  | freeLayout caller addr =>
    have given := handed addr rfl
    simp only [Call.run, Machine.freeLayout] at given ⊢
    by_cases marked : m.marks.contains addr = true
    · rw [if_pos marked]
      exact .falls rfl .refl
    · rw [if_neg marked] at given ⊢
      exact .falls rfl (sound.release_falls caller rfl given)
  | dropBox caller box => exact .falls rfl (sound.dropBox_falls caller box (handed box.addr rfl))
  | unbox caller box => exact .falls rfl (sound.unbox_falls caller box (handed box.addr rfl))
  | _ => exact .rises rfl (sound.run_rises rfl sane)

theorem Reachable.conduct (reached : Reachable m) (proper : c.Proper m) :
    c.Conduct m (c.run m).machine := by
  obtain ⟨loans, sound⟩ := reached.sound
  exact sound.conduct c (.inl proper.sane) fun _ routed =>
    .inl (sound.handed_of_routed (sound.routed_of_proper proper routed)).1

end Machine

end PooledMemory
