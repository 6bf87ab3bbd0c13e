import PooledMemory.Proofs.Heap.Oblivious
import PooledMemory.Proofs.Machine.Conduct

namespace PooledMemory

/-- The same state on top of other content of memory, with other values dropped. -/
def Machine.upon (m : Machine) (bytes : Bytes) (dropped : List Value) : Machine :=
  { m with system := m.system.upon bytes, dropped }

/-- Two runs of an operation with nothing different but the content of memory and the values that have
been dropped. -/
inductive Outcome.Alike {α : Type} : Outcome α → Outcome α → Prop
  | intro (answer : Except Fault α) (m : Machine) (bytes : Bytes) (dropped : List Value) :
    Alike ⟨answer, m⟩ ⟨answer, m.upon bytes dropped⟩

namespace Outcome

variable {α β : Type} {o o' : Outcome α}

theorem Alike.answer (alike : Alike o o') : o'.answer = o.answer := by
  cases alike
  rfl

theorem Alike.machine (alike : Alike o o') :
    ∃ bytes dropped, o'.machine = o.machine.upon bytes dropped := by
  cases alike with
  | intro answer m bytes dropped => exact ⟨bytes, dropped, rfl⟩

theorem Alike.map (alike : Alike o o') (f : α → β) : Alike (o.map f) (o'.map f) := by
  cases alike with
  | intro answer m bytes dropped => exact .intro (answer.map f) m bytes dropped

theorem Alike.bind {next next' : α → Machine → Outcome β} (alike : Alike o o')
    (goesOn : ∀ answer m bytes dropped,
      Alike (next answer m) (next' answer (m.upon bytes dropped))) :
    Alike (o.bind next) (o'.bind next') := by
  cases alike with
  | intro answer m bytes dropped =>
    cases answer with
    | error fault => exact .intro (.error fault) m bytes dropped
    | ok answer => exact goesOn answer m bytes dropped

theorem Alike.ite {c : Prop} [Decidable c] {p p' : Outcome α} (first : Alike o o')
    (second : Alike p p') : Alike (if c then o else p) (if c then o' else p') := by
  split
  · exact first
  · exact second

end Outcome

namespace Machine

variable (m : Machine) (bytes : Bytes) (dropped : List Value)

@[simp] theorem upon_pool? (id : PoolId) : (m.upon bytes dropped).pool? id = m.pool? id := rfl

@[simp] theorem upon_threads : (m.upon bytes dropped).threads = m.threads := rfl

@[simp] theorem upon_tags : (m.upon bytes dropped).tags = m.tags := rfl

@[simp] theorem upon_owner? (addr : Address) :
    (m.upon bytes dropped).owner? addr = m.owner? addr := rfl

@[simp] theorem upon_holder? (addr : Address) :
    (m.upon bytes dropped).holder? addr = m.holder? addr := rfl

@[simp] theorem upon_system : (m.upon bytes dropped).system = m.system.upon bytes := rfl

theorem clearCurrent_upon (thread : ThreadId) (id : PoolId) :
    (m.upon bytes dropped).clearCurrent thread id =
      (m.clearCurrent thread id).upon bytes dropped := by
  unfold clearCurrent
  by_cases current : (m.threads thread).current = some id
  · rw [if_pos current]
    exact if_pos current
  · rw [if_neg current]
    exact if_neg current

theorem destroy_upon (caller : Caller) (p : Pool) :
    (m.upon bytes dropped).destroy caller p = (m.destroy caller p).upon bytes dropped := by
  have torn : (m.upon bytes dropped).tearDown p =
      ((m.tearDown p).1, (m.tearDown p).2.upon bytes dropped) := by
    unfold tearDown
    simp only [upon_system, p.heap.releaseAll_upon m.system bytes]
    rfl
  unfold destroy
  simp only [torn]
  unfold finishTearDown
  simp only [clearCurrent_upon]
  rfl

theorem retire_upon (caller : Caller) (id : PoolId) :
    (m.upon bytes dropped).retire caller id =
      ((m.retire caller id).1, (m.retire caller id).2.upon bytes dropped) := by
  have pending : (m.upon bytes dropped).setPhase id .deletePending =
      (m.setPhase id .deletePending).upon bytes dropped := rfl
  unfold retire
  simp only [upon_pool?]
  split
  · rfl
  · split
    · rfl
    · split
      · simp only [pending, clearCurrent_upon]
        rfl
      · simp only [destroy_upon]

theorem dropPool_alike (caller : Caller) (id : PoolId) :
    Outcome.Alike (m.dropPool caller id) ((m.upon bytes dropped).dropPool caller id) := by
  unfold dropPool
  simp only [upon_pool?, retire_upon]
  split
  · split
    · exact .intro _ (updatePool _ id _) bytes dropped
    · exact .intro _ (updatePool _ id _) bytes dropped
  · exact .intro _ (updatePool _ id _) bytes dropped

theorem exitThread_upon (thread : ThreadId) :
    (m.upon bytes dropped).exitThread thread = (m.exitThread thread).upon bytes dropped := by
  have retireAll : ∀ (owned : List Pool) (m : Machine),
      owned.foldl (fun m p => (m.retire { thread, nested := true } p.id).2) (m.upon bytes dropped) =
        (owned.foldl (fun m p => (m.retire { thread, nested := true } p.id).2) m).upon
          bytes dropped := by
    intro owned
    induction owned with
    | nil => exact fun m => rfl
    | cons p rest ih =>
      intro m
      simp only [List.foldl_cons, retire_upon]
      exact ih _
  have listed : (m.upon bytes dropped).listedPools = m.listedPools := rfl
  have noted : ∀ event, (m.upon bytes dropped).note event = (m.note event).upon bytes dropped :=
    fun _ => rfl
  unfold exitThread
  simp only [listed, noted, retireAll]
  split
  · rfl
  · rfl

theorem trimPool_alike (id : PoolId) :
    Outcome.Alike (m.trimPool id) ((m.upon bytes dropped).trimPool id) := by
  unfold trimPool
  simp only [upon_pool?, upon_system]
  split
  · exact .intro _ m bytes dropped
  · rename_i p found
    have trimmed := p.heap.trim_alike m.system bytes
    generalize p.heap.trim m.system = step at trimmed
    generalize p.heap.trim (m.system.upon bytes) = step' at trimmed
    cases trimmed with
    | error fault => exact .intro _ m bytes dropped
    | ok answer heap system bytes' =>
      simp only
      split
      · exact .intro _ (note _ _) bytes' dropped
      · exact .intro _ (m.putHeap id heap system) bytes' dropped

theorem allocateIn_alike (id : PoolId) (request : Request) :
    Outcome.Alike (m.allocateIn id request) ((m.upon bytes dropped).allocateIn id request) := by
  unfold allocateIn
  simp only [upon_pool?, upon_system]
  split
  · exact .intro _ m bytes dropped
  · rename_i p found
    split
    · exact .intro _ m bytes dropped
    · have allocated := p.heap.allocate_alike m.system bytes request.size request.align
      generalize p.heap.allocate m.system request.size request.align = step at allocated
      generalize p.heap.allocate (m.system.upon bytes) request.size request.align = step'
        at allocated
      cases allocated with
      | error fault => exact .intro _ m bytes dropped
      | ok answer heap system bytes' =>
        cases answer with
        | none => exact .intro _ (m.putHeap id heap system) bytes' dropped
        | some addr =>
          have tags : ((m.upon bytes dropped).putHeap id heap (system.upon bytes')).tags =
            (m.putHeap id heap system).tags := rfl
          simp only [tags]
          split
          · exact .intro _ { m.putHeap id heap system with tags := _ } bytes' dropped
          · split
            · split
              · exact .intro _ (write _ addr request.size _) _ dropped
              · exact .intro _ (write _ addr request.size _) _ dropped
            · split
              · exact .intro _ (note _ _) bytes' dropped
              · exact .intro _ { m.putHeap id heap system with tags := _ } bytes' dropped

theorem resolve_upon (thread : ThreadId) (id : PoolId) :
    (m.upon bytes dropped).resolve thread id =
      ((m.resolve thread id).1, (m.resolve thread id).2.upon bytes dropped) := by
  unfold resolve
  by_cases known : (m.threads thread).resolved = some id ∧ m.isReferenced id = true
  · rw [if_pos known]
    exact if_pos known
  · rw [if_neg known]
    refine (if_neg known).trans ?_
    by_cases listed : m.roster.contains id = true
    · rw [if_pos listed]
      exact if_pos listed
    · rw [if_neg listed]
      exact if_neg listed

theorem target_upon (caller : Caller) (named : Option PoolId) :
    (m.upon bytes dropped).target caller named =
      ((m.target caller named).1, (m.target caller named).2.upon bytes dropped) := by
  unfold target currentTarget
  split
  · rfl
  · split
    · rfl
    · simp only [upon_threads, resolve_upon]
      split
      · rfl
      · split
        · rfl
        · rfl

theorem serve_alike (target : Target) (request : Request) :
    Outcome.Alike (m.serve target request) ((m.upon bytes dropped).serve target request) := by
  cases target with
  | pool id => exact m.allocateIn_alike bytes dropped id request
  | unavailable id => exact .intro _ m bytes dropped
  | systemHeap =>
    have taken := m.system.take_alike bytes (max request.size 1) request.align
      request.zeroed
    unfold serve SystemHeap.allocate?
    simp only [upon_system]
    generalize m.system.take? _ _ _ = found at taken
    generalize (m.system.upon bytes).take? _ _ _ = found' at taken
    cases taken with
    | none => exact .intro _ m bytes dropped
    | some addr system bytes' => exact .intro _ { m with system } bytes' dropped

theorem allocate_alike (caller : Caller) (named : Option PoolId) (request : Request) :
    Outcome.Alike (m.allocate caller named request)
      ((m.upon bytes dropped).allocate caller named request) := by
  unfold Machine.allocate
  simp only [target_upon]
  exact serve_alike _ bytes dropped _ request

theorem resizeIn_alike (id : PoolId) (addr : Address) (size : Nat) :
    Outcome.Alike (m.resizeIn id addr size) ((m.upon bytes dropped).resizeIn id addr size) := by
  unfold resizeIn
  simp only [upon_pool?, upon_system]
  split
  · exact .intro _ m bytes dropped
  · rename_i p found
    have resized := p.heap.resize_alike m.system bytes addr size
    generalize p.heap.resize m.system addr size = step at resized
    generalize p.heap.resize (m.system.upon bytes) addr size = step' at resized
    cases resized with
    | error fault => exact .intro _ m bytes dropped
    | ok answer heap system bytes' =>
      cases answer with
      | none => exact .intro _ (m.putHeap id heap system) bytes' dropped
      | some r =>
        have tags : ((m.upon bytes dropped).putHeap id heap (system.upon bytes')).tags =
          (m.putHeap id heap system).tags := rfl
        simp only [tags]
        split
        · split
          · exact .intro _ { m.putHeap id heap system with tags := _ } bytes' dropped
          · exact .intro _ { m.putHeap id heap system with tags := _ } bytes'
              dropped
        · exact .intro _ (m.putHeap id heap system) bytes' dropped

theorem releaseIn_alike (caller : Caller) (id : PoolId) (addr : Address) :
    Outcome.Alike (m.releaseIn caller id addr)
      ((m.upon bytes dropped).releaseIn caller id addr) := by
  unfold releaseIn
  simp only [upon_pool?, upon_system]
  split
  · exact .intro _ m bytes dropped
  · rename_i p found
    have released := p.heap.release_alike m.system bytes addr
    generalize p.heap.release m.system addr = step at released
    generalize p.heap.release (m.system.upon bytes) addr = step' at released
    cases released with
    | error fault => exact .intro _ m bytes dropped
    | ok answer heap system bytes' =>
      have put : (m.upon bytes dropped).putHeap id heap (system.upon bytes') =
        (m.putHeap id heap system).upon bytes' dropped := rfl
      simp only [put]
      split
      · exact .intro _ (m.putHeap id heap system) bytes' dropped
      · split
        · rw [destroy_upon]
          exact .intro _ _ bytes' dropped
        · exact .intro _ (m.putHeap id heap system) bytes' dropped

theorem release_alike (caller : Caller) (expected : Option PoolId) (addr : Address) :
    Outcome.Alike (m.release caller expected addr)
      ((m.upon bytes dropped).release caller expected addr) := by
  unfold release
  simp only [upon_tags, upon_holder?]
  refine .ite ?_ ?_
  · exact .intro _ (m.releaseToSystem addr) bytes dropped
  · split
    · rename_i tag tags removed
      refine .ite ?_ ?_
      · exact releaseIn_alike { m with tags } bytes dropped caller tag.pool addr
      · exact .intro _ { m with tags } bytes dropped
    · split
      · exact .intro _ (m.note _) bytes dropped
      · exact .intro _ (m.releaseToSystem addr) bytes dropped

theorem moveStaged_alike (caller : Caller) (source moved : Address) (size : Nat) :
    Outcome.Alike (m.moveStaged caller source moved size)
      ((m.upon bytes dropped).moveStaged caller source moved size) := by
  have staged := m.system.resize_alike bytes source (max size 1) granule
  unfold moveStaged SystemHeap.reallocate?
  simp only [upon_system]
  generalize m.system.resize? source (max size 1) granule = found at staged
  generalize (m.system.upon bytes).resize? source (max size 1) granule = found' at staged
  cases staged with
  | none => exact (m.release_alike bytes dropped caller none moved).map _
  | some place system bytes' => exact .intro _ { m with system := _ } _ dropped

theorem moveContent_alike (caller : Caller) (source : Address) (owner : Option PoolId)
    (known : Option Nat) (moved : Address) (size : Nat) :
    Outcome.Alike (m.moveContent caller source owner known moved size)
      ((m.upon bytes dropped).moveContent caller source owner known moved size) := by
  cases owner with
  | some id =>
    let copied := m.copied source moved (min ((m.blockSize? id source).getD 0) size)
    exact ((copied.untag source).releaseIn_alike _ dropped caller id source).map _
  | none =>
    have told : (m.upon bytes dropped).system.usableSize source = m.system.usableSize source := rfl
    unfold moveContent
    simp only [told]
    refine .ite ?_ ?_
    · exact .intro _ (releaseToSystem { m with system := _ } source) _ dropped
    · exact m.moveStaged_alike bytes dropped caller source moved size

theorem relocate_alike (caller : Caller) (target : Target) (addr : Address) (known : Option Nat)
    (request : Request) :
    Outcome.Alike (m.relocate caller target addr known request)
      ((m.upon bytes dropped).relocate caller target addr known request) := by
  have elsewhere : ∀ (owner : Option PoolId)
      (next : Except Failure Address → Machine → Outcome (Option Address)),
      (∀ failure after, next (.error failure) after = .ok none after) →
      (∀ moved after, next (.ok moved) after =
        after.moveContent caller addr owner known moved request.size) →
      Outcome.Alike ((m.serve target request).bind next)
        (((m.upon bytes dropped).serve target request).bind next) := by
    intro owner next refused served
    refine (m.serve_alike bytes dropped target request).bind fun answer after bytes' dropped' => ?_
    cases answer with
    | error failure =>
      rw [refused, refused]
      exact .intro _ after bytes' dropped'
    | ok moved =>
      rw [served, served]
      exact after.moveContent_alike bytes' dropped' caller addr owner known moved _
  unfold relocate
  simp only [upon_owner?]
  split
  · split
    · exact m.resizeIn_alike bytes dropped _ addr request.size
    · exact elsewhere _ _ (fun _ _ => rfl) fun _ _ => rfl
  · split
    · exact m.resizeIn_alike bytes dropped _ addr request.size
    · exact .intro _ m bytes dropped
  · exact elsewhere _ _ (fun _ _ => rfl) fun _ _ => rfl
  · exact .intro _ m bytes dropped
  · exact elsewhere _ _ (fun _ _ => rfl) fun _ _ => rfl
  · split
    · have resized := m.system.resize_alike bytes addr (max request.size 1) granule
      unfold SystemHeap.reallocate?
      simp only [upon_system]
      generalize m.system.resize? addr (max request.size 1) granule = found at resized
      generalize (m.system.upon bytes).resize? addr (max request.size 1) granule = found'
        at resized
      cases resized with
      | none => exact .intro _ m bytes dropped
      | some moved system bytes' => exact .intro _ { m with system } bytes' dropped
    · exact elsewhere none _ (fun _ _ => rfl) fun _ _ => rfl

theorem reallocate_alike (caller : Caller) (named : Option PoolId) (addr : Address) (size : Nat) :
    Outcome.Alike (m.reallocate caller named addr size)
      ((m.upon bytes dropped).reallocate caller named addr size) := by
  unfold reallocate
  simp only [target_upon]
  refine .ite ?_ ?_
  · exact .intro _ (m.target caller named).2 bytes dropped
  · exact relocate_alike _ bytes dropped caller _ addr none _

theorem reallocateLayout_alike (caller : Caller) (addr : Address) (old align size : Nat) :
    Outcome.Alike (m.reallocateLayout caller addr old align size)
      ((m.upon bytes dropped).reallocateLayout caller addr old align size) := by
  unfold reallocateLayout
  simp only [target_upon]
  refine .ite ?_ ?_
  · exact .intro _ m bytes dropped
  · exact relocate_alike _ bytes dropped caller _ addr _ _

theorem free_alike (caller : Caller) (expected : Option PoolId) (addr : Address) :
    Outcome.Alike (m.free caller expected addr)
      ((m.upon bytes dropped).free caller expected addr) :=
  .ite (.intro _ m bytes dropped) (m.release_alike bytes dropped caller expected addr)

theorem freeLayout_alike (caller : Caller) (addr : Address) :
    Outcome.Alike (m.freeLayout caller addr) ((m.upon bytes dropped).freeLayout caller addr) :=
  .ite (.intro _ m bytes dropped) (m.release_alike bytes dropped caller none addr)

theorem resizeBlock_alike (id : PoolId) (addr : Address) (size : Nat) :
    Outcome.Alike (m.resizeBlock id addr size)
      ((m.upon bytes dropped).resizeBlock id addr size) :=
  .ite (m.resizeIn_alike bytes dropped id addr size) (.intro _ m bytes dropped)

theorem releaseBlock_alike (caller : Caller) (id : PoolId) (addr : Address) :
    Outcome.Alike (m.releaseBlock caller id addr)
      ((m.upon bytes dropped).releaseBlock caller id addr) := by
  unfold releaseBlock
  simp only [upon_owner?]
  split
  · split
    · exact (m.untag addr).releaseIn_alike bytes dropped caller id addr
    · exact .intro _ m bytes dropped
  · exact m.releaseIn_alike bytes dropped caller id addr

theorem box_alike (caller : Caller) (named : Option PoolId) {value value' : Value}
    (same : value.type = value'.type) :
    Outcome.Alike (m.box caller named value) ((m.upon bytes dropped).box caller named value') := by
  unfold box
  rw [← same]
  refine (m.allocate_alike bytes dropped caller named _).bind fun answer after bytes' dropped' => ?_
  cases answer with
  | error failure => exact .intro _ (after.dropValue value) bytes' _
  | ok addr =>
    exact .intro _ (after.fillBox ⟨addr, value.type⟩ value) _ dropped'

theorem boxOrAbort_alike (caller : Caller) (named : Option PoolId) {value value' : Value}
    (same : value.type = value'.type) :
    Outcome.Alike (m.boxOrAbort caller named value)
      ((m.upon bytes dropped).boxOrAbort caller named value') := by
  refine (m.box_alike bytes dropped caller named same).bind fun answer after bytes' dropped' => ?_
  cases answer with
  | error failure => exact .intro _ after bytes' dropped'
  | ok box => exact .intro _ after bytes' dropped'

theorem dropBox_alike (caller : Caller) (box : Boxed) :
    Outcome.Alike (m.dropBox caller box) ((m.upon bytes dropped).dropBox caller box) :=
  (m.dropValue (m.readBox box)).release_alike bytes _ caller none box.addr

theorem arrival_upon (addr : Address) (target : Target) (request : Request) :
    ∃ bytes' dropped', (m.upon bytes dropped).arrival addr target request =
      (m.arrival addr target request).upon bytes' dropped' := by
  unfold arrival
  by_cases own : m.owner? addr = target.owner
  · rw [if_pos own]
    exact ⟨bytes, dropped, if_pos own⟩
  · rw [if_neg own]
    have served := m.serve_alike bytes dropped target request
    have moves : (if (m.upon bytes dropped).owner? addr = target.owner then m.upon bytes dropped
        else ((m.upon bytes dropped).serve target request).machine) =
        ((m.upon bytes dropped).serve target request).machine := if_neg own
    rw [moves]
    generalize m.serve target request = o at served
    generalize (m.upon bytes dropped).serve target request = o' at served
    cases served with
    | intro answer after bytes' dropped' => exact ⟨bytes', dropped', rfl⟩

theorem reportLeaks_upon :
    (m.upon bytes dropped).reportLeaks.2 = m.reportLeaks.2.upon bytes dropped := by
  have noted : ∀ (blocks : List BlockReport) (m : Machine),
      blocks.foldl (fun m block => m.note (.leakedBlock block)) (m.upon bytes dropped) =
        (blocks.foldl (fun m block => m.note (.leakedBlock block)) m).upon bytes dropped := by
    intro blocks
    induction blocks with
    | nil => exact fun m => rfl
    | cons block rest ih => exact fun m => ih (m.note (.leakedBlock block))
  exact noted m.liveBlocks m

end Machine

namespace Call

/-- Two calls that are the same but for what they write and where. A system heap that is adjusted may
have something else in its memory, but what it `delivers` is the same from then on. -/
inductive Alike : Call → Call → Prop
  | same (c : Call) : Alike c c
  | write (addr addr' : Address) (len len' : Nat) (content content' : Nat → UInt8) :
    Alike (.write addr len content) (.write addr' len' content')
  | box (caller : Caller) (named : Option PoolId) {value value' : Value} :
    value.type = value'.type → Alike (.box caller named value) (.box caller named value')
  | boxOrAbort (caller : Caller) (named : Option PoolId) {value value' : Value} :
    value.type = value'.type →
    Alike (.boxOrAbort caller named value) (.boxOrAbort caller named value')
  | assignBox (box box' : Boxed) (value value' : Value) :
    Alike (.assignBox box value) (.assignBox box' value')
  | dropValue (value value' : Value) : Alike (.dropValue value) (.dropValue value')
  | adjust {system system' : SystemHeap} (delivers : system'.fresh = system.fresh)
      (others : system' = { system with bytes := system'.bytes, fresh := system'.fresh }) :
    Alike (.adjust system) (.adjust system')

variable (m : Machine) (bytes : Bytes) (dropped : List Value)

theorem run_upon (c : Call) : Outcome.Alike (c.run m) (c.run (m.upon bytes dropped)) := by
  cases c with
  | openPool caller settings =>
    show Outcome.Alike (.ok () (m.openPool caller settings).2)
      (.ok () ((m.upon bytes dropped).openPool caller settings).2)
    unfold Machine.openPool
    split
    · exact .intro _ (Machine.note _ _) bytes dropped
    · exact .intro _ (Machine.note _ _) bytes dropped
  | dropPool caller id => exact m.dropPool_alike bytes dropped caller id
  | trimPool id => exact (m.trimPool_alike bytes dropped id).map _
  | exitThread thread =>
    show Outcome.Alike (.ok () (m.exitThread thread))
      (.ok () ((m.upon bytes dropped).exitThread thread))
    rw [Machine.exitThread_upon]
    exact .intro _ (m.exitThread thread) bytes dropped
  | select caller id =>
    cases id with
    | none => exact .intro _ (m.select caller none).2 bytes dropped
    | some id => exact .intro _ (m.select caller (some id)).2 bytes dropped
  | restore thread current => exact .intro _ (m.setCurrent thread current) bytes dropped
  | allocate caller named request =>
    exact (m.allocate_alike bytes dropped caller named request).map _
  | allocateLayout caller size align zeroed =>
    exact (m.allocate_alike bytes dropped caller none ⟨size, align, zeroed, none⟩).map _
  | foreign request => exact (m.serve_alike bytes dropped .systemHeap request).map _
  | resizeBlock id addr size => exact (m.resizeBlock_alike bytes dropped id addr size).map _
  | releaseBlock caller id addr => exact m.releaseBlock_alike bytes dropped caller id addr
  | reallocate caller named addr size =>
    exact (m.reallocate_alike bytes dropped caller named addr size).map _
  | reallocateLayout caller addr old align size =>
    exact (m.reallocateLayout_alike bytes dropped caller addr old align size).map _
  | free caller expected addr => exact m.free_alike bytes dropped caller expected addr
  | freeLayout caller addr => exact m.freeLayout_alike bytes dropped caller addr
  | mark addr => exact .intro _ (m.mark addr) bytes dropped
  | unmark addr => exact .intro _ (m.unmark addr) bytes dropped
  | write addr len content => exact .intro _ (m.write addr len content) _ dropped
  | box caller named value => exact (m.box_alike bytes dropped caller named rfl).map _
  | boxOrAbort caller named value =>
    exact (m.boxOrAbort_alike bytes dropped caller named rfl).map _
  | assignBox box value => exact .intro _ (m.assignBox box value) _ _
  | dropBox caller box => exact m.dropBox_alike bytes dropped caller box
  | unbox caller box =>
    have released := m.release_alike bytes dropped caller none box.addr
    simp only [run, Machine.unbox]
    generalize m.release caller none box.addr = o at released
    generalize (m.upon bytes dropped).release caller none box.addr = o' at released
    cases released with
    | intro answer after bytes' dropped' => cases answer <;> exact .intro _ after bytes' dropped'
  | dropValue value => exact .intro _ (m.dropValue value) bytes _
  | reportLeaks =>
    show Outcome.Alike (.ok () m.reportLeaks.2) (.ok () (m.upon bytes dropped).reportLeaks.2)
    rw [Machine.reportLeaks_upon]
    exact .intro _ m.reportLeaks.2 bytes dropped
  | adjust system => exact .intro _ { m with system } system.bytes dropped

/-- What a call does to anything but the content of memory does not depend on that content. -/
theorem Alike.run {c c' : Call} (alike : c.Alike c') :
    Outcome.Alike (c.run m) (c'.run (m.upon bytes dropped)) := by
  cases alike with
  | same c => exact c.run_upon m bytes dropped
  | write addr addr' len len' content content' =>
    exact .intro _ (m.write addr len content) _ dropped
  | box caller named same => exact (m.box_alike bytes dropped caller named same).map _
  | boxOrAbort caller named same =>
    exact (m.boxOrAbort_alike bytes dropped caller named same).map _
  | assignBox box box' value value' => exact .intro _ (m.assignBox box value) _ _
  | dropValue value value' => exact .intro _ (m.dropValue value) bytes _
  | @adjust system system' delivers others =>
    have same : system' = system.upon system'.bytes := by
      rw [delivers] at others
      exact others
    rw [same]
    exact .intro _ { m with system } system'.bytes dropped

theorem midway_upon (c : Call) :
    ∃ bytes' dropped', c.midway (m.upon bytes dropped) = (c.midway m).upon bytes' dropped' := by
  cases c with
  | reallocate caller named addr size =>
    by_cases marked : m.marks.contains addr = true
    · refine ⟨bytes, dropped, (if_pos marked).trans ?_⟩
      rw [midway, if_pos marked]
    · obtain ⟨bytes', dropped', same⟩ := (m.target caller named).2.arrival_upon bytes dropped addr
        (m.target caller named).1 (.plain size caller.site)
      refine ⟨bytes', dropped', (if_neg marked).trans ?_⟩
      rw [midway, if_neg marked, Machine.target_upon]
      exact same
  | reallocateLayout caller addr old align size =>
    by_cases marked : m.marks.contains addr = true
    · refine ⟨bytes, dropped, (if_pos marked).trans ?_⟩
      rw [midway, if_pos marked]
    · obtain ⟨bytes', dropped', same⟩ := (m.target caller none).2.arrival_upon bytes dropped addr
        (m.target caller none).1 ⟨size, align, false, none⟩
      refine ⟨bytes', dropped', (if_neg marked).trans ?_⟩
      rw [midway, if_neg marked, Machine.target_upon]
      exact same
  | _ => exact ⟨bytes, dropped, rfl⟩

theorem Alike.midway {c c' : Call} (alike : c.Alike c') :
    ∃ bytes' dropped', c'.midway (m.upon bytes dropped) = (c.midway m).upon bytes' dropped' := by
  cases alike with
  | same c => exact c.midway_upon m bytes dropped
  | _ => exact ⟨bytes, dropped, rfl⟩

end Call

end PooledMemory
