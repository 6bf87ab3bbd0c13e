import PooledMemory.Proofs.Heap.Alignment
import PooledMemory.Proofs.Machine.Custody
import PooledMemory.Proofs.Machine.Journal

namespace PooledMemory

/-- Of two powers of two, each divides the greater one. -/
theorem Word.dvd_max_granule {align : Nat} (power : Word.isPowerOfTwo align = true) :
    align ∣ max align granule ∧ granule ∣ max align granule := by
  obtain ⟨k, rfl⟩ := Word.isPowerOfTwo_iff.1 power
  have natural : granule = 2 ^ 4 := by decide
  rw [Nat.one_shiftLeft, natural]
  rcases Nat.le_total k 4 with le | le
  · rw [Nat.max_eq_right (Nat.pow_le_pow_right (by decide) le)]
    exact ⟨Nat.pow_dvd_pow 2 le, Nat.dvd_refl _⟩
  · rw [Nat.max_eq_left (Nat.pow_le_pow_right (by decide) le)]
    exact ⟨Nat.dvd_refl _, Nat.pow_dvd_pow 2 le⟩

theorem roundUp_of_chunkSize? {size chunk : Nat} (rounded : chunkSize? size = some chunk) :
    Word.roundUp (max size 1) granule = chunk := by
  unfold chunkSize? Word.roundUp? at rounded
  split at rounded
  · exact Option.some.inj rounded
  · cases rounded

namespace Pool

variable {refits : Prop} {block : Option Address} {p q : Pool} {new : List Event}

/-- Whatever a pool does, its blocks lie where their alignments allow it. -/
theorem Deed.aligned (deed : p.Deed refits block q new) (aligned : p.heap.Aligned) :
    q.heap.Aligned := by
  induction deed with
  | rests _ heap => exact heap ▸ aligned
  | serves _ _ _ allocated heap _ => exact heap ▸ aligned.allocate allocated
  | resizes _ _ _ resized heap => exact heap ▸ aligned.resize resized
  | releases _ _ released heap => exact heap ▸ aligned.release released
  | trims _ _ _ trimmed heap _ => exact heap ▸ aligned.trim trimmed
  | defers _ _ _ heap _ => exact heap ▸ aligned
  | ends _ _ _ heap => exact heap ▸ Heap.releaseAll_aligned _ _
  | follows _ _ _ _ _ _ heap => exact heap ▸ Heap.releaseAll_aligned _ _
  | returns _ _ _ _ _ released heap ih => exact heap ▸ ih.release released

end Pool

/-- What was asked for a block: the size that was last requested, and the alignment that the block was
allocated with. -/
structure Wanted where
  size : Nat
  align : Nat
  deriving DecidableEq, Repr

namespace Call

/-- What a call asks for. Where only a size is given, any block has to be of natural alignment. -/
def asked? : Call → Option Wanted
  | allocate _ _ request => some ⟨request.size, request.align⟩
  | allocateLayout _ size align _ => some ⟨size, align⟩
  | foreign request => some ⟨request.size, request.align⟩
  | resizeBlock _ _ size => some ⟨size, granule⟩
  | reallocate _ _ _ size => some ⟨size, granule⟩
  | reallocateLayout _ _ _ align size => some ⟨size, align⟩
  | box _ _ value => some ⟨max value.type.size 1, value.type.align⟩
  | boxOrAbort _ _ value => some ⟨max value.type.size 1, value.type.align⟩
  | _ => none

/-- The alignment of an answered block. A pool that resizes a block of its own keeps the one that the
block was allocated with. -/
def alignment (c : Call) (m : Machine) (asked : Address → Wanted) (new : Wanted) (addr : Address) :
    Nat :=
  match c.block? with
  | some old =>
    if m.owner? old = (c.run m).machine.owner? addr then (asked old).align else new.align
  | none => new.align

/-- What is known to have been asked for blocks after a call, given what was known before it. -/
def record (c : Call) (m : Machine) (asked : Address → Wanted) : Address → Wanted :=
  match c.answered? m, c.asked? with
  | some addr, some new =>
    Function.update asked addr ⟨new.size, c.alignment m asked new addr⟩
  | _, _ => asked

variable {c : Call} {m : Machine} {asked : Address → Wanted} {new : Wanted} {addr : Address}

theorem record_answered (answered : c.answered? m = some addr) (asks : c.asked? = some new) :
    c.record m asked addr = ⟨new.size, c.alignment m asked new addr⟩ := by
  simp only [record, answered, asks, Function.update_self]

theorem record_of_ne (other : c.answered? m ≠ some addr) : c.record m asked addr = asked addr := by
  unfold record
  cases answered : c.answered? m with
  | none => rfl
  | some found =>
    cases c.asked? with
    | none => rfl
    | some new =>
      refine Function.update_of_ne (fun same => other ?_) _ _
      rw [answered, same]

end Call

namespace Machine

/-- The states that programs reach, with what was asked for the blocks. Alignments are powers of
two. -/
inductive Asking : Machine → (Address → Wanted) → Prop
  | start (slots : List Nat) (asked : Address → Wanted) : Asking (.start slots) asked
  | step {m : Machine} {asked : Address → Wanted} (c : Call) : Asking m asked → c.Proper m →
    (∀ new ∈ c.asked?, Word.isPowerOfTwo new.align = true) →
    Asking (c.run m).machine (c.record m asked)

variable {m after : Machine} {lost : List (Address × PoolId)} {loans : List SystemBlock}
  {id : PoolId} {p : Pool} {c : Call} {b new : Block} {request : Request} {addr : Address}
  {refits : PoolId → Prop} {block : Option Address}

/-- In every pool, blocks lie where their alignments allow it. -/
def Aligned (m : Machine) : Prop := ∀ id p, m.pool? id = some p → p.heap.Aligned

theorem Does.aligned (does : Does refits block m after) (aligned : m.Aligned) : after.Aligned := by
  intro id q found
  obtain ⟨new, _, fate⟩ := does id
  have before := aligned id
  rw [found] at fate
  generalize m.pool? id = known at before fate
  cases fate with
  | opened _ heap => exact heap ▸ Heap.empty_aligned _
  | goesOn _ deed => exact deed.aligned (before _ rfl)

theorem Attempted.aligned (attempted : Attempted m) : m.Aligned :=
  attempted.of_does (fun _ _ _ found => nomatch found) Does.aligned

/-- A block that a pool issues for a request is as large as the request rounded up to granules. -/
theorem Sound.allocateIn_exact (sound : m.Sound lost loans)
    (served : (m.allocateIn id request).answer = .ok (.ok addr)) :
    ∃ chunk, chunkSize? request.size = some chunk ∧
      (m.allocateIn id request).machine.InUse ⟨some id, addr, chunk, max request.align granule⟩ := by
  have placing := sound.allocateIn_placing id request
  generalize m.allocateIn id request = o at placing served
  cases placing with
  | unavailable => cases served
  | refused => cases served
  | @placed p step _ tags bytes events found _ allocated grants answer _ _ _ =>
    cases served
    obtain ⟨chunk, before, rounded, _, _, issued⟩ := grants.issued addr answer
    refine ⟨chunk, rounded, .inl ⟨{ p with heap := step.heap }, ?_, ?_⟩⟩
    · exact (pool?_mem (pool?_putHeap step.heap step.system found)).1
    · let b : LiveBlock := ⟨addr, chunk, max request.align granule,
        Heap.needsRegion chunk (max request.align granule)⟩
      have first : b ∈ step.heap.live := by
        rw [issued]
        exact List.mem_cons_self ..
      refine mem_issued.2 ⟨b, first, ?_⟩
      rw [LiveBlock.issuedBy, pool?_id found]

/-- A block that a pool resizes keeps its alignment. -/
theorem Sound.resizeIn_exact (sound : m.Sound lost loans) {moved : Address} {size : Nat}
    (owned : m.owner? addr = some id)
    (resized : (m.resizeIn id addr size).answer = .ok (some moved)) :
    ∃ b chunk, m.InUse b ∧ b.addr = addr ∧ b.owner = some id ∧ chunkSize? size = some chunk ∧
      (m.resizeIn id addr size).machine.InUse ⟨some id, moved, chunk, b.align⟩ := by
  have resizing := sound.resizeIn_resizing owned size
  generalize m.resizeIn id addr size = o at resizing resized
  cases resizing with
  | refused => cases resized
  | @resized p b chunk step r tags found live rounded _ settles answer _ =>
    cases resized
    obtain ⟨used, start⟩ := inUse_of_live found live
    obtain ⟨new, place, fits, align, _, behind⟩ := settles.resized r answer
    refine ⟨b.issuedBy id, chunk, used, start, rfl, rounded, .inl ⟨{ p with heap := step.heap }, ?_, ?_⟩⟩
    · exact (pool?_mem (pool?_putHeap step.heap step.system found)).1
    · refine mem_issued.2 ⟨new, behind.symm.subset (List.mem_cons_self ..), ?_⟩
      rw [LiveBlock.issuedBy, LiveBlock.issuedBy, pool?_id found, place, fits, align]

/-- A block that a request brings into use is as it was asked for, if a pool has issued it. -/
theorem Sound.serve_exact (sound : m.Sound lost loans) (target : Target)
    (used : (m.serve target request).machine.InUse new) (fresh : ¬ m.InUse new)
    (own : new.owner = some id) :
    chunkSize? request.size = some new.size ∧ new.align = max request.align granule := by
  have supplied := sound.serve_supplied target request
  have pooled : ∀ {other : PoolId} {addr : Address}, target = .pool other →
      (m.serve target request).answer = .ok (.ok addr) → ∃ chunk,
        chunkSize? request.size = some chunk ∧ (m.serve target request).machine.InUse
          ⟨some other, addr, chunk, max request.align granule⟩ := by
    rintro other addr rfl served
    exact sound.allocateIn_exact served
  have refused : ∀ {other : PoolId} {addr : Address}, target = .unavailable other →
      (m.serve target request).answer ≠ .ok (.ok addr) := by
    rintro other addr rfl served
    cases served
  generalize m.serve target request = o at used supplied pooled refused
  cases supplied with
  | refused change => exact absurd (by simpa using (change.inUse new).1 used) fresh
  | @supplied b after change owner _ =>
    obtain rfl : new = b := by simpa [fresh] using (change.inUse new).1 used
    cases target with
    | systemHeap => cases own.symm.trans owner
    | unavailable other => exact absurd rfl (refused rfl)
    | pool other =>
      obtain ⟨chunk, rounded, exact'⟩ := pooled rfl rfl
      obtain ⟨lost', loans', sound'⟩ := change.sound
      have same := sound'.inUse_unique used exact' rfl
      exact ⟨rounded.trans (congrArg (some ·.size) same.symm), congrArg Block.align same⟩

theorem Sound.allocate_exact (sound : m.Sound lost loans) (caller : Caller) (named : Option PoolId)
    (used : (m.allocate caller named request).machine.InUse new) (fresh : ¬ m.InUse new)
    (own : new.owner = some id) :
    chunkSize? request.size = some new.size ∧ new.align = max request.align granule := by
  obtain ⟨threads, same⟩ := target_machine m caller named
  simp only [Machine.allocate, same] at used
  exact (sound.withThreads threads).serve_exact _ used fresh own

/-- A block of a pool is as it was asked for: it is new, or it has taken the place of another block of
that pool and kept its alignment. -/
structure Fits (m : Machine) (block : Option Address) (asked : Wanted) (new : Block) : Prop where
  size : chunkSize? asked.size = some new.size
  align : (∀ addr, block = some addr → m.owner? addr ≠ new.owner) ∧
      new.align = max asked.align granule ∨
    ∃ b, m.InUse b ∧ block = some b.addr ∧ b.owner = new.owner ∧ new.align = b.align

/-- A block that is answered belongs to where it was to go, and if it comes from elsewhere, a request
has brought it into use. -/
theorem Relocation.answered {target : Target} {known : Option Nat} {moved : Address}
    {o : Outcome (Option Address)} (relocation : Relocation m addr target known request o)
    (answer : o.answer = .ok (some moved)) (sound : ∃ lost loans, o.machine.Sound lost loans)
    (used : o.machine.InUse new) (start : new.addr = moved) : new.owner = target.owner ∧
      (m.owner? addr = target.owner ∨ Change m (m.serve target request).machine [] [new] []) := by
  obtain ⟨lost, loans, sound⟩ := sound
  cases relocation with
  | refused => cases answer
  | abandoned => cases answer
  | @refitted b fresh after same _ _ _ change owner _ _ =>
    cases answer
    obtain rfl := sound.inUse_unique used ((change.inUse fresh).2 (.inl (by simp))) start
    exact ⟨owner, .inl same⟩
  | @carried b fresh after _ _ _ issue _ exchanges owner _ _ =>
    cases answer
    obtain rfl := sound.inUse_unique used ((exchanges.inUse fresh).2 (.inl (by simp))) start
    exact ⟨owner, .inr issue⟩

theorem Sound.relocate_exact (sound : m.Sound lost loans) (caller : Caller) (target : Target)
    {known : Option Nat} {moved : Address} (handed : m.Handed loans addr)
    (answer : (m.relocate caller target addr known request).answer = .ok (some moved))
    (used : (m.relocate caller target addr known request).machine.InUse new) (start : new.addr = moved)
    (own : new.owner = some id) : Fits m (some addr) ⟨request.size, request.align⟩ new := by
  have keeps : (m.relocate caller target addr known request).Keeps lost :=
    sound.relocate caller target (.inl handed)
  obtain ⟨lost', loans', _, after⟩ := keeps.sound
  obtain ⟨owner, place⟩ := (sound.relocate_relocation caller target (.inl handed)).answered answer
    ⟨_, _, after⟩ used start
  have goal := own.symm.trans owner
  by_cases stays : m.owner? addr = target.owner
  · -- only a pool resizes its own block here, as the block has an owner
    have ways := m.relocate_ways caller target addr known request
    generalize m.relocate caller target addr known request = o at answer used after ways
    cases ways with
    | stays _ => cases answer
    | exchanged _ heap _ => cases goal.trans heap
    | elsewhere foreign _ _ => exact absurd (stays.trans goal.symm) (foreign id goal.symm)
    | resized owned _ =>
      obtain ⟨b, chunk, old, start', ownedBy, rounded, exact'⟩ := sound.resizeIn_exact owned answer
      have same := after.inUse_unique used exact' start
      refine ⟨rounded.trans (congrArg (some ·.size) same.symm), .inr ⟨b, old, ?_, ?_, ?_⟩⟩
      · exact congrArg some start'.symm
      · exact ownedBy.trans (congrArg Block.owner same).symm
      · exact (congrArg Block.align same).trans rfl
  · have issue := place.resolve_left stays
    have fresh : ¬ m.InUse new := fun used => by simpa using issue.fresh new (by simp) used
    have served := (issue.inUse new).2 (.inl (by simp))
    obtain ⟨size, align⟩ := sound.serve_exact target served fresh own
    refine ⟨size, .inl ⟨fun other here same => stays ?_, align⟩⟩
    cases here
    exact same.trans owner

/-- A call brings at most one block into use, and it answers that one. -/
structure Brings (m : Machine) (c : Call) (new : Option Block) : Prop where
  answered : c.answered? m = new.map (·.addr)
  inUse : ∀ n ∈ new, (c.run m).machine.InUse n
  fresh : c.block? = none → ∀ n ∈ new, ¬ m.InUse n
  others : ∀ b, (c.run m).machine.InUse b → b ∈ new ∨ m.InUse b

theorem Exchanges.brings {gone new : Option Block} {written : List Span}
    (exchanges : Exchanges m (c.run m).machine gone.toList new.toList written)
    (answered : c.answered? m = new.map (·.addr)) (plain : c.block? = none → gone = none) :
    m.Brings c new where
  answered := answered
  inUse := fun n member => (exchanges.inUse n).2 (.inl (Option.mem_toList.2 member))
  fresh := by
    intro unnamed n member used
    have old := exchanges.fresh n (Option.mem_toList.2 member) used
    rw [plain unnamed] at old
    cases old
  others := fun b used =>
    ((exchanges.inUse b).1 used).imp (fun member => Option.mem_toList.1 member) (·.1)

/-- A call that answers nothing. -/
theorem Brings.nothing (answered : c.answered? m = none)
    (fewer : ∀ b, (c.run m).machine.InUse b → m.InUse b) : m.Brings c none :=
  ⟨answered, nofun, fun _ => nofun, fun b used => .inr (fewer b used)⟩

theorem Course.fewer (course : Course c.Falling m after) (used : after.InUse b) : m.InUse b := by
  induction course with
  | refl => exact used
  | tail _ step ih =>
    obtain ⟨gone, new, written, change, falling⟩ := step
    have inUse := (change.inUse b).1 used
    rw [falling.new] at inUse
    exact ih (inUse.resolve_left (List.not_mem_nil)).1

theorem Change.fewer {gone : List Block} {written : List Span}
    (change : Change m after gone [] written) (used : after.InUse b) : m.InUse b :=
  ((change.inUse b).1 used).resolve_left List.not_mem_nil |>.1

theorem Sound.run_brings (sound : m.Sound [] loans) (proper : c.Proper m) :
    ∃ new, m.Brings c new := by
  have given : ∀ addr, c.routed? = some addr → m.Handed loans addr ∧
      ∀ owner, m.owner? addr = some owner → c.expected?.all (· == owner) = true :=
    fun _ routed => sound.handed_of_routed (sound.routed_of_proper proper routed)
  have granted : ∀ {new : Option Block} {written : List Span},
      Exchanges m (c.run m).machine [] new.toList written → c.answered? m = new.map (·.addr) →
      ∃ new, m.Brings c new := by
    intro new written exchanges answered
    have nothing : Exchanges m (c.run m).machine (none : Option Block).toList new.toList written :=
      exchanges
    exact ⟨new, nothing.brings answered fun _ => rfl⟩
  have passed : ∀ {addr : Address} {o : Outcome (Option Address)}, m.Passes addr o →
      (c.run m).machine = o.machine → c.answered? m = o.answer.toOption.join →
      c.block? = some addr → ∃ new, m.Brings c new := by
    rintro addr o ⟨gone, new, exchanges, answer, _⟩ machine answered block
    rw [← machine] at exchanges
    exact ⟨new, exchanges.brings (answered.trans answer) fun unnamed => nomatch block.symm.trans unnamed⟩
  have changed : c.answered? m = none → ∀ {gone : List Block} {written : List Span},
      Change m (c.run m).machine gone [] written → ∃ new, m.Brings c new :=
    fun answered _ _ change => ⟨none, .nothing answered fun _ used => change.fewer used⟩
  have fallen : c.answered? m = none → Course c.Falling m (c.run m).machine →
      ∃ new, m.Brings c new :=
    fun answered course => ⟨none, .nothing answered fun _ used => course.fewer used⟩
  have dropped : ∀ value, Change m (m.dropValue value) [] [] [] := fun value =>
    sound.aside (sound.dropValue value) rfl rfl rfl rfl
  cases c with
  | openPool caller settings => exact changed rfl (sound.openPool_change caller proper.sane)
  | dropPool caller id => exact fallen rfl (sound.dropPool_falls caller id)
  | trimPool id => exact changed rfl (sound.trimPool_change id)
  | exitThread thread => exact fallen rfl (sound.exitThread_falls thread)
  | select caller id =>
    have chosen : Change m (m.select caller id).2 [] [] [] := by
      cases id with
      | some id => exact sound.aside (sound.select caller (some id)) rfl rfl rfl rfl
      | none => exact sound.aside (sound.select caller none) rfl rfl rfl rfl
    exact changed rfl chosen
  | restore thread current =>
    have chosen := sound.updateRegister thread ({ · with current })
    exact changed rfl (sound.aside chosen rfl rfl rfl rfl)
  | allocate caller chosen request =>
    obtain ⟨owner, supplied⟩ := sound.allocate_supplied caller chosen request
    obtain ⟨new, exchanges, answer⟩ := supplied.exchanges
    exact granted exchanges answer
  | allocateLayout caller size align zeroed =>
    obtain ⟨owner, supplied⟩ := sound.allocate_supplied caller none ⟨size, align, zeroed, none⟩
    obtain ⟨new, exchanges, answer⟩ := supplied.exchanges
    exact granted exchanges answer
  | foreign request =>
    obtain ⟨new, exchanges, answer⟩ := (sound.serve_supplied .systemHeap request).exchanges
    exact granted exchanges answer
  | resizeBlock id addr size => exact passed (sound.resizeBlock_passes id addr size) rfl rfl rfl
  | releaseBlock caller id addr => exact fallen rfl (sound.releaseBlock_falls caller rfl)
  | reallocate caller chosen addr size =>
    exact passed (sound.directed_passes (m.reallocate_directed caller chosen addr size)
      (given addr rfl).1) rfl rfl rfl
  | reallocateLayout caller addr old align size =>
    exact passed (sound.directed_passes (m.reallocateLayout_directed caller addr old align size)
      (given addr rfl).1) rfl rfl rfl
  | free caller expected addr =>
    refine fallen rfl ?_
    simp only [Call.run, Machine.free]
    split
    · exact .refl
    · exact sound.release_falls caller rfl (.inl (given addr rfl).1)
  | freeLayout caller addr =>
    refine fallen rfl ?_
    simp only [Call.run, Machine.freeLayout]
    split
    · exact .refl
    · exact sound.release_falls caller rfl (.inl (given addr rfl).1)
  | mark addr => exact changed rfl (sound.aside (sound.mark addr) rfl rfl rfl rfl)
  | unmark addr => exact changed rfl (sound.aside (sound.unmark addr) rfl rfl rfl rfl)
  | write addr len content => exact changed rfl (sound.write_change addr len content)
  | box caller chosen value =>
    obtain ⟨new, written, exchanges, answer⟩ := sound.box_exchanges caller chosen value
    exact granted exchanges answer
  | boxOrAbort caller chosen value =>
    obtain ⟨new, written, exchanges, answer⟩ := sound.boxOrAbort_exchanges caller chosen value
    exact granted exchanges answer
  | assignBox box value =>
    have fill := (sound.dropValue (m.readBox box)).write_change box.addr value.type.payload
      value.byte
    exact ⟨none, .nothing rfl fun _ used => (dropped _).fewer (fill.fewer used)⟩
  | dropBox caller box =>
    exact fallen rfl (sound.dropBox_falls caller box (.inl (given box.addr rfl).1))
  | unbox caller box =>
    exact fallen rfl (sound.unbox_falls caller box (.inl (given box.addr rfl).1))
  | dropValue value => exact changed rfl (dropped value)
  | reportLeaks => exact changed rfl sound.reportLeaks_change
  | adjust system =>
    obtain ⟨below, blocks, _, bytes⟩ := proper.sane
    have adjusted : { m with system }.Sound [] loans := sound.congr below blocks rfl rfl rfl
    exact changed rfl (sound.aside adjusted rfl rfl rfl bytes)

theorem answer_of_join {α : Type} {o : Outcome (Option α)} {x : α}
    (answered : o.answer.toOption.join = some x) : o.answer = .ok (some x) := by
  obtain ⟨answer, machine⟩ := o
  cases answer with
  | error fault => cases answered
  | ok found =>
    cases found with
    | none => cases answered
    | some y =>
      cases answered
      rfl

theorem Sound.resizeBlock_exact (sound : m.Sound lost loans) {other : PoolId} {size : Nat}
    (answered : (m.resizeBlock other addr size).answer = .ok (some new.addr))
    (used : (m.resizeBlock other addr size).machine.InUse new) :
    Fits m (some addr) ⟨size, granule⟩ new := by
  unfold Machine.resizeBlock at answered used
  by_cases owned : m.owner? addr = some other
  · rw [if_pos owned] at answered used
    obtain ⟨b, chunk, old, start, ownedBy, rounded, exact'⟩ := sound.resizeIn_exact owned answered
    obtain ⟨_, _, after⟩ := sound.resizeIn owned size
    have same := after.inUse_unique used exact' rfl
    refine ⟨rounded.trans (congrArg (some ·.size) same.symm), .inr ⟨b, old, ?_, ?_, ?_⟩⟩
    · exact congrArg some start.symm
    · exact ownedBy.trans (congrArg Block.owner same).symm
    · exact (congrArg Block.align same).trans rfl
  · rw [if_neg owned] at answered
    cases answered

theorem Sound.reallocate_exact (sound : m.Sound lost loans) (caller : Caller)
    (named : Option PoolId) {size : Nat} (handed : m.Handed loans addr)
    (answered : (m.reallocate caller named addr size).answer = .ok (some new.addr))
    (used : (m.reallocate caller named addr size).machine.InUse new) (own : new.owner = some id) :
    Fits m (some addr) ⟨size, granule⟩ new := by
  obtain ⟨threads, same⟩ := target_machine m caller named
  unfold Machine.reallocate at answered used
  simp only [same] at answered used
  split at answered
  · cases answered
  · rename_i unmarked
    rw [if_neg unmarked] at used
    obtain ⟨size, align⟩ :=
      (sound.withThreads threads).relocate_exact caller _ handed answered used rfl own
    exact ⟨size, align⟩

theorem Sound.reallocateLayout_exact (sound : m.Sound lost loans) (caller : Caller)
    {old align size : Nat} (handed : m.Handed loans addr)
    (answered : (m.reallocateLayout caller addr old align size).answer = .ok (some new.addr))
    (used : (m.reallocateLayout caller addr old align size).machine.InUse new)
    (own : new.owner = some id) : Fits m (some addr) ⟨size, align⟩ new := by
  obtain ⟨threads, same⟩ := target_machine m caller none
  unfold Machine.reallocateLayout at answered used
  split at answered
  · cases answered
  · rename_i unmarked
    rw [if_neg unmarked] at used
    simp only [same] at answered used
    obtain ⟨size, align⟩ :=
      (sound.withThreads threads).relocate_exact caller _ handed answered used rfl own
    exact ⟨size, align⟩

/-- What a call answers is as the call has asked for it, if a pool has issued it. -/
theorem Sound.run_fits (sound : m.Sound [] loans) (proper : c.Proper m)
    (answered : c.answered? m = some new.addr) (used : (c.run m).machine.InUse new)
    (own : new.owner = some id) : ∃ asked, c.asked? = some asked ∧ Fits m c.block? asked new := by
  have fresh : c.block? = none → ¬ m.InUse new := by
    intro unnamed
    obtain ⟨brought, brings⟩ := sound.run_brings proper
    obtain ⟨lost', loans', _, after⟩ := (sound.run_proper proper).sound
    obtain ⟨n, rfl, start⟩ := Option.map_eq_some_iff.1 (brings.answered.symm.trans answered)
    obtain rfl := after.inUse_unique (brings.inUse n rfl) used start
    exact brings.fresh unnamed n rfl
  have given : ∀ addr, c.routed? = some addr → m.Handed loans addr :=
    fun _ routed => (sound.handed_of_routed (sound.routed_of_proper proper routed)).1
  have issued : ∀ {asked : Wanted}, chunkSize? asked.size = some new.size ∧
      new.align = max asked.align granule → Fits m none asked new :=
    fun {asked} ⟨size, align⟩ => ⟨size, .inl ⟨nofun, align⟩⟩
  cases c with
  | allocate caller chosen request =>
    exact ⟨_, rfl, issued (sound.allocate_exact caller chosen used (fresh rfl) own)⟩
  | allocateLayout caller size align zeroed =>
    exact ⟨_, rfl, issued (sound.allocate_exact caller none used (fresh rfl) own)⟩
  | foreign request =>
    exact ⟨_, rfl, issued (sound.serve_exact .systemHeap used (fresh rfl) own)⟩
  | resizeBlock other addr size =>
    exact ⟨_, rfl, sound.resizeBlock_exact (answer_of_join answered) used⟩
  | reallocate caller chosen addr size =>
    exact ⟨_, rfl, sound.reallocate_exact caller chosen (given addr rfl) (answer_of_join answered)
      used own⟩
  | reallocateLayout caller addr old align size =>
    exact ⟨_, rfl, sound.reallocateLayout_exact caller (given addr rfl) (answer_of_join answered)
      used own⟩
  | box caller chosen value =>
    obtain ⟨bytes, dropped, same⟩ := m.box_machine caller chosen value
    have boxed : (m.box caller chosen value).machine.InUse new := used
    rw [same] at boxed
    exact ⟨_, rfl, issued (sound.allocate_exact caller chosen boxed (fresh rfl) own)⟩
  | boxOrAbort caller chosen value =>
    obtain ⟨bytes, dropped, same⟩ := m.box_machine caller chosen value
    have boxed : (m.boxOrAbort caller chosen value).machine.InUse new := used
    rw [boxOrAbort_machine, same] at boxed
    exact ⟨_, rfl, issued (sound.allocate_exact caller chosen boxed (fresh rfl) own)⟩
  | _ => cases answered

/-- Every block of a pool is as it was asked for. -/
def Measured (m : Machine) (asked : Address → Wanted) : Prop :=
  ∀ b id, m.InUse b → b.owner = some id → chunkSize? (asked b.addr).size = some b.size ∧
    b.align = max (asked b.addr).align granule ∧ Word.isPowerOfTwo (asked b.addr).align = true

variable {asked : Address → Wanted}

theorem Sound.run_measured (sound : m.Sound [] loans) (proper : c.Proper m)
    (sound' : ∃ loans', (c.run m).machine.Sound [] loans') (measured : m.Measured asked)
    (powers : ∀ new ∈ c.asked?, Word.isPowerOfTwo new.align = true) :
    (c.run m).machine.Measured (c.record m asked) := by
  obtain ⟨loans', sound'⟩ := sound'
  intro b id used own
  by_cases answered : c.answered? m = some b.addr
  · obtain ⟨new, asks, size, align⟩ := sound.run_fits proper answered used own
    have owner := sound'.owner?_of_inUse used
    rw [Call.record_answered answered asks]
    refine ⟨size, ?_⟩
    show _ = max (c.alignment m asked new b.addr) granule ∧
      Word.isPowerOfTwo (c.alignment m asked new b.addr) = true
    rcases align with ⟨foreign, align⟩ | ⟨old, used', block, same, align⟩
    · have chosen : c.alignment m asked new b.addr = new.align := by
        unfold Call.alignment
        cases block : c.block? with
        | none => rfl
        | some addr =>
          rw [owner]
          exact if_neg (foreign addr block)
      rw [chosen]
      exact ⟨align, powers new asks⟩
    · have kept : c.alignment m asked new b.addr = (asked old.addr).align := by
        simp only [Call.alignment, block, owner, sound.owner?_of_inUse used', same, if_true]
      obtain ⟨_, before, power⟩ := measured old id used' (same.trans own)
      rw [kept, align]
      exact ⟨before, power⟩
  · obtain ⟨new, brings⟩ := sound.run_brings proper
    have still : m.InUse b := by
      refine (brings.others b used).resolve_left fun member => answered ?_
      rw [brings.answered, member]
      rfl
    rw [Call.record_of_ne answered]
    exact measured b id still own

theorem Asking.reachable (asking : Asking m asked) : Reachable m := by
  induction asking with
  | start slots _ => exact .start slots
  | step c _ proper _ ih => exact ih.step c proper

theorem Asking.measured (asking : Asking m asked) : m.Measured asked := by
  induction asking with
  | start slots asked =>
    rintro b id (⟨p, inPools, _⟩ | ⟨s, stored, _, _⟩)
    · cases inPools
    · cases stored
  | step c before proper powers ih =>
    obtain ⟨loans, sound⟩ := before.reachable.sound
    exact sound.run_measured proper (before.reachable.step c proper).sound ih powers

/-- Every live block of a pool has exactly the size last requested for it, rounded up to granules, and
lies at a multiple of the alignment that it was allocated with. -/
theorem Asking.live_measured (asking : Asking m asked) (inPools : p ∈ m.pools) {b : LiveBlock}
    (live : b ∈ p.heap.live) :
    m.sizeOf b.addr = Word.roundUp (max (asked b.addr).size 1) granule ∧
      granule ∣ b.addr ∧ (asked b.addr).align ∣ b.addr := by
  obtain ⟨loans, sound⟩ := asking.reachable.sound
  have found := sound.pool?_eq inPools
  have used : m.InUse (b.issuedBy p.id) := .inl ⟨p, inPools, mem_issued.2 ⟨b, live, rfl⟩⟩
  have measured := asking.measured (b.issuedBy p.id) p.id used rfl
  simp only [LiveBlock.issuedBy] at measured
  obtain ⟨size, align, power⟩ := measured
  obtain ⟨_, multiple⟩ := (asking.reachable.attempted.aligned p.id p found).live b live
  rw [align] at multiple
  obtain ⟨whole, natural⟩ := Word.dvd_max_granule power
  refine ⟨?_, natural.trans multiple, whole.trans multiple⟩
  have owner := sound.owner?_of_inUse used
  have known := sound.blockSize?_of_inUse used rfl
  simp only [LiveBlock.issuedBy] at owner known
  simp only [sizeOf, owner, known, Option.getD_some, roundUp_of_chunkSize? size]

end Machine

/-- What is known to have been asked for after calls that are made one after the other. -/
def Call.recordAll : List Call → Machine → (Address → Wanted) → Address → Wanted
  | [], _, asked => asked
  | c :: rest, m, asked => recordAll rest (c.run m).machine (c.record m asked)

namespace Machine

variable {m : Machine} {asked : Address → Wanted}

theorem Asking.runAll (asking : Asking m asked) (calls : List Call)
    (fit : Call.areProper calls m = true)
    (powers : ∀ c ∈ calls, ∀ new ∈ c.asked?, Word.isPowerOfTwo new.align = true) :
    Asking (Call.runAll calls m) (Call.recordAll calls m asked) := by
  induction calls generalizing m asked with
  | nil => exact asking
  | cons c rest ih =>
    simp only [Call.areProper, Bool.and_eq_true] at fit
    obtain ⟨first, others⟩ := List.forall_mem_cons.1 powers
    exact ih (asking.step c (Call.proper_of_isProper fit.1) first) fit.2 others

/-- A block at a multiple of 64 grows in place, and then it has to move since another block is in its
way. The same becomes of two regions: the first one is resized where it is, the second one moves. -/
theorem stretching_measured :
    let calls : List Call := [.openPool { thread := 0 } {},
      .allocate { thread := 0 } (some 1) (.plain 1),
      .allocate { thread := 0 } (some 1) ⟨100, 64, false, none⟩,
      .resizeBlock 1 (SystemHeap.slotBase 3 + 64) 5000,
      .allocate { thread := 0 } (some 1) (.plain 70),
      .resizeBlock 1 (SystemHeap.slotBase 3 + 64) 6001,
      .allocate { thread := 0 } (some 1) (.plain 200000),
      .resizeBlock 1 SystemHeap.firstBlock 150000,
      .resizeBlock 1 SystemHeap.firstBlock 250001,
      .allocate { thread := 0 } (some 1) ⟨140000, 8192, false, none⟩,
      .allocate { thread := 0 } (some 1) (.plain 140000),
      .resizeBlock 1 (SystemHeap.firstBlock + 253952) 150001]
    let m := Call.runAll calls (ample [3])
    let asked := Call.recordAll calls (ample [3]) fun _ => ⟨0, 1⟩
    ∀ known ∈ [(SystemHeap.slotBase 3 + 5184, Wanted.mk 6001 64),
        (SystemHeap.firstBlock, ⟨250001, 16⟩), (SystemHeap.firstBlock + 540672, ⟨150001, 8192⟩)],
      ∃ p ∈ m.pools, ∃ b ∈ p.heap.live, (b.addr, asked b.addr) = known ∧
        m.sizeOf b.addr = Word.roundUp (max (asked b.addr).size 1) granule ∧
        granule ∣ b.addr ∧ (asked b.addr).align ∣ b.addr := by
  intro calls m asked known among
  have asking : Asking m asked :=
    ((Asking.start [3] _).step _ (ample_proper [3]) nofun).runAll calls (by decide +kernel)
      (by decide +kernel)
  have found : ∀ known ∈ [(SystemHeap.slotBase 3 + 5184, Wanted.mk 6001 64),
        (SystemHeap.firstBlock, ⟨250001, 16⟩), (SystemHeap.firstBlock + 540672, ⟨150001, 8192⟩)],
      ∃ p ∈ m.pools, ∃ b ∈ p.heap.live, (b.addr, asked b.addr) = known := by decide +kernel
  obtain ⟨p, inPools, b, live, same⟩ := found known among
  exact ⟨p, inPools, b, live, same, Asking.live_measured asking inPools live⟩

end Machine

end PooledMemory
