import PooledMemory.Proofs.Machine.Effects
import PooledMemory.Proofs.Machine.Step

namespace PooledMemory

/-- A value that was to be put into a box, if it has found no place. -/
def Outcome.spilled (o : Outcome (Except Failure Boxed)) (value : Value) : List Value :=
  match o.answer with
  | .ok (.error _) => [value]
  | _ => []

/-- The values whose destructors a call runs, where `held` tells what boxes hold. -/
def Call.drops (c : Call) (m : Machine) (held : Boxed → Option Value) : List Value :=
  match c with
  | box caller named value => (m.box caller named value).spilled value
  | boxOrAbort caller named value => (m.box caller named value).spilled value
  | assignBox target _ => (held target).toList
  | dropBox _ target => (held target).toList
  | dropValue value => [value]
  | _ => []

namespace Machine

/-- The marks and the dropped values are as before. No pool looks at them. -/
structure Undisturbed (m after : Machine) : Prop where
  marks : after.marks = m.marks
  dropped : after.dropped = m.dropped

variable {m middle after : Machine}

theorem Undisturbed.trans (first : m.Undisturbed middle) (second : middle.Undisturbed after) :
    m.Undisturbed after :=
  ⟨second.marks.trans first.marks, second.dropped.trans first.dropped⟩

theorem Undisturbed.bind {α β : Type} {o : Outcome α} {next : α → Machine → Outcome β}
    (first : m.Undisturbed o.machine)
    (second : ∀ answer (after : Machine), after.Undisturbed (next answer after).machine) :
    m.Undisturbed (o.bind next).machine := by
  obtain ⟨answer, after⟩ := o
  cases answer with
  | error fault => exact first
  | ok answer => exact first.trans (second answer after)

theorem clearCurrent_undisturbed (m : Machine) (thread : ThreadId) (id : PoolId) :
    m.Undisturbed (m.clearCurrent thread id) := by
  obtain ⟨threads, same⟩ := clearCurrent_eq m thread id
  rw [same]
  exact ⟨rfl, rfl⟩

theorem destroy_undisturbed (m : Machine) (caller : Caller) (p : Pool) :
    m.Undisturbed (m.destroy caller p) := by
  obtain ⟨threads, same⟩ := destroy_eq m caller p
  rw [same]
  exact ⟨rfl, rfl⟩

theorem retire_undisturbed (m : Machine) (caller : Caller) (id : PoolId) :
    m.Undisturbed (m.retire caller id).2 := by
  unfold retire
  repeat' split
  · exact ⟨rfl, rfl⟩
  · exact ⟨rfl, rfl⟩
  · obtain ⟨marks, dropped⟩ :=
      clearCurrent_undisturbed (m.setPhase id .deletePending) caller.thread id
    exact ⟨marks, dropped⟩
  · exact destroy_undisturbed m caller _

theorem dropPool_undisturbed (m : Machine) (caller : Caller) (id : PoolId) :
    m.Undisturbed (m.dropPool caller id).machine := by
  obtain ⟨marks, dropped⟩ := retire_undisturbed m caller id
  unfold dropPool
  simp only
  repeat' split
  all_goals exact ⟨marks, dropped⟩

theorem retireAll_undisturbed (caller : Caller) (owned : List Pool) (m : Machine) :
    m.Undisturbed (owned.foldl (fun m p => (m.retire caller p.id).2) m) := by
  induction owned generalizing m with
  | nil => exact ⟨rfl, rfl⟩
  | cons p others ih => exact (retire_undisturbed m caller p.id).trans (ih _)

theorem exitThread_undisturbed (m : Machine) (thread : ThreadId) :
    m.Undisturbed (m.exitThread thread) := by
  unfold exitThread
  simp only
  split
  · exact ⟨rfl, rfl⟩
  · obtain ⟨marks, dropped⟩ := retireAll_undisturbed { thread, nested := true } _ _
    exact ⟨marks, dropped⟩

theorem openPool_undisturbed (m : Machine) (caller : Caller) (settings : PoolSettings) :
    m.Undisturbed (m.openPool caller settings).2 := by
  unfold openPool
  simp only
  split
  · exact ⟨rfl, rfl⟩
  · exact ⟨rfl, rfl⟩

theorem trimPool_undisturbed (m : Machine) (id : PoolId) :
    m.Undisturbed (m.trimPool id).machine := by
  unfold trimPool
  simp only [Outcome.ok, Outcome.stop]
  repeat' split
  all_goals exact ⟨rfl, rfl⟩

theorem allocateIn_undisturbed (m : Machine) (id : PoolId) (request : Request) :
    m.Undisturbed (m.allocateIn id request).machine := by
  unfold allocateIn
  simp only [Outcome.ok, Outcome.stop]
  repeat' split
  all_goals exact ⟨rfl, rfl⟩

theorem resizeIn_undisturbed (m : Machine) (id : PoolId) (addr : Address) (size : Nat) :
    m.Undisturbed (m.resizeIn id addr size).machine := by
  unfold resizeIn
  simp only [Outcome.ok, Outcome.stop]
  repeat' split
  all_goals exact ⟨rfl, rfl⟩

theorem releaseIn_undisturbed (m : Machine) (caller : Caller) (id : PoolId) (addr : Address) :
    m.Undisturbed (m.releaseIn caller id addr).machine := by
  unfold releaseIn
  simp only [Outcome.ok, Outcome.stop]
  repeat' split
  · exact ⟨rfl, rfl⟩
  · exact ⟨rfl, rfl⟩
  · exact ⟨rfl, rfl⟩
  · obtain ⟨marks, dropped⟩ := destroy_undisturbed _ caller _
    exact ⟨marks, dropped⟩
  · exact ⟨rfl, rfl⟩

theorem target_undisturbed (m : Machine) (caller : Caller) (named : Option PoolId) :
    m.Undisturbed (m.target caller named).2 := by
  obtain ⟨threads, same⟩ := target_machine m caller named
  rw [same]
  exact ⟨rfl, rfl⟩

theorem serve_undisturbed (m : Machine) (target : Target) (request : Request) :
    m.Undisturbed (m.serve target request).machine := by
  unfold serve
  split
  · exact allocateIn_undisturbed m _ request
  · exact ⟨rfl, rfl⟩
  · split
    · exact ⟨rfl, rfl⟩
    · exact ⟨rfl, rfl⟩

theorem allocate_undisturbed (m : Machine) (caller : Caller) (named : Option PoolId)
    (request : Request) : m.Undisturbed (m.allocate caller named request).machine :=
  (target_undisturbed m caller named).trans (serve_undisturbed _ _ request)

theorem release_undisturbed (m : Machine) (caller : Caller) (expected : Option PoolId)
    (addr : Address) : m.Undisturbed (m.release caller expected addr).machine := by
  unfold release
  repeat' split
  · exact ⟨rfl, rfl⟩
  · obtain ⟨marks, dropped⟩ := releaseIn_undisturbed _ caller _ addr
    exact ⟨marks, dropped⟩
  · exact ⟨rfl, rfl⟩
  · exact ⟨rfl, rfl⟩
  · exact ⟨rfl, rfl⟩

theorem free_undisturbed (m : Machine) (caller : Caller) (expected : Option PoolId)
    (addr : Address) : m.Undisturbed (m.free caller expected addr).machine := by
  unfold free
  split
  · exact ⟨rfl, rfl⟩
  · exact release_undisturbed m caller expected addr

theorem freeLayout_undisturbed (m : Machine) (caller : Caller) (addr : Address) :
    m.Undisturbed (m.freeLayout caller addr).machine := by
  unfold freeLayout
  split
  · exact ⟨rfl, rfl⟩
  · exact release_undisturbed m caller none addr

theorem resizeBlock_undisturbed (m : Machine) (id : PoolId) (addr : Address) (size : Nat) :
    m.Undisturbed (m.resizeBlock id addr size).machine := by
  unfold resizeBlock
  split
  · exact resizeIn_undisturbed m id addr size
  · exact ⟨rfl, rfl⟩

theorem releaseBlock_undisturbed (m : Machine) (caller : Caller) (id : PoolId) (addr : Address) :
    m.Undisturbed (m.releaseBlock caller id addr).machine := by
  unfold releaseBlock
  repeat' split
  · obtain ⟨marks, dropped⟩ := releaseIn_undisturbed _ caller id addr
    exact ⟨marks, dropped⟩
  · exact ⟨rfl, rfl⟩
  · exact releaseIn_undisturbed m caller id addr

theorem moveContent_undisturbed (m : Machine) (caller : Caller) (source : Address)
    (owner : Option PoolId) (known : Option Nat) (moved : Address) (size : Nat) :
    m.Undisturbed (m.moveContent caller source owner known moved size).machine := by
  cases owner with
  | some id =>
    obtain ⟨marks, dropped⟩ := releaseIn_undisturbed _ caller id source
    exact ⟨marks, dropped⟩
  | none =>
    simp only [moveContent]
    split
    · exact ⟨rfl, rfl⟩
    unfold moveStaged
    split
    · exact release_undisturbed m caller none moved
    · exact ⟨rfl, rfl⟩

theorem relocate_undisturbed (m : Machine) (caller : Caller) (target : Target) (addr : Address)
    (known : Option Nat) (request : Request) :
    m.Undisturbed (m.relocate caller target addr known request).machine := by
  have ways := relocate_ways m caller target addr known request
  generalize m.relocate caller target addr known request = o at ways
  cases ways with
  | stays => exact ⟨rfl, rfl⟩
  | resized => exact resizeIn_undisturbed m _ addr request.size
  | exchanged => exact ⟨rfl, rfl⟩
  | elsewhere _ refuses moves =>
    refine (serve_undisturbed m target request).bind fun answer after => ?_
    cases answer with
    | error failure =>
      rw [refuses]
      exact ⟨rfl, rfl⟩
    | ok moved =>
      rw [moves]
      exact moveContent_undisturbed after caller addr _ known moved request.size

theorem reallocate_undisturbed (m : Machine) (caller : Caller) (named : Option PoolId)
    (addr : Address) (size : Nat) :
    m.Undisturbed (m.reallocate caller named addr size).machine := by
  have aimed := target_undisturbed m caller named
  unfold reallocate
  simp only
  split
  · exact aimed
  · exact aimed.trans (relocate_undisturbed _ caller _ addr none (.plain size caller.site))

theorem reallocateLayout_undisturbed (m : Machine) (caller : Caller) (addr : Address)
    (old align size : Nat) :
    m.Undisturbed (m.reallocateLayout caller addr old align size).machine := by
  unfold reallocateLayout
  split
  · exact ⟨rfl, rfl⟩
  · exact (target_undisturbed m caller none).trans (relocate_undisturbed _ caller _ addr _ _)

theorem reportLeaks_undisturbed (m : Machine) : m.Undisturbed m.reportLeaks.2 := by
  obtain ⟨events, same⟩ := reportLeaks_machine m
  rw [same]
  exact ⟨rfl, rfl⟩

theorem box_marks (m : Machine) (caller : Caller) (named : Option PoolId) (value : Value) :
    (m.box caller named value).machine.marks = m.marks := by
  obtain ⟨bytes, dropped, same⟩ := m.box_machine caller named value
  rw [same]
  exact (allocate_undisturbed m caller named _).marks

/-- A value that finds no place is dropped, and no other one is. -/
theorem box_dropped (m : Machine) (caller : Caller) (named : Option PoolId) (value : Value) :
    (m.box caller named value).machine.dropped =
      (m.box caller named value).spilled value ++ m.dropped := by
  have kept := allocate_undisturbed m caller named (value.type.request caller.site)
  unfold Machine.box
  generalize m.allocate caller named _ = o at kept
  obtain ⟨answer, after⟩ := o
  cases answer with
  | error fault => exact kept.dropped
  | ok served =>
    cases served with
    | error failure => exact congrArg (value :: ·) kept.dropped
    | ok addr => exact kept.dropped

end Machine

namespace Call

/-- The call marks and unmarks no block, and it boxes and drops no value. -/
def isPlain : Call → Bool
  | mark _ | unmark _ | box .. | boxOrAbort .. | assignBox .. | dropBox .. | dropValue _ => false
  | _ => true

theorem run_undisturbed {c : Call} (m : Machine) (plain : c.isPlain = true) :
    m.Undisturbed (c.run m).machine := by
  cases c with
  | openPool caller settings => exact m.openPool_undisturbed caller settings
  | dropPool caller id => exact m.dropPool_undisturbed caller id
  | trimPool id => exact m.trimPool_undisturbed id
  | exitThread thread => exact m.exitThread_undisturbed thread
  | select caller id =>
    cases id with
    | none => exact ⟨rfl, rfl⟩
    | some id => exact ⟨rfl, rfl⟩
  | allocate caller named request => exact m.allocate_undisturbed caller named request
  | allocateLayout caller size align zeroed =>
    exact m.allocate_undisturbed caller none ⟨size, align, zeroed, none⟩
  | foreign request => exact m.serve_undisturbed .systemHeap request
  | resizeBlock id addr size => exact m.resizeBlock_undisturbed id addr size
  | releaseBlock caller id addr => exact m.releaseBlock_undisturbed caller id addr
  | reallocate caller named addr size => exact m.reallocate_undisturbed caller named addr size
  | reallocateLayout caller addr old align size =>
    exact m.reallocateLayout_undisturbed caller addr old align size
  | free caller expected addr => exact m.free_undisturbed caller expected addr
  | freeLayout caller addr => exact m.freeLayout_undisturbed caller addr
  | unbox caller box => exact m.release_undisturbed caller none box.addr
  | reportLeaks => exact m.reportLeaks_undisturbed
  | restore | write | adjust => exact ⟨rfl, rfl⟩
  | mark | unmark | box | boxOrAbort | assignBox | dropBox | dropValue => cases plain

/-- Every call runs the destructors that it has to run, and no others. -/
theorem run_dropped (c : Call) (m : Machine) :
    (c.run m).machine.dropped = c.drops m (fun box => some (m.readBox box)) ++ m.dropped := by
  cases c with
  | box caller named value => exact m.box_dropped caller named value
  | boxOrAbort caller named value =>
    exact (congrArg Machine.dropped (m.boxOrAbort_machine caller named value)).trans
      (m.box_dropped caller named value)
  | dropBox caller box =>
    exact ((m.dropValue (m.readBox box)).release_undisturbed caller none box.addr).dropped
  | mark | unmark | assignBox | dropValue => rfl
  | _ => exact (run_undisturbed m rfl).dropped

/-- What a call does to the marks. It does not matter what becomes of the blocks. -/
def remark : Call → Marks → Marks
  | mark addr, marks => marks.insert addr
  | unmark addr, marks => marks.erase addr
  | _, marks => marks

theorem run_marks (c : Call) (m : Machine) : (c.run m).machine.marks = c.remark m.marks := by
  cases c with
  | box caller named value => exact m.box_marks caller named value
  | boxOrAbort caller named value =>
    exact (congrArg Machine.marks (m.boxOrAbort_machine caller named value)).trans
      (m.box_marks caller named value)
  | dropBox caller box =>
    exact ((m.dropValue (m.readBox box)).release_undisturbed caller none box.addr).marks
  | mark | unmark | assignBox | dropValue => rfl
  | _ => exact (run_undisturbed m rfl).marks

end Call

end PooledMemory
