import PooledMemory.Proofs.Machine.Marks
import PooledMemory.Proofs.Machine.Past
import PooledMemory.Proofs.Machine.Undisturbed
import PooledMemory.Proofs.Marks

namespace PooledMemory

namespace Call

/-- The block that a call asks about whether it is marked, and the fault that stops the call then. -/
def alarm? : Call → Option (Address × Fault)
  | free _ _ addr | reallocate _ _ addr _ => some (addr, .marked addr)
  | freeLayout _ addr | reallocateLayout _ addr _ _ _ => some (addr, .abortedOnMark addr)
  | _ => none

end Call

/-- The fault says that a block is marked. -/
def Fault.isAlarm : Fault → Bool
  | marked _ | abortedOnMark _ => true
  | _ => false

namespace Machine

/-- A block in use starts at the address. -/
def Starts (m : Machine) (addr : Address) : Prop := ∃ b : Block, m.InUse b ∧ b.addr = addr

end Machine

namespace Call

/-- The block in use that starts at the address is still there after the call. Its pool may have
resized it in place. -/
def Leaves (c : Call) (m : Machine) (addr : Address) : Prop :=
  ∃ b b' : Block, m.InUse b ∧ b.addr = addr ∧ (c.run m).machine.InUse b' ∧ b'.addr = addr ∧
    (b' = b ∨ ∃ id size, c = .resizeBlock id addr size)

end Call

namespace Machine

/-- The block that is in use at the address has been marked itself, and the mark has not been taken
back since. -/
inductive Warranted (addr : Address) : List (Machine × Call) → Prop
  | marked {m : Machine} {before : List (Machine × Call)} : m.Starts addr →
    Warranted addr ((m, .mark addr) :: before)
  | since {m : Machine} {c : Call} {before : List (Machine × Call)} : Warranted addr before →
    c ≠ .unmark addr → c.Leaves m addr → Warranted addr ((m, c) :: before)

/-- A mark has been set where no block was, or a call that does not ask for marks has taken away the
block with the mark, and the mark has not been taken back since. -/
inductive Stale (addr : Address) : List (Machine × Call) → Prop
  | nowhere {m : Machine} {before : List (Machine × Call)} : ¬ m.Starts addr →
    Stale addr ((m, .mark addr) :: before)
  | bereft {m : Machine} {c : Call} {before : List (Machine × Call)} :
    m.marks.contains addr = true → m.Starts addr → c.disposes = true → c.alarm? = none →
    ¬ (c.run m).machine.Starts addr → Stale addr ((m, c) :: before)
  | since {m : Machine} {c : Call} {before : List (Machine × Call)} : Stale addr before →
    c ≠ .unmark addr → Stale addr ((m, c) :: before)

/-- A call that asks whether a block is marked is stopped, or it goes on to release the block or to
resize or move it. -/
inductive Asked (m : Machine) (addr : Address) (fault : Fault) : Outcome Unit → Prop
  | stopped (threads : ThreadId → Register) : m.marks.contains addr = true →
    Asked m addr fault (.stop fault { m with threads })
  | released (caller : Caller) (expected : Option PoolId) : m.marks.contains addr = false →
    Asked m addr fault (m.release caller expected addr)
  | relocated (threads : ThreadId → Register) (caller : Caller) (target : Target)
    (known : Option Nat) (request : Request) : m.marks.contains addr = false →
    Asked m addr fault
      ((({ m with threads } : Machine).relocate caller target addr known request).map fun _ => ())

variable {m : Machine} {lost : List (Address × PoolId)} {loans : List SystemBlock} {id : PoolId}
  {b : Block} {c : Call} {addr : Address} {steps : List (Machine × Call)} {fault : Fault}

theorem Sound.addr_ne_zero (sound : m.Sound lost loans) (used : m.InUse b) : b.addr ≠ 0 := by
  have first : b.span.has b.addr = true :=
    Span.has_iff.2 ⟨Nat.le_refl _, Nat.lt_add_of_pos_right (sound.size_pos used)⟩
  obtain ⟨s, stored, inside⟩ := sound.inUse_held used first
  have lower : s.addr ≤ b.addr := (Span.has_iff.1 inside).1
  have positive : 0 < s.addr := by
    rcases sound.below.zoned s stored with ⟨slot, _, start, _⟩ | ⟨behind, _⟩
    · have start : s.addr = SystemHeap.slotBase slot := start
      rw [start, SystemHeap.slotBase]
      exact Nat.mul_pos (Nat.succ_pos slot) (by decide)
    · exact Nat.lt_of_lt_of_le (by decide) behind
  exact Nat.ne_of_gt (Nat.lt_of_lt_of_le positive lower)

/-- A block that is released for another reason than a mark does not raise an alarm. -/
theorem Sound.release_quiet (sound : m.Sound lost loans) (caller : Caller)
    (expected : Option PoolId) (addr : Address)
    (stopped : (m.release caller expected addr).answer = .error fault) : fault.isAlarm = false := by
  cases owned : m.owner? addr with
  | some owner =>
    by_cases fits : expected.all (· == owner) = true
    · rw [sound.release_recorded caller owned fits,
        ((sound.untag owned).releaseIn caller).1] at stopped
      cases stopped
    · cases expected with
      | none => exact absurd rfl fits
      | some other =>
        rw [sound.release_misnamed caller owned (by simpa using fits)] at stopped
        cases stopped
        rfl
  | none =>
    obtain same | ⟨holder, _, same⟩ := sound.release_of_unowned caller expected owned
    · rw [same] at stopped
      cases stopped
    · rw [same] at stopped
      cases stopped
      rfl

/-- Blocks that are not marked are resized and moved without a fault. -/
theorem Sound.relocate_served (sound : m.Sound lost loans) (caller : Caller) (target : Target)
    (addr : Address) (known : Option Nat) (request : Request) :
    (m.relocate caller target addr known request).answer ≠ .error fault := by
  intro stopped
  have relocation : Relocation m addr target known request
      (m.relocate caller target addr known request) :=
    sound.relocate_relocation caller target (.inr ⟨fault, stopped⟩)
  generalize m.relocate caller target addr known request = o at stopped relocation
  cases relocation <;> cases stopped

theorem run_asked (asks : c.alarm? = some (addr, fault)) : Asked m addr fault (c.run m) := by
  cases c with
  | free caller expected addr' =>
    cases asks
    simp only [Call.run, Machine.free]
    split
    · exact .stopped m.threads ‹_›
    · exact .released caller expected (Bool.eq_false_iff.2 ‹_›)
  | freeLayout caller addr' =>
    cases asks
    simp only [Call.run, Machine.freeLayout]
    split
    · exact .stopped m.threads ‹_›
    · exact .released caller none (Bool.eq_false_iff.2 ‹_›)
  | reallocate caller named addr' size =>
    cases asks
    obtain ⟨threads, same⟩ := target_machine m caller named
    simp only [Call.run, Machine.reallocate, same]
    split
    · exact .stopped threads ‹_›
    · exact .relocated threads caller _ none _ (Bool.eq_false_iff.2 ‹_›)
  | reallocateLayout caller addr' old align size =>
    cases asks
    obtain ⟨threads, same⟩ := target_machine m caller none
    simp only [Call.run, Machine.reallocateLayout, same]
    split
    · exact .stopped m.threads ‹_›
    · exact .relocated threads caller _ (some old) _ (Bool.eq_false_iff.2 ‹_›)
  | _ => cases asks

/-- The calls that ask for marks raise an alarm if and only if they find one. -/
theorem Sound.alarm_iff (sound : m.Sound lost loans) (asks : c.alarm? = some (addr, fault)) :
    (c.run m).answer = .error fault ↔ m.marks.contains addr = true := by
  have alarms : fault.isAlarm = true := by
    cases c <;> cases asks <;> rfl
  have asked := run_asked (m := m) asks
  generalize c.run m = o at asked
  cases asked with
  | stopped _ marked => exact iff_of_true rfl marked
  | released caller expected unmarked =>
    refine iff_of_false (fun stopped => ?_) (by simp [unmarked])
    cases (sound.release_quiet caller expected addr stopped).symm.trans alarms
  | relocated threads caller target known request unmarked =>
    refine iff_of_false (fun stopped => ?_) (by simp [unmarked])
    obtain ⟨_, stopped'⟩ := Outcome.stops_map ⟨fault, stopped⟩
    exact (sound.withThreads threads).relocate_served caller target addr known request stopped'

/-- Releasing a block leaves those in use that start elsewhere. -/
theorem Sound.release_spares (sound : m.Sound lost loans) (caller : Caller)
    {expected : Option PoolId} (handed : m.Handed loans addr ∨
      ∃ fault, (m.release caller expected addr).answer = .error fault)
    (used : m.InUse b) (other : b.addr ≠ addr) :
    (m.release caller expected addr).machine.InUse b := by
  have course := sound.release_course caller handed
  generalize (m.release caller expected addr).machine = after at course
  induction course with
  | refl => exact used
  | tail _ step ih =>
    obtain ⟨gone, new, written, change, starts, _⟩ := step
    exact change.still_inUse ih fun member => other (starts b member)

theorem Sound.handed_of_attemptable (sound : m.Sound lost loans) (may : c.Attemptable m)
    (routed : c.routed? = some addr) :
    m.Handed loans addr ∨ ∃ fault, (c.run m).answer = .error fault :=
  may.imp_left fun ⟨_, recorded⟩ => (sound.handed_of_routed (recorded addr routed)).1

/-- The calls that ask for marks spare the blocks in use that are marked. -/
theorem Sound.alarm_spares (sound : m.Sound lost loans) (may : c.Attemptable m)
    (asks : c.alarm? = some (addr, fault)) (used : m.InUse b)
    (marked : m.marks.contains b.addr = true) : (c.run m).machine.InUse b := by
  have routed : c.routed? = some addr := by
    cases c <;> cases asks <;> rfl
  have handed := sound.handed_of_attemptable may routed
  have elsewhere : m.marks.contains addr = false → b.addr ≠ addr := by
    rintro unmarked rfl
    cases unmarked.symm.trans marked
  have asked := run_asked (m := m) asks
  generalize c.run m = o at asked handed
  cases asked with
  | stopped => exact used
  | released caller expected unmarked =>
    exact sound.release_spares caller handed used (elsewhere unmarked)
  | relocated threads caller target known request unmarked =>
    have relocation : Relocation { m with threads } addr target known request
        (({ m with threads } : Machine).relocate caller target addr known request) :=
      (sound.withThreads threads).relocate_relocation caller target
        (handed.imp_right Outcome.stops_map)
    exact (relocation.intact (c := c) used (elsewhere unmarked)).inUse

/-- A call leaves a marked block where it is, or it takes the block away without asking for marks. -/
theorem Sound.leaves_or_bereaves (sound : m.Sound lost loans) (may : c.Attemptable m)
    (starts : m.Starts addr) (marked : m.marks.contains addr = true) :
    c.Leaves m addr ∨
      c.disposes = true ∧ c.alarm? = none ∧ ¬ (c.run m).machine.Starts addr := by
  obtain ⟨b, used, rfl⟩ := starts
  have stays : (c.run m).machine.InUse b → c.Leaves m b.addr :=
    fun still => ⟨b, b, used, rfl, still, rfl, .inl rfl⟩
  by_cases gives : c.disposes = false
  · exact .inl (stays ((sound.run_rises gives (may.imp_left And.left)).risen_inUse used))
  cases asks : c.alarm? with
  | some asked => exact .inl (stays (sound.alarm_spares may asks used marked))
  | none =>
    by_cases starts : (c.run m).machine.Starts b.addr
    · refine .inl ?_
      obtain ⟨b', used', start⟩ := starts
      have fell : Course c.Falling m (c.run m).machine → c.Leaves m b.addr := fun course =>
        ⟨b, b', used, rfl, used', start,
          .inl (sound.inUse_unique (course.fallen_inUse used') used start)⟩
      cases c with
      | dropPool caller id => exact fell (sound.dropPool_falls caller id)
      | exitThread thread => exact fell (sound.exitThread_falls thread)
      | releaseBlock caller id addr => exact fell (sound.releaseBlock_falls caller rfl)
      | dropBox caller box =>
        exact fell (sound.dropBox_falls caller box (sound.handed_of_attemptable may rfl))
      | unbox caller box =>
        exact fell (sound.unbox_falls caller box (sound.handed_of_attemptable may rfl))
      | resizeBlock id addr size =>
        by_cases here : addr = b.addr
        · subst here
          exact ⟨b, b', used, rfl, used', start, .inr ⟨id, size, rfl⟩⟩
        · refine stays ?_
          simp only [Call.run, Machine.resizeBlock]
          split
          · rename_i owned
            have relocation : Relocation m addr (.pool id) none (.plain size)
                (m.resizeIn id addr size) :=
              sound.resizeIn_relocation (.pool id) owned rfl (.plain size)
            exact (relocation.intact (c := .resizeBlock id addr size) used (Ne.symm here)).inUse
          · exact used
      | free | freeLayout | reallocate | reallocateLayout => cases asks
      | _ => exact absurd rfl gives
    · exact .inr ⟨by simpa using gives, rfl, starts⟩

/-- The block that a mark was set on is still there. -/
theorem Warranted.starts (trail : Trail steps m) (warranted : Warranted addr steps) :
    m.Starts addr := by
  cases warranted with
  | marked starts =>
    cases trail
    exact starts
  | since _ _ leaves =>
    cases trail
    obtain ⟨_, b', _, _, used, start, _⟩ := leaves
    exact ⟨b', used, start⟩

theorem Trail.marks_sound (trail : Trail steps m) (named : ∀ s ∈ steps, s.2 ≠ .unmark 0) :
    m.marks.Sound := by
  induction trail with
  | start slots => exact Marks.empty_sound
  | @step m before c trail may ih =>
    obtain ⟨real, others⟩ := List.forall_mem_cons.1 named
    have sound := ih others
    rw [c.run_marks]
    cases c with
    | mark addr => exact (sound.insert addr).1
    | unmark addr => exact (sound.erase fun null => real (congrArg Call.unmark null)).1
    | _ => exact sound

/-- Each mark is on the block that it was set on, or it has outlived this block. -/
theorem Trail.warranted_or_stale (trail : Trail steps m) (named : ∀ s ∈ steps, s.2 ≠ .unmark 0)
    (real : addr ≠ 0) (marked : m.marks.contains addr = true) :
    Warranted addr steps ∨ Stale addr steps := by
  induction trail with
  | start slots => cases marked
  | @step m before c trail may ih =>
    obtain ⟨nonNull, others⟩ := List.forall_mem_cons.1 named
    obtain ⟨lost, loans, sound⟩ := trail.attempted.sound
    have marks := trail.marks_sound others
    have older : m.marks.contains addr = true → c ≠ .unmark addr →
        Warranted addr ((m, c) :: before) ∨ Stale addr ((m, c) :: before) := by
      intro old kept
      rcases ih others old with warranted | stale
      · rcases sound.leaves_or_bereaves may (warranted.starts trail) old with leaves | bereaves
        · exact .inl (.since warranted kept leaves)
        · obtain ⟨disposes, unasked, gone⟩ := bereaves
          exact .inr (.bereft old (warranted.starts trail) disposes unasked gone)
      · exact .inr (.since stale kept)
    rw [c.run_marks] at marked
    cases c with
    | mark addr' =>
      rcases marks.contains_insert real marked with rfl | old
      · by_cases starts : m.Starts addr
        · exact .inl (.marked starts)
        · exact .inr (.nowhere starts)
      · exact older old nofun
    | unmark addr' =>
      obtain ⟨other, old⟩ :=
        marks.contains_erase real (fun null => nonNull (congrArg Call.unmark null)) marked
      exact older old fun same => other (Call.unmark.inj same).symm
    | _ => exact older marked nofun

/-- A call that asks for marks raises an alarm about a block in use if and only if the address of the
block is marked, and then the block itself has been marked, or the mark has outlived another block. -/
theorem Trail.alarms (trail : Trail steps m) (named : ∀ s ∈ steps, s.2 ≠ .unmark 0)
    (used : m.InUse b) :
    (∀ (c : Call) (fault : Fault), c.alarm? = some (b.addr, fault) →
      ((c.run m).answer = .error fault ↔ m.marks.contains b.addr = true)) ∧
      (m.marks.contains b.addr = true → Warranted b.addr steps ∨ Stale b.addr steps) := by
  obtain ⟨lost, loans, sound⟩ := trail.attempted.sound
  exact ⟨fun c fault asks => sound.alarm_iff asks,
    trail.warranted_or_stale named (sound.addr_ne_zero used)⟩

/-- A pool ends with a marked block, and the next pool issues a block at the same address. -/
def reissuing : List Call :=
  [.openPool { thread := 0 } {}, .allocate { thread := 0 } (some 1) (.plain 100),
    .mark (SystemHeap.slotBase 0), .dropPool { thread := 0 } 1,
    .openPool { thread := 0 } {}, .allocate { thread := 0 } (some 2) (.plain 100)]

def reissued : Machine := Call.runAll reissuing (.start [0])

theorem reissued_trail : Trail (Call.trace [] reissuing (.start [0])) reissued :=
  (Trail.start [0]).runAll (Reachable.start [0]) reissuing (by decide +kernel)

theorem reissued_alarms :
    let b : Block := ⟨some 2, SystemHeap.slotBase 0, 112, granule⟩
    (reissued.InUse b ∧ reissued.marks.contains b.addr = true) ∧
      (∀ (c : Call) (fault : Fault), c.alarm? = some (b.addr, fault) →
        ((c.run reissued).answer = .error fault ↔ reissued.marks.contains b.addr = true)) ∧
      (reissued.marks.contains b.addr = true →
        Warranted b.addr (Call.trace [] reissuing (.start [0])) ∨
          Stale b.addr (Call.trace [] reissuing (.start [0]))) := by
  intro b
  have used : reissued.InUse b := by decide +kernel
  exact ⟨⟨used, by decide +kernel⟩,
    Trail.alarms reissued_trail (by simp [Call.trace, reissuing]) used⟩

/-- It is not the case that alarms are only raised about blocks that have been marked themselves. -/
theorem not_alarm_warranted : ¬ ∀ (steps : List (Machine × Call)) (m : Machine) (b : Block)
    (c : Call), Trail steps m → m.InUse b → c.alarm? = some (b.addr, .marked b.addr) →
      (c.run m).answer = .error (.marked b.addr) → Warranted b.addr steps := by
  intro warrants
  have warranted := warrants _ reissued ⟨some 2, SystemHeap.slotBase 0, 112, granule⟩
    (.free { thread := 0 } none (SystemHeap.slotBase 0)) reissued_trail (by decide +kernel) rfl
    (by decide +kernel)
  -- before the last request nothing is in use
  have idle : ¬ (Call.runAll (reissuing.take 5) (.start [0])).Starts (SystemHeap.slotBase 0) := by
    have unissued : ∀ p ∈ (Call.runAll (reissuing.take 5) (.start [0])).pools, p.issued = [] := by
      decide +kernel
    have returned : (Call.runAll (reissuing.take 5) (.start [0])).system.blocks = [] := by
      decide +kernel
    rintro ⟨b, ⟨p, inPools, own⟩ | ⟨s, stored, _⟩, _⟩
    · rw [unissued p inPools] at own
      cases own
    · rw [returned] at stored
      cases stored
  cases warranted with
  | since warranted =>
    exact idle (warranted.starts ((Trail.start [0]).runAll (Reachable.start [0]) (reissuing.take 5)
      (by decide +kernel)))

end Machine

end PooledMemory
