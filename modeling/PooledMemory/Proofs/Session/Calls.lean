import PooledMemory.Proofs.Machine.Registers

namespace PooledMemory

namespace Machine

/-- One state is reached from another by calls on other threads than these. -/
def Leads (aside : ThreadId → Prop) (m after : Machine) : Prop :=
  ∃ calls : List Call, (∀ c ∈ calls, ∀ t ∈ c.thread?, ¬ aside t) ∧ after = Call.runAll calls m

variable {m middle after : Machine} {aside : ThreadId → Prop}

theorem Leads.refl (aside : ThreadId → Prop) (m : Machine) : m.Leads aside m := ⟨[], nofun, rfl⟩

theorem Leads.trans (first : m.Leads aside middle) (second : middle.Leads aside after) :
    m.Leads aside after := by
  obtain ⟨calls, others, rfl⟩ := first
  obtain ⟨more, others', rfl⟩ := second
  exact ⟨calls ++ more, List.forall_mem_append.2 ⟨others, others'⟩, (List.foldl_append ..).symm⟩

theorem Leads.call (leads : m.Leads aside middle) (c : Call) (own : ∀ t ∈ c.thread?, ¬ aside t) :
    m.Leads aside (c.run middle).machine :=
  leads.trans ⟨[c], List.forall_mem_singleton.2 own, rfl⟩

end Machine

namespace Session

variable {α : Type} {m : Machine} {s : Session} {caller : Caller} {aside : ThreadId → Prop}

/-- A session that calls on other threads than these have led to. These run on. -/
def Led (aside : ThreadId → Prop) (m : Machine) (s : Session) : Prop :=
  m.Leads aside s.machine ∧ ∀ t, aside t → t ∈ s.running

theorem Led.call (led : s.Led aside m) (c : Call) (own : ∀ t ∈ c.thread?, ¬ aside t) :
    { s with machine := (c.run s.machine).machine }.Led aside m :=
  ⟨led.1.call c own, led.2⟩

theorem Led.call_aside (led : s.Led aside m) (c : Call) (nowhere : c.thread? = none) :
    { s with machine := (c.run s.machine).machine }.Led aside m :=
  led.call c fun _ there => nomatch nowhere.symm.trans there

/-- Whatever a turn ends with, the machine was changed by calls only. -/
def RunsCalls (aside : ThreadId → Prop) (m : Machine) (turn : Turn) : Prop :=
  ∀ reply after, turn = .ok (reply, after) → after.Led aside m

theorem runsCalls_reply (led : s.Led aside m) (r : Reply) : RunsCalls aside m (s.reply r) := by
  intro reply after done
  cases done
  exact led

theorem runsCalls_finish {o : Outcome α} {next : α → Session → Turn}
    (led : { s with machine := o.machine }.Led aside m)
    (goes : ∀ answer after, after.Led aside m → RunsCalls aside m (next answer after)) :
    RunsCalls aside m (s.finish o next) := by
  obtain ⟨answer, machine⟩ := o
  cases answer with
  | ok answer => exact goes answer { s with machine } led
  | error fault =>
    unfold finish
    by_cases fatal : fault.isFatal = true
    · simp only [if_pos fatal]
      intro reply after done
      cases done
    · simp only [if_neg fatal]
      exact runsCalls_reply (s := { s with machine }) led _

theorem runsCalls_withPool {handle : Nat} {next : PoolId → Turn} (led : s.Led aside m)
    (goes : ∀ id, RunsCalls aside m (next id)) : RunsCalls aside m (s.withPool handle next) := by
  unfold withPool
  split
  · exact goes _
  · exact runsCalls_reply led _

theorem runsCalls_withNamed {handle : Option Nat} {next : Option PoolId → Turn}
    (led : s.Led aside m) (goes : ∀ named, RunsCalls aside m (next named)) :
    RunsCalls aside m (s.withNamed handle next) := by
  cases handle with
  | some handle => exact runsCalls_withPool led fun id => goes (some id)
  | none => exact goes none

theorem runsCalls_withBlock {ref : BlockRef} {owned : Bool} {next : Held → Address → Turn}
    (led : s.Led aside m) (goes : ∀ held addr, RunsCalls aside m (next held addr)) :
    RunsCalls aside m (s.withBlock ref owned next) := by
  unfold withBlock
  split
  · exact runsCalls_reply led _
  · split
    · exact runsCalls_reply led _
    · split
      · exact runsCalls_reply led _
      · split
        · exact runsCalls_reply led _
        · exact goes _ _

theorem runsCalls_withBox {slot : Nat} {next : Boxed → Turn} (led : s.Led aside m)
    (goes : ∀ boxed, RunsCalls aside m (next boxed)) : RunsCalls aside m (s.withBox slot next) := by
  unfold withBox
  split
  · exact runsCalls_reply led _
  · split
    · exact goes _
    · exact runsCalls_reply led _

theorem runsCalls_withRange {ref : BlockRef} {held : Held} {addr start : Nat} {len : Option Nat}
    {next : Nat → Turn} (led : s.Led aside m) (goes : ∀ len, RunsCalls aside m (next len)) :
    RunsCalls aside m (s.withRange ref held addr start len next) := by
  unfold withRange
  simp only
  split
  · exact runsCalls_reply led _
  · exact goes _

theorem runsCalls_showPool {id : PoolId} {view : Pool → Reply} (led : s.Led aside m) :
    RunsCalls aside m (s.showPool id view) := by
  unfold showPool
  split
  · exact runsCalls_reply led _
  · exact runsCalls_reply led _

theorem runsCalls_store {slot addr requested align : Nat} (led : s.Led aside m) :
    RunsCalls aside m (s.store slot addr requested align) := by
  unfold store
  refine runsCalls_reply ?_ _
  exact led

theorem runsCalls_storeIfServed {slot requested align : Nat} (served : Except Failure Address)
    (led : s.Led aside m) : RunsCalls aside m (storeIfServed slot requested align served s) := by
  cases served with
  | ok addr => exact runsCalls_store led
  | error failure => exact runsCalls_reply led _

theorem runsCalls_storeIfResized {slot requested align : Nat} (resized : Option Address)
    (led : s.Led aside m) : RunsCalls aside m (storeIfResized slot requested align resized s) := by
  cases resized with
  | some addr => exact runsCalls_store led
  | none => exact runsCalls_reply led _

theorem runsCalls_released {before : Session} {ref : BlockRef} {addr : Address}
    (led : s.Led aside m) : RunsCalls aside m (released before ref addr s) := by
  unfold released
  refine runsCalls_reply ?_ _
  split
  · exact led
  · exact led

theorem runsCalls_storeBox {slot : Nat} {boxed : Boxed} (led : s.Led aside m) :
    RunsCalls aside m (s.storeBox slot boxed) := by
  unfold storeBox
  refine runsCalls_reply ?_ _
  exact led

theorem literal_led (led : s.Led aside m) (type : ValueType) (value : Literal) :
    (s.literal type value).2.Led aside m := by
  unfold literal
  split
  · exact led
  · exact led
  · exact led

/-- No running thread has the number of a fresh one. -/
theorem ne_freshThread {t : ThreadId} (runs : t ∈ s.running) : t ≠ s.freshThread := by
  have bounded : ∀ (threads : List Nat) (most : Nat),
      most ≤ threads.foldl max most ∧ ∀ t ∈ threads, t ≤ threads.foldl max most := by
    intro threads
    induction threads with
    | nil => exact fun most => ⟨Nat.le_refl _, nofun⟩
    | cons thread rest ih =>
      intro most
      obtain ⟨above, below⟩ := ih (max most thread)
      rw [List.foldl_cons, List.forall_mem_cons]
      exact ⟨by omega, by omega, below⟩
  exact Nat.ne_of_lt (Nat.lt_succ_of_le ((bounded s.running 0).2 t runs))

theorem runPool_runsCalls (led : s.Led aside m) (own : ∀ t ∈ some caller.thread, ¬ aside t)
    (c : Command) :
    RunsCalls aside m (s.runPool caller c) := by
  cases c with
  | openPool handle settings =>
    simp only [runPool]
    split
    · exact runsCalls_reply led _
    · refine runsCalls_showPool ?_
      exact led.call (.openPool caller settings) own
  | showPool handle => exact runsCalls_withPool led fun id => runsCalls_showPool led
  | dropPool handle unwinding =>
    refine runsCalls_withPool led fun id => ?_
    refine runsCalls_finish (led.call (.dropPool { caller with unwinding } id) own) ?_
    exact fun _ after led => runsCalls_reply led _
  | showUsage handle => exact runsCalls_withPool led fun id => runsCalls_showPool led
  | trimPool handle =>
    refine runsCalls_withPool led fun id => ?_
    exact runsCalls_finish (led.call_aside (.trimPool id) rfl) fun _ after led => runsCalls_reply led _
  | reportLeaks => exact runsCalls_reply (led.call_aside .reportLeaks rfl) _
  | configure limit tellsSizes =>
    refine runsCalls_reply ?_ _
    exact led.call_aside (.adjust _) rfl
  | _ => exact runsCalls_reply led _

theorem runBlock_runsCalls (led : s.Led aside m) (own : ∀ t ∈ some caller.thread, ¬ aside t)
    (c : Command) :
    RunsCalls aside m (s.runBlock caller c) := by
  cases c with
  | allocate slot handle demand =>
    rw [runBlock]
    refine runsCalls_withNamed led fun named => ?_
    cases demand.request? caller.site with
    | none => exact runsCalls_reply led _
    | some request =>
      exact runsCalls_finish (led.call (.allocate caller named request) own)
        fun served after led => runsCalls_storeIfServed served led
  | allocateLayout slot size align zeroed =>
    simp only [runBlock]
    split
    · exact runsCalls_finish (led.call (.allocateLayout caller size align zeroed) own)
        fun served after led => runsCalls_storeIfServed served led
    · exact runsCalls_reply led _
  | foreign slot size =>
    simp only [runBlock]
    cases served : s.machine.system.allocate? size granule false with
    | none => exact runsCalls_reply led _
    | some found =>
      obtain ⟨addr, system⟩ := found
      have taken : (Call.run (.foreign ⟨size, granule, false, none⟩) s.machine).machine =
          { s.machine with system } := by
        simp only [Call.run, Machine.serve, served]
        rfl
      refine runsCalls_store ?_
      exact taken ▸ led.call_aside (.foreign ⟨size, granule, false, none⟩) rfl
  | resizeBlock handle ref size =>
    refine runsCalls_withPool led fun id => runsCalls_withBlock led fun held addr => ?_
    exact runsCalls_finish (led.call_aside (.resizeBlock id addr size) rfl)
      fun resized after led => runsCalls_storeIfResized resized led
  | releaseBlock handle ref =>
    refine runsCalls_withPool led fun id => runsCalls_withBlock led fun held addr => ?_
    refine runsCalls_finish (led.call (.releaseBlock caller id addr) own) fun _ after led => ?_
    refine runsCalls_reply ?_ _
    split
    · exact led
    · exact led
  | reallocate handle ref size =>
    rw [runBlock]
    refine runsCalls_withNamed led fun named => runsCalls_withBlock led fun held addr => ?_
    exact runsCalls_finish (led.call (.reallocate caller named addr size) own)
      fun resized after led => runsCalls_storeIfResized resized led
  | reallocateLayout ref size =>
    cases ref with
    | none => exact runsCalls_reply led _
    | some ref =>
      rw [runBlock]
      refine runsCalls_withBlock led fun held addr => ?_
      exact runsCalls_finish
        (led.call (.reallocateLayout caller addr held.requested held.align size) own)
        fun resized after led => runsCalls_storeIfResized resized led
  | free handle ref =>
    rw [runBlock]
    refine runsCalls_withNamed led fun named => runsCalls_withBlock led fun held addr => ?_
    exact runsCalls_finish (led.call (.free caller named addr) own)
      fun _ after led => runsCalls_released led
  | freeElsewhere ref =>
    rw [runBlock]
    refine runsCalls_withBlock led fun held addr => ?_
    have fresh : ∀ t ∈ some s.freshThread, ¬ aside t := by
      rintro _ ⟨⟩ runs
      exact ne_freshThread (led.2 _ runs) rfl
    have freed := led.call (.free { thread := s.freshThread } none addr) fresh
    exact runsCalls_finish (freed.call (.exitThread s.freshThread) fresh)
      fun _ after led => runsCalls_released led
  | freeLayout ref =>
    cases ref with
    | none => exact runsCalls_reply led _
    | some ref =>
      rw [runBlock]
      refine runsCalls_withBlock led fun held addr => ?_
      exact runsCalls_finish (led.call (.freeLayout caller addr) own)
        fun _ after led => runsCalls_released led
  | _ => exact runsCalls_reply led _

theorem runContent_runsCalls (led : s.Led aside m) (c : Command) :
    RunsCalls aside m (s.runContent c) := by
  cases c with
  | owns handle ref =>
    refine runsCalls_withPool led fun id => runsCalls_withBlock led fun held addr => ?_
    exact runsCalls_reply led _
  | sizeOf ref =>
    rw [runContent]
    exact runsCalls_withBlock led fun held addr => runsCalls_reply led _
  | ownerOf ref =>
    rw [runContent]
    exact runsCalls_withBlock led fun held addr => runsCalls_reply led _
  | fill ref seed len =>
    rw [runContent]
    refine runsCalls_withBlock led fun held addr => runsCalls_withRange led fun len => ?_
    refine runsCalls_reply ?_ _
    exact led.call_aside (.write addr len (Bytes.pattern seed)) rfl
  | check ref seed len =>
    rw [runContent]
    refine runsCalls_withBlock led fun held addr => runsCalls_withRange led fun len => ?_
    exact runsCalls_reply led _
  | read ref start len =>
    rw [runContent]
    refine runsCalls_withBlock led fun held addr => runsCalls_withRange led fun len => ?_
    exact runsCalls_reply led _
  | mark ref =>
    rw [runContent]
    refine runsCalls_withBlock led fun held addr => runsCalls_reply ?_ _
    exact led.call_aside (.mark addr) rfl
  | unmark ref =>
    rw [runContent]
    refine runsCalls_withBlock led fun held addr => runsCalls_reply ?_ _
    exact led.call_aside (.unmark addr) rfl
  | _ => exact runsCalls_reply led _

theorem runThread_runsCalls (led : s.Led aside m) (own : ∀ t ∈ some caller.thread, ¬ aside t)
    (c : Command) :
    RunsCalls aside m (s.runThread caller c) := by
  cases c with
  | select handle =>
    rw [runThread]
    refine runsCalls_withNamed led fun named => runsCalls_reply ?_ _
    exact led.call (.select caller named) own
  | hold hold handle =>
    rw [runThread]
    refine runsCalls_withNamed led fun named => ?_
    split
    · exact runsCalls_reply led _
    · refine runsCalls_reply ?_ _
      exact led.call (.select caller named) own
  | unhold hold =>
    rw [runThread]
    split
    · exact runsCalls_reply led _
    · refine runsCalls_reply ?_ _
      exact led.call (.restore caller.thread _) own
  | exitThread =>
    rw [runThread]
    split
    · refine runsCalls_reply ?_ _
      refine ⟨led.1.call (.exitThread caller.thread) own, fun t runs => ?_⟩
      have other : t ≠ caller.thread := fun same => own t (congrArg some same.symm) runs
      exact List.mem_filter.2 ⟨led.2 t runs, bne_iff_ne.2 other⟩
    · exact runsCalls_reply led _
  | _ => exact runsCalls_reply led _

theorem runBox_runsCalls (led : s.Led aside m) (own : ∀ t ∈ some caller.thread, ¬ aside t)
    (c : Command) :
    RunsCalls aside m (s.runBox caller c) := by
  cases c with
  | box slot handle type value orAbort =>
    rw [runBox]
    refine runsCalls_withNamed led fun named => ?_
    split
    · exact runsCalls_reply led _
    · cases type with
      | none => exact runsCalls_reply led _
      | some type =>
        have stored := literal_led led type value
        simp only
        split
        · exact runsCalls_finish (stored.call (.boxOrAbort caller named _) own)
            fun boxed after led => runsCalls_storeBox led
        · refine runsCalls_finish (stored.call (.box caller named _) own) fun answer after led => ?_
          cases answer with
          | ok boxed => exact runsCalls_storeBox led
          | error failure => exact runsCalls_reply led _
  | readBox slot =>
    rw [runBox]
    exact runsCalls_withBox led fun boxed => runsCalls_reply led _
  | writeBox slot value =>
    rw [runBox]
    refine runsCalls_withBox led fun boxed => ?_
    refine runsCalls_reply ?_ _
    exact (literal_led led boxed.type value).call_aside (.assignBox boxed _) rfl
  | showBox slot =>
    rw [runBox]
    exact runsCalls_withBox led fun boxed => runsCalls_reply led _
  | boxOwner slot =>
    rw [runBox]
    split
    · exact runsCalls_reply led _
    · exact runsCalls_reply led _
  | dropBox slot =>
    rw [runBox]
    refine runsCalls_withBox led fun boxed => ?_
    exact runsCalls_finish (led.call (.dropBox caller boxed) own)
      fun _ after led => runsCalls_reply led _
  | unbox slot =>
    rw [runBox]
    refine runsCalls_withBox led fun boxed => ?_
    refine runsCalls_finish (led.call (.unbox caller boxed) own) fun value after led => ?_
    refine runsCalls_reply ?_ _
    exact led.call_aside (.dropValue value) rfl
  | _ => exact runsCalls_reply led _

theorem runPlain_runsCalls (led : s.Led aside m) (own : ∀ t ∈ some caller.thread, ¬ aside t)
    (c : Command) :
    RunsCalls aside m (s.runPlain caller c) := by
  cases c with
  | scope | unknown => exact runsCalls_reply led _
  | _ =>
    simp only [runPlain]
    first
    | exact runPool_runsCalls led own _
    | exact runBlock_runsCalls led own _
    | exact runContent_runsCalls led _
    | exact runThread_runsCalls led own _
    | exact runBox_runsCalls led own _

theorem probe_led {thread : ThreadId} (led : s.Led aside m) (own : ∀ t ∈ some thread, ¬ aside t) :
    (s.probe thread).2.Led aside m := by
  have tried := led.call (.allocate { thread, nested := true } none (.plain 24)) own
  unfold probe
  simp only
  split
  · exact tried.call (.free { thread, nested := true } none _) own
  · exact tried

theorem logEvents_led {thread : ThreadId} (led : s.Led aside m)
    (own : ∀ t ∈ some thread, ¬ aside t) (events : List Event) :
    (s.logEvents thread events).2.Led aside m := by
  induction events generalizing s with
  | nil => exact led
  | cons event rest ih =>
    simp only [logEvents]
    by_cases probes : s.probes = true
    · simp only [if_pos probes]
      exact ih (probe_led led own)
    · simp only [if_neg probes]
      exact ih led

theorem changes_led {thread : ThreadId} (led : s.Led aside m) (own : ∀ t ∈ some thread, ¬ aside t)
    (c : Command) : (s.changes thread c).2.Led aside m :=
  logEvents_led led own _

mutual

theorem run_runsCalls {s : Session} {thread : ThreadId} (led : s.Led aside m)
    (own : ∀ t ∈ some thread, ¬ aside t) (c : Command) : RunsCalls aside m (s.run thread c) := by
  cases c with
  | scope handle body unwinds =>
    rw [run]
    refine runsCalls_withNamed led fun named => ?_
    have selected := led.call (.select { thread } named) own
    intro reply after done
    simp only at done
    split at done
    · cases done
    next steps inner ran =>
      cases done
      exact (runAll_led selected own body ran).call (.restore thread _) own
  | _ =>
    rw [run]
    · exact runPlain_runsCalls led own _
    · intro _ _ _ same
      cases same

/-- Induction over the commands: each is carried out, and then its changes are reported. -/
theorem runAll_led {s : Session} {thread : ThreadId} (led : s.Led aside m)
    (own : ∀ t ∈ some thread, ¬ aside t) (commands : List Command)
    {steps : List (Reply × Changes)} {after : Session}
    (ran : s.runAll thread commands = .ok (steps, after)) : after.Led aside m := by
  match commands with
  | [] =>
    rw [runAll] at ran
    cases ran
    exact led
  | c :: rest =>
    rw [runAll] at ran
    split at ran
    · cases ran
    next reply middle first =>
      simp only at ran
      split at ran
      · cases ran
      next more last ranRest =>
        cases ran
        have one := run_runsCalls led own c reply middle first
        exact runAll_led (changes_led one own c) own rest ranRest

end

/-- A command changes the machine by calls only, and by none on other threads that run. -/
theorem step_led {thread : ThreadId} {c : Command} {reply : Reply} {changes : Changes}
    {after : Session} (led : s.Led aside m) (own : ∀ t ∈ some thread, ¬ aside t)
    (ran : s.step thread c = .ok (reply, changes, after)) : after.Led aside m := by
  obtain ⟨started, middle, started_led, first, rfl⟩ : ∃ started middle : Session,
      started.Led aside m ∧ started.run thread c = .ok (reply, middle) ∧
      (middle.changes thread c).2 = after := by
    unfold step at ran
    simp only at ran
    split at ran
    · cases ran
    next _ _ first =>
      cases ran
      -- Only the list of running threads may differ from `s` when the command runs.
      refine ⟨_, _, ?_, first, rfl⟩
      split
      · exact led
      · split
        · exact led
        · exact ⟨led.1, fun t runs => List.mem_cons_of_mem _ (led.2 t runs)⟩
  exact changes_led (run_runsCalls started_led own c reply middle first) own c

theorem play_led {script : List (ThreadId × Command)} {steps : List (Reply × Changes)}
    {pools : List PoolReport} {blocks : List (Place × BlockReport)}
    (led : s.Led (fun _ => False) m) (played : s.play script = (steps, .completed pools blocks)) :
    ∃ after : Session, after.Led (fun _ => False) m ∧ pools = after.machine.poolReports := by
  induction script generalizing s steps with
  | nil =>
    rw [play] at played
    cases played
    exact ⟨s, led, rfl⟩
  | cons entry rest ih =>
    obtain ⟨thread, c⟩ := entry
    rw [play] at played
    split at played
    · cases played
    next reply changes middle stepped =>
      generalize later : middle.play rest = ended at played
      obtain ⟨more, ending⟩ := ended
      cases played
      exact ih (step_led led (fun _ _ => id) stepped) later

/-- A script that completes reports the pools of a machine that calls lead to. -/
theorem play_calls {script : List (ThreadId × Command)} {steps : List (Reply × Changes)}
    {pools : List PoolReport} {blocks : List (Place × BlockReport)}
    (played : s.play script = (steps, .completed pools blocks)) :
    ∃ calls, pools = (Call.runAll calls s.machine).poolReports := by
  obtain ⟨after, ⟨⟨calls, _, machine⟩, _⟩, shown⟩ := play_led ⟨.refl _ _, nofun⟩ played
  exact ⟨calls, machine ▸ shown⟩

end Session

end PooledMemory
