import PooledMemory.Proofs.Session.Calls

namespace PooledMemory

/-- The thread that a call ends. -/
def Call.exits? : Call → Option ThreadId
  | exitThread thread => some thread
  | _ => none

namespace Machine

/-- Whether nothing has been done on a thread, or nothing since it last ended. -/
def isUnused (t : ThreadId) : List (Machine × Call) → Bool
  | [] => true
  | (_, c) :: before => c.exits? == some t || c.thread? != some t && isUnused t before

/-- Carries out calls, on whatever threads, while a pool is held on one of them. When the hold ends,
what was current there as it began is current again. -/
def holding (m : Machine) (caller : Caller) (named : Option PoolId) (body : List Call) : Machine :=
  let (previous, inside) := m.select caller named
  (Call.restore caller.thread previous).run (Call.runAll body inside) |>.machine

/-- Whatever is done during a hold, the same is current on its thread afterwards as before. A thread
on which nothing is done meanwhile keeps its register. -/
structure Restores (m : Machine) (caller : Caller) (named : Option PoolId) (body : List Call) :
    Prop where
  current : ((m.holding caller named body).threads caller.thread).current =
    (m.threads caller.thread).current
  others : ∀ t, t ≠ caller.thread → (∀ c ∈ body, c.thread? ≠ some t) →
    (m.holding caller named body).threads t = m.threads t

variable {m : Machine} {steps : List (Machine × Call)} {t : ThreadId}

theorem Trail.unused (trail : Trail steps m) (unused : isUnused t steps = true) :
    m.threads t = .empty := by
  induction trail with
  | start slots => rfl
  | @step m before c _ _ ih =>
    rw [isUnused, Bool.or_eq_true, Bool.and_eq_true, beq_iff_eq, bne_iff_ne] at unused
    rcases unused with ended | ⟨other, unused⟩
    · cases c with
      | exitThread thread =>
        cases ended
        exact if_pos rfl
      | _ => cases ended
    · exact ((m.keeps c).others t other).trans (ih unused)

/-- A thread on which nothing is done keeps its register. -/
theorem runAll_others (calls : List Call) (m : Machine) (aside : ∀ c ∈ calls, c.thread? ≠ some t) :
    (Call.runAll calls m).threads t = m.threads t := by
  induction calls generalizing m with
  | nil => rfl
  | cons c rest ih =>
    rw [List.forall_mem_cons] at aside
    exact (ih (c.run m).machine aside.2).trans ((m.keeps c).others t aside.1)

theorem select_previous (m : Machine) (caller : Caller) (id : Option PoolId) :
    (m.select caller id).1 = (m.threads caller.thread).current := by
  cases id with
  | none => rfl
  | some id => rfl

theorem restores (m : Machine) (caller : Caller) (named : Option PoolId) (body : List Call) :
    m.Restores caller named body where
  current := by
    have restored := ((Call.runAll body (m.select caller named).2).keeps
      (.restore caller.thread (m.select caller named).1)).current caller.thread rfl
    exact restored.trans (select_previous m caller named)
  others := by
    intro t other aside
    have elsewhere : ∀ {c : Call}, c.thread? = some caller.thread → c.thread? ≠ some t :=
      fun here there => other (Option.some.inj (there.symm.trans here))
    refine ((keeps _ _).others t (elsewhere rfl)).trans ?_
    refine (runAll_others body _ aside).trans ?_
    exact (m.keeps (.select caller named)).others t (elsewhere rfl)

end Machine

namespace Session

variable {s after : Session} {reply : Reply}

/-- What a command leaves of the registers: those of other running threads as they were, and after a
scope on its own thread what was current before it. -/
structure KeepsRegisters (s : Session) (thread : ThreadId) (c : Command) (after : Session) :
    Prop where
  others : ∀ t ∈ s.running, t ≠ thread → after.machine.threads t = s.machine.threads t
  scope : ∀ handle body unwinds, c = .scope handle body unwinds →
    (after.machine.threads thread).current = (s.machine.threads thread).current

theorem run_others {thread t : ThreadId} {c : Command}
    (done : s.run thread c = .ok (reply, after)) (runs : t ∈ s.running) (other : t ≠ thread) :
    after.machine.threads t = s.machine.threads t := by
  have led : s.Led (· = t) s.machine := ⟨.refl _ _, fun _ same => same ▸ runs⟩
  have own : ∀ x ∈ some thread, x ≠ t := by
    rintro _ ⟨⟩
    exact other.symm
  obtain ⟨⟨calls, elsewhere, machine⟩, _⟩ := run_runsCalls led own c reply after done
  rw [machine]
  exact Machine.runAll_others calls _ fun c made here => elsewhere c made t here rfl

/-- Unless the pool is unknown, a command that may name one goes on. -/
theorem withNamed_ok {handle : Option Nat} {next : Option PoolId → Turn}
    (done : s.withNamed handle next = .ok (reply, after)) :
    after = s ∨ ∃ named, next named = .ok (reply, after) := by
  cases handle with
  | none => exact .inr ⟨none, done⟩
  | some handle =>
    rw [withNamed, withPool] at done
    split at done
    · exact .inr ⟨_, done⟩
    · cases done
      exact .inl rfl

/-- A scope makes current again what was so before it, whatever is done within and however it
ends. -/
theorem run_scope_current {thread : ThreadId} {handle : Option Nat} {body : List Command}
    {unwinds : Bool} (done : s.run thread (.scope handle body unwinds) = .ok (reply, after)) :
    (after.machine.threads thread).current = (s.machine.threads thread).current := by
  rw [run] at done
  rcases withNamed_ok done with rfl | ⟨named, done⟩
  · rfl
  · simp only at done
    split at done
    · cases done
    · cases done
      exact (congrArg Register.current (if_pos rfl)).trans (Machine.select_previous _ _ _)

theorem run_keepsRegisters {thread : ThreadId} {c : Command}
    (done : s.run thread c = .ok (reply, after)) : s.KeepsRegisters thread c after where
  others := fun _ runs other => run_others done runs other
  scope := by
    rintro handle body unwinds rfl
    exact run_scope_current done

end Session

namespace Machine

/-- Whatever a program does on a thread leaves the registers of the others alone, and it changes
what is current on that one only if it is to choose that, or if the pool that is current ends on it.
A thread starts with an empty register. After a hold, as after a scope with all that is nested in
it, the same is current as before. -/
theorem Trail.registers_kept (trail : Trail steps m) :
    (∀ c : Call, c.Keeps m) ∧ (∀ t, isUnused t steps = true → m.threads t = .empty) ∧
      (∀ caller named body, m.Restores caller named body) ∧
      ∀ (s : Session) thread c reply after, s.machine = m →
        s.run thread c = .ok (reply, after) → s.KeepsRegisters thread c after := by
  refine ⟨m.keeps, fun t => trail.unused, m.restores, ?_⟩
  exact fun s thread c reply after _ done => Session.run_keepsRegisters done

/-- Two threads make the same pool current, and one of them gets a block from it. -/
def sharing : List Call :=
  [.openPool { thread := 0 } { lazy := true }, .select { thread := 0 } (some 1),
    .select { thread := 1 } (some 1), .allocate { thread := 0 } none (.plain 40)]

def shared : Machine := Call.runAll sharing (.start [3])

/-- A scope in which a pool is opened and made current, and in which the one from before is
dropped. -/
def excursion : Session.Command :=
  .scope none [.openPool 1 { owned := true }, .scope (some 0) [.dropPool 0 false] false] true

/-- One of two threads drops the pool that both have current and that has to wait for its block:
only this thread has nothing current then. If the other one drops it in a scope instead, it is
current again on that one when the scope has ended. -/
theorem shared_registers_kept :
    let dropped := ((Call.dropPool { thread := 1 } 1).run shared).machine
    let session : Session := { machine := shared, handles := [(0, 1)], running := [0, 1] }
    ((shared.threads 0).current = some 1 ∧ (shared.threads 1).current = some 1) ∧
      (dropped.threads 0 = shared.threads 0 ∧ (dropped.threads 1).current = none) ∧
      shared.threads 2 = .empty ∧
      ∃ reply after, session.run 0 excursion = .ok (reply, after) ∧
        (after.machine.threads 0).current = some 1 ∧
        after.machine.threads 1 = shared.threads 1 := by
  intro dropped session
  have trail : Trail (Call.trace [] sharing (.start [3])) shared :=
    (Trail.start [3]).runAll (.start [3]) sharing (by decide +kernel)
  obtain ⟨keeps, unused, _, runs⟩ := Trail.registers_kept trail
  have first : (shared.threads 0).current = some 1 := by decide +kernel
  have second : (shared.threads 1).current = some 1 := by decide +kernel
  have drop := keeps (.dropPool { thread := 1 } 1)
  have forgotten : (dropped.threads 1).current = none := by
    have chosen : Call.choice? shared (.dropPool { thread := 1 } 1) = none := rfl
    have ended : shared.ends dropped 1 = true := by decide +kernel
    refine (drop.current 1 rfl).trans ?_
    rw [chosen, Option.getD_none, second, Option.filter_some, ended]
    rfl
  obtain ⟨⟨reply, after⟩, done⟩ : ∃ turn, session.run 0 excursion = .ok turn := by
    have ended : (session.run 0 excursion).toBool = true := by decide +kernel
    cases done : session.run 0 excursion with
    | ok turn => exact ⟨turn, rfl⟩
    | error fault =>
      rw [done] at ended
      cases ended
  refine ⟨⟨first, second⟩, ⟨drop.others 0 (by decide), forgotten⟩, unused 2 (by decide +kernel), ?_⟩
  have kept := runs session 0 excursion reply after rfl done
  have untouched := kept.others 1 (by decide) (by decide)
  exact ⟨reply, after, done, (kept.scope _ _ _ rfl).trans first, untouched⟩

end Machine

end PooledMemory
