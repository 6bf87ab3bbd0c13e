import PooledMemory.Proofs.Machine.Step

namespace PooledMemory

namespace Machine

variable {m : Machine} {lost : List (Address × PoolId)} {loans : List SystemBlock} {id : PoolId}

theorem Sound.live_of_tagged (sound : m.Sound lost loans) {addr : Address}
    (owned : m.owner? addr = some id) : (addr, id) ∈ m.livePairs := by
  obtain ⟨tag, member, rfl⟩ := sound.tags.owner?_eq_some_iff.1 owned
  exact sound.agree.subset (List.mem_append_left _ (List.mem_map.2 ⟨_, member, rfl⟩))

/-- An address has at most one owner, recorded or not. -/
theorem Sound.owner_unique (sound : m.Sound lost loans) {addr : Address} {owner : PoolId}
    (live : m.IsLiveIn id addr) (owned : m.owner? addr = some owner) : id = owner := by
  have same := List.inj_on_of_nodup_map sound.addr_nodup (mem_livePairs.2 live)
    (sound.live_of_tagged owned) rfl
  exact congrArg Prod.snd same

/-- What a proper call routes is recorded, for the owner that it names if any, or handed out. -/
theorem Sound.routed_of_proper (sound : m.Sound [] loans) {c : Call} (proper : c.Proper m)
    {addr : Address} (routed : c.routed? = some addr) :
    m.IsLoaned addr ∨ ∃ id, m.owner? addr = some id ∧ c.expected?.all (· == id) = true := by
  have block := Call.block?_of_routed routed
  rcases proper.inUse addr block with ⟨id, live⟩ | loaned
  · have owned := sound.owner?_of_live live
    refine .inr ⟨id, owned, ?_⟩
    cases names : c.expected? with
    | none => rfl
    | some expected => simpa using sound.owner_unique (proper.named expected addr names block) owned
  · exact .inl loaned

theorem Sound.handed_of_routed (sound : m.Sound lost loans) {addr : Address}
    {expected : Option PoolId} (routed : m.IsLoaned addr ∨
      ∃ id, m.owner? addr = some id ∧ expected.all (· == id) = true) :
    m.Handed loans addr ∧
      ∀ owner, m.owner? addr = some owner → expected.all (· == owner) = true := by
  rcases routed with loaned | ⟨id, owned, names⟩
  · refine ⟨.inr (sound.loaned loaned), fun owner owned => ?_⟩
    exact absurd (sound.live_of_tagged owned) (sound.not_live_of_loan (sound.loaned loaned))
  · refine ⟨.inl ⟨id, owned⟩, fun owner owned' => ?_⟩
    cases owned.symm.trans owned'
    exact names

/-- A proper call keeps all blocks recorded. -/
theorem Sound.run_proper (sound : m.Sound [] loans) {c : Call} (proper : c.Proper m) :
    (c.run m).Keeps [] :=
  sound.run c (.inl proper.sane)
    (fun _ routed => .inl (sound.handed_of_routed (sound.routed_of_proper proper routed)).1)
    fun _ routed => (sound.handed_of_routed (sound.routed_of_proper proper routed)).2

theorem Reachable.sound (reached : Reachable m) : ∃ loans, m.Sound [] loans := by
  induction reached with
  | start slots => exact ⟨[], start_sound slots⟩
  | step c _ proper ih =>
    obtain ⟨loans, sound⟩ := ih
    obtain ⟨lost, loans', fewer, after⟩ := (sound.run_proper proper).sound
    obtain rfl : lost = [] := List.subset_nil.1 fewer
    exact ⟨loans', after⟩

/-- A call that is stopped has taken a tag off a live block only if it names a wrong owner. -/
theorem Sound.run_stopped (sound : m.Sound lost loans) {c : Call} {fault : Fault}
    (stopped : (c.run m).answer = .error fault) :
    ∃ lost' loans', (c.run m).machine.Sound lost' loans' := by
  have stops : ∃ fault, (c.run m).answer = .error fault := ⟨fault, stopped⟩
  by_cases named : ∀ addr, c.routed? = some addr → ∀ owner, m.owner? addr = some owner →
      c.expected?.all (· == owner) = true
  · obtain ⟨lost', loans', _, after⟩ :=
      (sound.run c (.inr stops) (fun _ _ => .inr stops) named).sound
    exact ⟨lost', loans', after⟩
  · push Not at named
    obtain ⟨addr, routed, owner, owned, wrong⟩ := named
    cases c with
    | free caller expected addr' =>
      cases routed
      show ∃ lost' loans', (m.free caller expected addr).machine.Sound lost' loans'
      unfold Machine.free
      split
      · exact ⟨lost, loans, sound⟩
      · cases expected with
        | none => exact absurd rfl wrong
        | some other =>
          have differs : other ≠ owner := by
            rintro rfl
            exact wrong (by simp [Call.expected?])
          rw [sound.release_misnamed caller owned differs]
          exact ⟨_, loans, sound.untag owned⟩
    | _ => exact absurd rfl wrong

theorem Attempted.sound (attempted : Attempted m) : ∃ lost loans, m.Sound lost loans := by
  induction attempted with
  | start slots => exact ⟨[], [], start_sound slots⟩
  | @step m c _ sane recorded ih =>
    obtain ⟨lost, loans, sound⟩ := ih
    obtain ⟨lost', loans', _, after⟩ := (sound.run c (.inl sane)
      (fun addr routed => .inl (sound.handed_of_routed (recorded addr routed)).1)
      fun addr routed => (sound.handed_of_routed (recorded addr routed)).2).sound
    exact ⟨lost', loans', after⟩
  | stopped c _ stopped ih =>
    obtain ⟨lost, loans, sound⟩ := ih
    exact sound.run_stopped stopped

/-- Proper calls are among those that programs may attempt. -/
theorem Reachable.attempted (reached : Reachable m) : Attempted m := by
  induction reached with
  | start slots => exact .start slots
  | @step m c before proper ih =>
    obtain ⟨loans, sound⟩ := before.sound
    exact ih.step c proper.sane fun _ routed => sound.routed_of_proper proper routed

end Machine

namespace Call

instance (m : Machine) (id : PoolId) (addr : Address) : Decidable (m.IsLiveIn id addr) :=
  inferInstanceAs (Decidable (∃ p ∈ m.pools, p.id = id ∧ ∃ b ∈ p.heap.live, b.addr = addr))

/-- A test for calls that are proper since they name live blocks only. -/
def isProper (c : Call) (m : Machine) : Bool :=
  (match c with
    | openPool _ settings => decide (settings.maxSize < wordSize)
    | adjust _ => false
    | _ => true) &&
  c.block?.all (fun addr => m.pools.any fun p => p.heap.live.any (·.addr == addr)) &&
  c.expected?.all fun id => c.block?.all fun addr => decide (m.IsLiveIn id addr)

theorem proper_of_isProper {c : Call} {m : Machine} (fit : c.isProper m = true) : c.Proper m := by
  simp only [isProper, Bool.and_eq_true] at fit
  obtain ⟨⟨sane, inUse⟩, named⟩ := fit
  refine ⟨?_, fun addr block => .inl ?_, fun id addr names block => ?_⟩
  · cases c with
    | openPool _ settings => exact (decide_eq_true_iff (p := settings.maxSize < wordSize)).1 sane
    | adjust _ => cases sane
    | _ => trivial
  · simp only [block, Option.all_some, List.any_eq_true, beq_iff_eq] at inUse
    obtain ⟨p, inPools, b, inLive, start⟩ := inUse
    exact ⟨p.id, p, inPools, rfl, b, inLive, start⟩
  · simpa [names, block] using named

/-- Carries out calls one after the other. -/
def runAll (calls : List Call) (m : Machine) : Machine :=
  calls.foldl (fun m c => (c.run m).machine) m

def areProper : List Call → Machine → Bool
  | [], _ => true
  | c :: rest, m => c.isProper m && areProper rest (c.run m).machine

end Call

namespace Machine

theorem Reachable.runAll (reached : Reachable m) (calls : List Call)
    (fit : Call.areProper calls m = true) : Reachable (Call.runAll calls m) := by
  induction calls generalizing m with
  | nil => exact reached
  | cons c rest ih =>
    simp only [Call.areProper, Bool.and_eq_true] at fit
    exact ih (reached.step c (Call.proper_of_isProper fit.1)) fit.2

/-- The system heap resizes blocks where they are if it can, gives eight bytes more than it is asked
for, and hands out memory with something in it. -/
def ample (slots : List Nat) : Machine :=
  { Machine.start slots with
    system :=
      { SystemHeap.start slots with
        inPlace := true
        spare := fun _ _ => 8
        fresh := fun a => UInt8.ofNat (a / granule + 1) } }

theorem ample_proper (slots : List Nat) :
    (Call.adjust (ample slots).system).Proper (.start slots) := by
  have none' : ∀ b, b ∉ (ample slots).system.blocks := fun _ => List.not_mem_nil
  have sound : (ample slots).system.Sound :=
    ⟨.nil, fun b here => absurd here (none' b), fun b here => absurd here (none' b), Nat.le_refl _⟩
  exact ⟨⟨sound, rfl, fun b here => absurd here (none' b), rfl⟩, nofun, nofun⟩

theorem ample_reachable (slots : List Nat) : Reachable (ample slots) :=
  (Reachable.start slots).step _ (ample_proper slots)

/-- Two threads have used two pools, and memory of all kinds is in use. -/
def busy : Machine := Call.runAll
  [.openPool { thread := 0 } { owned := true }, .openPool { thread := 1 } {},
    .allocate { thread := 0 } none (.plain 40), .allocate { thread := 0 } none (.plain 300),
    .allocate { thread := 1 } (some 2) (.plain 5000),
    .allocate { thread := 0 } none (.plain 200000),
    .allocate { thread := 0 } none (.plain 100),
    .free { thread := 1 } (some 1) (SystemHeap.slotBase 3),
    .free { thread := 0 } none (SystemHeap.slotBase 3 + 48)]
  (.start [3, 1])

theorem busy_reachable : Reachable busy := (Reachable.start [3, 1]).runAll _ (by decide +kernel)

/-- A pool has a block in a segment and one with a region of its own, and a thread without a pool has
a block of the system heap. -/
def roomy : Machine := Call.runAll
  [.openPool { thread := 0 } { owned := true }, .allocate { thread := 0 } none (.plain 100),
    .allocate { thread := 0 } none (.plain 200000),
    .allocate { thread := 1 } none (.plain 100)]
  (ample [3, 1])

theorem roomy_reachable : Reachable roomy := (ample_reachable [3, 1]).runAll _ (by decide +kernel)

end Machine

end PooledMemory
