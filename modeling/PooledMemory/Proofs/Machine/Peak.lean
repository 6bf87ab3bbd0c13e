import PooledMemory.Proofs.Machine.Footprint
import PooledMemory.Proofs.Machine.Phases

namespace PooledMemory

namespace Machine

/-- The footprint of a pool with a block in both its places, if the pool has moved it from one place
in a segment to another: none of the pool's blocks is at the address any more, but they are as many
as before. -/
def doubled (m after : Machine) (id : PoolId) (addr : Address) : Nat :=
  match (m.liveIn id).find? (·.addr == addr) with
  | some b =>
    if b.dedicated = false ∧ (after.liveIn id).length = (m.liveIn id).length ∧
      ∀ c ∈ after.liveIn id, c.addr ≠ addr
    then after.spent id + (b.size + blockOverhead) else 0
  | none => 0

variable {m after : Machine} {lost : List (Address × PoolId)} {loans : List SystemBlock}
  {id : PoolId} {addr : Address}

theorem doubled_eq_zero
    (kept : (after.liveIn id).length = (m.liveIn id).length →
      ∀ b ∈ m.liveIn id, b.addr = addr → ∃ c ∈ after.liveIn id, c.addr = addr) :
    m.doubled after id addr = 0 := by
  unfold doubled
  split
  · rename_i b found
    refine if_neg fun ⟨_, same, gone⟩ => ?_
    obtain ⟨c, member, start⟩ := kept same b (List.mem_of_find?_eq_some found)
      (by simpa using List.find?_some found)
    exact gone c member start
  · rfl

theorem Risen.doubled (risen : Risen m after id) : m.doubled after id addr = 0 := by
  obtain ⟨fresh, perm⟩ := risen.live
  refine doubled_eq_zero fun _ b member start => ⟨b, ?_, start⟩
  exact perm.symm.subset (List.mem_append_right _ member)

theorem Fallen.doubled (fallen : Fallen m after id) : m.doubled after id addr = 0 := by
  obtain ⟨gone, perm⟩ := fallen.live
  refine doubled_eq_zero fun same b member start => ⟨b, ?_, start⟩
  have lengths := perm.length_eq
  rw [List.length_append, same] at lengths
  obtain rfl : gone = [] := List.length_eq_zero_iff.1 (by omega)
  exact perm.subset member

theorem Sound.liveIn_addr_nodup (sound : m.Sound lost loans) (id : PoolId) :
    ((m.liveIn id).map (·.addr)).Nodup := by
  cases found : m.pool? id with
  | none =>
    rw [liveIn, found]
    exact .nil
  | some p =>
    rw [liveIn_eq found]
    exact (sound.heap found).addr_nodup

theorem Sound.find?_liveIn {b : LiveBlock} (sound : m.Sound lost loans)
    (member : b ∈ m.liveIn id) : (m.liveIn id).find? (·.addr == b.addr) = some b := by
  cases found : m.pool? id with
  | none =>
    rw [liveIn, found] at member
    cases member
  | some p =>
    rw [liveIn_eq found] at member ⊢
    exact (sound.heap found).block?_eq member

/-- A block that is in another place of its pool has been charged for the old one as well. -/
theorem Sound.doubled_of_moved {b new : LiveBlock} {kept : List LiveBlock}
    (sound : m.Sound lost loans) (before : (m.liveIn id).Perm (b :: kept))
    (behind : (after.liveIn id).Perm (new :: kept)) (inSegment : b.dedicated = false)
    (moves : new.addr ≠ b.addr) :
    m.doubled after id b.addr = after.spent id + (b.size + blockOverhead) := by
  have member : b ∈ m.liveIn id := before.symm.subset (List.mem_cons_self ..)
  have lengths : (after.liveIn id).length = (m.liveIn id).length := by
    rw [before.length_eq, behind.length_eq, List.length_cons, List.length_cons]
  have left : ∀ c ∈ after.liveIn id, c.addr ≠ b.addr := by
    intro c inAfter there
    rcases List.mem_cons.1 (behind.subset inAfter) with rfl | inKept
    · exact moves there
    · have unique := (before.map (·.addr)).nodup_iff.1 (sound.liveIn_addr_nodup id)
      exact (List.nodup_cons.1 unique).1 (List.mem_map.2 ⟨c, inKept, there⟩)
  rw [Machine.doubled, sound.find?_liveIn member]
  exact if_pos ⟨inSegment, lengths, left⟩

/-- A block that its pool resizes is charged at its new size, and if it moves, in both places. -/
theorem Sound.refitted_peak {b new : Block} (sound : m.Sound lost loans)
    (change : Change m after [b] [new] []) (start : b.addr = addr) (own : b.owner = some id)
    (below : m.spent id ≤ m.peak id)
    (word : m.doubled after id addr < wordSize) :
    after.peak id =
      max (m.peak id) (max (m.spent id) (max (after.spent id) (m.doubled after id addr))) := by
  obtain ⟨lost', loans', sound'⟩ := change.sound
  cases change.visit id with
  | aside _ _ others => exact absurd own (others b (by simp))
  | ended _ _ _ nothing _ _ => cases nothing
  | @turned p q goneIn newIn found found' goneHere newHere turn =>
    have spends := sound'.footprint_spent found'
    cases turn with
    | steady _ _ _ _ => cases goneHere
    | issued _ _ _ _ => cases goneHere
    | released _ _ _ _ _ => cases newHere
    | deferred _ _ _ _ => cases goneHere
    | @resized old place kept r _ before behind placed paces =>
      obtain rfl : b = old.issuedBy id := by simpa using goneHere
      obtain rfl : old.addr = addr := start
      have live := liveIn_eq found
      have live' := liveIn_eq found'
      rw [← live] at before
      rw [← live'] at behind
      have inBefore : old ∈ m.liveIn id := before.symm.subset (List.mem_cons_self ..)
      have inAfter : place ∈ after.liveIn id := behind.symm.subset (List.mem_cons_self ..)
      have stays : r.addr = old.addr → m.doubled after id old.addr = 0 := fun here =>
        doubled_eq_zero fun _ _ _ _ => ⟨place, inAfter, placed.trans here⟩
      rw [peak_eq found] at below ⊢
      rw [peak_eq found']
      cases paces with
      | unchanged same here =>
        have still : after.spent id = m.spent id := by
          rw [spent, spent, live, live', same]
        rw [stays here, still, same]
        omega
      | settled peak either =>
        have single : m.doubled after id old.addr = 0 := by
          rcases either with here | region
          · exact stays here
          · rw [Machine.doubled, sound.find?_liveIn inBefore]
            exact if_neg (by simp [region])
        rw [single, peak, spends]
        omega
      | doubled peak inSegment moves =>
        have both := sound.doubled_of_moved before behind inSegment (placed.symm ▸ moves)
        have cost : m.spent id = old.size + blockOverhead + LiveBlock.cost kept := by
          rw [spent, LiveBlock.cost_perm before, LiveBlock.cost_cons]
        have cost' : after.spent id = place.size + blockOverhead + LiveBlock.cost kept := by
          rw [spent, LiveBlock.cost_perm behind, LiveBlock.cost_cons]
        have spent : p.heap.spent = m.spent id := congrArg LiveBlock.cost live.symm
        have charged : p.heap.spent + (place.size + blockOverhead) =
            m.doubled after id old.addr := by omega
        rw [peak, charged, Nat.mod_eq_of_lt word]
        omega

theorem inUse_of_liveIn {b : LiveBlock} (member : b ∈ m.liveIn id) : m.InUse (b.issuedBy id) := by
  unfold liveIn at member
  cases found : m.pool? id with
  | none =>
    rw [found] at member
    cases member
  | some p =>
    rw [found] at member
    obtain ⟨inPools, rfl⟩ := pool?_mem found
    exact .inl ⟨p, inPools, mem_issued.2 ⟨b, member, rfl⟩⟩

theorem Sound.liveIn_of_inUse {b : Block} (sound : m.Sound lost loans) (used : m.InUse b)
    (owner : b.owner = some id) : ∃ c ∈ m.liveIn id, c.issuedBy id = b := by
  rcases used with ⟨p, inPools, own⟩ | ⟨s, _, _, rfl⟩
  · obtain ⟨c, member, rfl⟩ := mem_issued.1 own
    cases owner
    refine ⟨c, ?_, rfl⟩
    rw [liveIn_eq (sound.pool?_eq inPools)]
    exact member
  · cases owner

/-- The highest footprint of a pool on the way from one state over another one to a third. -/
def passing (m middle after : Machine) (id : PoolId) (addr : Address) : Nat :=
  max (max (m.spent id) (middle.spent id)) (max (after.spent id) (m.doubled after id addr))

variable {middle : Machine}

theorem Risen.passing (risen : Risen m after id) (below : m.spent id ≤ m.peak id)
    (within : middle.spent id ≤ after.spent id) :
    after.peak id = max (m.peak id) (passing m middle after id addr) := by
  have peak := risen.peak below
  have growing := risen.spent_le
  rw [Machine.passing, risen.doubled]
  omega

theorem Fallen.passing (fallen : Fallen m after id) (below : m.spent id ≤ m.peak id)
    (within : middle.spent id ≤ m.spent id) :
    after.peak id = max (m.peak id) (passing m middle after id addr) := by
  have peak := fallen.peak
  have shrinking := fallen.spent_le
  rw [Machine.passing, fallen.doubled]
  omega

theorem Relocation.peak {target : Target} {known : Option Nat} {request : Request}
    {o : Outcome (Option Address)} (relocation : Relocation m addr target known request o)
    (sound : m.Sound lost loans) (below : m.spent id ≤ m.peak id)
    (word : passing m (m.arrival addr target request) o.machine id addr < wordSize) :
    o.machine.peak id =
      max (m.peak id) (passing m (m.arrival addr target request) o.machine id addr) := by
  have arrives : ∀ {n : Nat}, m.spent id ≤ n → (m.serve target request).machine.spent id ≤ n →
      (m.arrival addr target request).spent id ≤ n := by
    intro n first second
    unfold arrival
    split
    · exact first
    · exact second
  cases relocation with
  | @refused after change either =>
    have fallen : Fallen m after id := change.fallen (List.forall_mem_nil _)
    refine fallen.passing below ?_
    rcases either with same | unserved
    · exact Nat.le_of_eq (by rw [arrival, if_pos same])
    · exact arrives (Nat.le_refl _) (unserved.fallen (List.forall_mem_nil _)).spent_le
  | @refitted b new after same _ start owner change owner' _ _ =>
    have stays : m.arrival addr target request = m := if_pos same
    rw [stays] at word ⊢
    by_cases own : target.owner = some id
    · have word' : m.doubled after id addr < wordSize :=
        Nat.lt_of_le_of_lt (Nat.le_trans (Nat.le_max_right _ _) (Nat.le_max_right _ _)) word
      have peak := sound.refitted_peak change start (owner.trans own) below word'
      show after.peak id = max (m.peak id) (passing m m after id addr)
      rw [peak, passing, Nat.max_self]
    · have fallen : Fallen m after id := change.fallen (by simpa [owner'] using own)
      exact fallen.passing below (Nat.le_refl _)
  | @carried b new after _ _ foreign issue way _ owner _ _ =>
    have brings : ∀ (_ : Machine) gone fresh written, OnTheWay m b gone fresh written →
        ∀ c ∈ fresh, c.owner ≠ some id := by
      intro s gone fresh written onTheWay c member
      rw [onTheWay.fresh c member]
      exact nofun
    by_cases own : target.owner = some id
    · have takes : ∀ (_ : Machine) gone fresh written, OnTheWay m b gone fresh written →
          ∀ c ∈ gone, c.owner ≠ some id := by
        intro s gone fresh written onTheWay c member
        rw [(onTheWay.gone c member).1]
        exact foreign id own
      have risen : Risen m (m.serve target request).machine id :=
        issue.risen (List.forall_mem_nil _)
      have rest : Risen (m.serve target request).machine after id := way.risen takes
      exact (risen.trans rest).passing below
        (arrives (risen.trans rest).spent_le rest.spent_le)
    · have fallen : Fallen m (m.serve target request).machine id :=
        issue.fallen (by simpa [owner] using own)
      have rest : Fallen (m.serve target request).machine after id := way.fallen brings
      exact (fallen.trans rest).passing below (arrives (Nat.le_refl _) fallen.spent_le)
  | @abandoned new untagged after unowned issue untag release owner =>
    by_cases own : target.owner = some id
    · have stays : m.doubled after id addr = 0 := by
        refine doubled_eq_zero fun _ b member start => ?_
        have used := inUse_of_liveIn member
        have old : b.issuedBy id ∉ [new] := fun same => by
          simpa using issue.fresh _ same used
        have still := untag.still_inUse (issue.still_inUse used (by simp)) (by simp)
        obtain ⟨lost', loans', sound'⟩ := release.sound
        obtain ⟨c, inAfter, same⟩ := sound'.liveIn_of_inUse (release.still_inUse still old) rfl
        exact ⟨c, inAfter, (congrArg Block.addr same).trans start⟩
      have arrived : m.arrival addr target request = (m.serve target request).machine := by
        refine if_neg ?_
        rw [unowned, own]
        exact nofun
      have risen : Risen m (m.serve target request).machine id :=
        issue.risen (List.forall_mem_nil _)
      have fallen : Fallen (m.serve target request).machine after id :=
        (untag.fallen (List.forall_mem_nil _)).trans (release.fallen (List.forall_mem_nil _))
      have raised := risen.peak below
      have growing := risen.spent_le
      have shrinking := fallen.spent_le
      have peak := fallen.peak
      rw [arrived, passing]
      show after.peak id = max (m.peak id)
        (max (max (m.spent id) ((m.serve target request).machine.spent id))
          (max (after.spent id) (m.doubled after id addr)))
      rw [stays]
      omega
    · have fallen : Fallen m (m.serve target request).machine id :=
        issue.fallen (by simpa [owner] using own)
      have rest : Fallen (m.serve target request).machine after id :=
        (untag.fallen (List.forall_mem_nil _)).trans (release.fallen (List.forall_mem_nil _))
      exact (fallen.trans rest).passing below (arrives (Nat.le_refl _) fallen.spent_le)

end Machine

namespace Call

variable {m after : Machine} {lost : List (Address × PoolId)} {loans : List SystemBlock}
  {id : PoolId} {c : Call}

/-- The highest footprint of a pool from the beginning of a call to its end. -/
def charge (c : Call) (m : Machine) (id : PoolId) : Nat :=
  match c.block? with
  | some addr => Machine.passing m (c.midway m) (c.run m).machine id addr
  | none => max (m.spent id) ((c.run m).machine.spent id)

theorem charge_ge (c : Call) (m : Machine) (id : PoolId) :
    max (m.spent id) ((c.run m).machine.spent id) ≤ c.charge m id := by
  unfold charge
  split
  · unfold Machine.passing
    omega
  · exact Nat.le_refl _

/-- The peak of a pool takes in all that the pool is charged during a call. -/
theorem Conduct.peak (conduct : c.Conduct m (c.run m).machine) (sound : m.Sound lost loans)
    (below : m.spent id ≤ m.peak id) (word : c.charge m id < wordSize) :
    (c.run m).machine.peak id = max (m.peak id) (c.charge m id) := by
  unfold charge at word ⊢
  generalize (c.run m).machine = after at conduct word ⊢
  cases conduct with
  | rises unnamed course =>
    have risen : Machine.Risen m after id := course.risen fun _ gone _ _ rising b member => by
      rw [rising.gone] at member
      cases member
    have peak := risen.peak below
    have growing := risen.spent_le
    simp only [unnamed]
    omega
  | falls begins course =>
    have fallen : Machine.Fallen m after id := course.fallen fun _ _ new _ falling b member => by
      rw [falling.new] at member
      cases member
    rw [begins]
    cases c.block? with
    | some addr => exact fallen.passing below (Nat.le_refl _)
    | none =>
      have peak := fallen.peak
      have shrinking := fallen.spent_le
      show after.peak id = max (m.peak id) (max (m.spent id) (after.spent id))
      omega
  | @moves addr target known request threads o named between relocation same =>
    subst same
    simp only [named, between] at word ⊢
    have targeted := sound.withThreads threads
    exact relocation.peak targeted below word

/-- The steps of a run that begins in a state, before which there were others. -/
def trace (before : List (Machine × Call)) : List Call → Machine → List (Machine × Call)
  | [], _ => before
  | c :: rest, m => trace ((m, c) :: before) rest (c.run m).machine

/-- A program may make the call: it is as it should be, or a fault stops it. -/
def Attemptable (c : Call) (m : Machine) : Prop :=
  (c.Sane m ∧ ∀ addr, c.routed? = some addr → m.IsLoaned addr ∨
    ∃ id, m.owner? addr = some id ∧ c.expected?.all (· == id) = true) ∨
  ∃ fault, (c.run m).answer = .error fault

end Call

namespace Machine

/-- A run of a program: the calls that lead to a state, the latest first, each with the state that
it was made in. -/
inductive Trail : List (Machine × Call) → Machine → Prop
  | start (slots : List Nat) : Trail [] (.start slots)
  | step {m : Machine} {before : List (Machine × Call)} (c : Call) : Trail before m →
    c.Attemptable m → Trail ((m, c) :: before) (c.run m).machine

/-- The highest value that the steps of a run have. -/
def highest (f : Machine → Call → Nat) : List (Machine × Call) → Nat
  | [] => 0
  | (m, c) :: before => max (f m c) (highest f before)

variable {m : Machine} {steps : List (Machine × Call)} {id : PoolId} {p : Pool} {c : Call}

theorem Reachable.attemptable (reached : Reachable m) (proper : c.Proper m) : c.Attemptable m := by
  obtain ⟨loans, sound⟩ := reached.sound
  exact .inl ⟨proper.sane, fun _ routed => sound.routed_of_proper proper routed⟩

theorem Trail.runAll (trail : Trail steps m) (reached : Reachable m) (calls : List Call)
    (fit : Call.areProper calls m = true) :
    Trail (Call.trace steps calls m) (Call.runAll calls m) := by
  induction calls generalizing steps m with
  | nil => exact trail
  | cons c rest ih =>
    simp only [Call.areProper, Bool.and_eq_true] at fit
    have proper := Call.proper_of_isProper fit.1
    exact ih (trail.step c (reached.attemptable proper)) (reached.step c proper) fit.2

theorem Attempted.attempt (attempted : Attempted m) (may : c.Attemptable m) :
    Attempted (c.run m).machine := by
  rcases may with ⟨sane, recorded⟩ | ⟨fault, stopped⟩
  · exact attempted.step c sane recorded
  · exact attempted.stopped c stopped

theorem Trail.attempted (trail : Trail steps m) : Attempted m := by
  induction trail with
  | start slots => exact .start slots
  | step c _ may ih => exact ih.attempt may

theorem Attempted.conduct (attempted : Attempted m) (may : c.Attemptable m) :
    c.Conduct m (c.run m).machine := by
  obtain ⟨lost, loans, sound⟩ := attempted.sound
  rcases may with ⟨sane, recorded⟩ | stops
  · exact sound.conduct c (.inl sane) fun addr routed =>
      .inl (sound.handed_of_routed (recorded addr routed)).1
  · exact sound.conduct c (.inr stops) fun _ _ => .inr stops

theorem Trail.peak_charge (trail : Trail steps m)
    (word : ∀ s ∈ steps, s.2.charge s.1 id < wordSize) :
    m.spent id ≤ m.peak id ∧ m.peak id = highest (fun m c => c.charge m id) steps := by
  induction trail with
  | start slots => exact ⟨Nat.le_refl _, rfl⟩
  | @step m before c trail may ih =>
    obtain ⟨below, peak⟩ := ih fun s member => word s (List.mem_cons_of_mem _ member)
    obtain ⟨lost, loans, sound⟩ := trail.attempted.sound
    have charged := (trail.attempted.conduct may).peak sound below
      (word (m, c) (List.mem_cons_self ..))
    have covers := c.charge_ge m id
    refine ⟨by omega, ?_⟩
    rw [charged, peak, highest, Nat.max_comm]

/-- The footprint of a pool in the state that a step leads to. -/
def spentAfter (id : PoolId) (m : Machine) (c : Call) : Nat := (c.run m).machine.spent id

theorem Trail.spent_le (trail : Trail steps m) : m.spent id ≤ highest (spentAfter id) steps := by
  cases trail with
  | start slots => exact Nat.le_refl _
  | step c _ _ => exact Nat.le_max_left _ _

theorem Trail.footprint_le (trail : Trail steps m) : ∀ s ∈ steps,
    max (s.1.spent id) (spentAfter id s.1 s.2) ≤ highest (spentAfter id) steps := by
  induction trail with
  | start slots => exact List.forall_mem_nil _
  | @step m before c trail may ih =>
    intro s member
    unfold highest
    rcases List.mem_cons.1 member with rfl | old
    · have last : m.spent id ≤ highest (spentAfter id) before := trail.spent_le
      simp only
      omega
    · exact Nat.le_trans (ih s old) (Nat.le_max_right _ _)

/-- Calls that never charge a pool more than before or after them leave no trace of their own. -/
theorem Trail.highest_charge (trail : Trail steps m)
    (plain : ∀ s ∈ steps, s.2.charge s.1 id ≤ max (s.1.spent id) (spentAfter id s.1 s.2)) :
    highest (fun m c => c.charge m id) steps = highest (spentAfter id) steps := by
  induction trail with
  | start slots => rfl
  | @step m before c trail may ih =>
    have rest := ih fun s member => plain s (List.mem_cons_of_mem _ member)
    have here := plain (m, c) (List.mem_cons_self ..)
    have covers := c.charge_ge m id
    have last : m.spent id ≤ highest (spentAfter id) before := trail.spent_le
    unfold highest
    simp only [spentAfter] at *
    omega

theorem Trail.evolves (trail : Trail steps m) : m.Enrolled ∧
    ∀ s ∈ steps, Attempted (s.2.run s.1).machine ∧ (s.2.run s.1).machine.Evolves m := by
  induction trail with
  | start slots => exact ⟨start_enrolled slots, List.forall_mem_nil _⟩
  | @step m before c trail may ih =>
    obtain ⟨enrolled, earlier⟩ := ih
    obtain ⟨lost, loans, sound⟩ := trail.attempted.sound
    obtain ⟨enrolled', evolves⟩ := (trail.attempted.conduct may).enrolled sound enrolled
    refine ⟨enrolled', fun s member => ?_⟩
    rcases List.mem_cons.1 member with rfl | old
    · exact ⟨(trail.step c may).attempted, .refl _⟩
    · obtain ⟨attempted, later⟩ := earlier s old
      exact ⟨attempted, later.trans evolves⟩

/-- The budget of a pool holds for its footprint in all states from before. -/
theorem Trail.spent_le_budget (trail : Trail steps m) (inPools : p ∈ m.pools) :
    highest (spentAfter p.id) steps ≤ p.settings.maxSize := by
  obtain ⟨_, _, sound⟩ := trail.attempted.sound
  have each : ∀ s ∈ steps, spentAfter p.id s.1 s.2 ≤ p.settings.maxSize := by
    intro s member
    obtain ⟨attempted, evolves⟩ := trail.evolves.2 s member
    obtain ⟨_, _, earlier⟩ := attempted.sound
    cases found : (s.2.run s.1).machine.pool? p.id with
    | none =>
      rw [spentAfter, spent, liveIn, found]
      exact Nat.zero_le _
    | some r =>
      obtain ⟨inEarlier, number⟩ := pool?_mem found
      obtain ⟨q, inPools', later⟩ := evolves.pools r inEarlier
      obtain rfl : q = p := List.inj_on_of_nodup_map sound.ids inPools' inPools
        (later.id.trans number)
      rw [spentAfter, spent, liveIn_eq found, later.settings]
      exact (earlier.books inEarlier).2.2.1
  clear trail
  induction steps with
  | nil => exact Nat.zero_le _
  | cons s before ih =>
    obtain ⟨first, rest⟩ := List.forall_mem_cons.1 each
    exact Nat.max_le.2 ⟨first, ih rest⟩

/-- The peak of a pool is the highest footprint that any call of a run has charged it with. Where no
call charges it with more than before or after the call, this is the highest footprint between two
calls, and so within the budget. -/
theorem Trail.peak_follows (trail : Trail steps m) (inPools : p ∈ m.pools) :
    ((∀ s ∈ steps, s.2.charge s.1 p.id < wordSize) →
      p.heap.peak = highest (fun m c => c.charge m p.id) steps) ∧
    ((∀ s ∈ steps, s.2.charge s.1 p.id ≤ max (s.1.spent p.id) (spentAfter p.id s.1 s.2)) →
      p.heap.peak = highest (spentAfter p.id) steps ∧ p.heap.peak ≤ p.settings.maxSize) := by
  obtain ⟨_, _, sound⟩ := trail.attempted.sound
  rw [← peak_eq (sound.pool?_eq inPools)]
  refine ⟨fun word => (trail.peak_charge word).2, fun plain => ?_⟩
  have budget := trail.spent_le_budget inPools
  have limit := (sound.books inPools).2.2.2
  have word : ∀ s ∈ steps, s.2.charge s.1 p.id < wordSize := fun s member =>
    Nat.lt_of_le_of_lt (Nat.le_trans (plain s member) (trail.footprint_le s member))
      (Nat.lt_of_le_of_lt budget limit)
  have peak := (trail.peak_charge word).2.trans (trail.highest_charge plain)
  exact ⟨peak, peak ▸ budget⟩

/-- A block moves to the end of its segment for want of room behind it. Between two calls the pool
has room in its budget. -/
def cramped : List Call :=
  [.openPool { thread := 0 } { maxSize := 200 },
    .allocate { thread := 0 } (some 1) (.plain 100),
    .allocate { thread := 0 } (some 1) (.plain 16), .resizeBlock 1 (SystemHeap.slotBase 3) 120]

/-- The peak follows the footprint up to the move, which is charged for both places. -/
theorem cramped_peak :
    (∀ p ∈ (Call.runAll (cramped.take 3) (.start [3])).pools, p.heap.peak = 160 ∧
      p.heap.peak = highest (spentAfter p.id) (Call.trace [] (cramped.take 3) (.start [3])) ∧
      p.heap.peak ≤ p.settings.maxSize) ∧
    ∀ p ∈ (Call.runAll cramped (.start [3])).pools, p.heap.peak = 304 ∧
      p.heap.peak = highest (fun m c => c.charge m p.id) (Call.trace [] cramped (.start [3])) ∧
      highest (spentAfter p.id) (Call.trace [] cramped (.start [3])) = 176 := by
  have first := (Trail.start [3]).runAll (.start [3]) (cramped.take 3) (by decide +kernel)
  have second := (Trail.start [3]).runAll (.start [3]) cramped (by decide +kernel)
  have values : ∀ p ∈ (Call.runAll (cramped.take 3) (.start [3])).pools,
      p.id = 1 ∧ p.heap.peak = 160 := by decide +kernel
  have values' : ∀ p ∈ (Call.runAll cramped (.start [3])).pools, p.id = 1 ∧ p.heap.peak = 304 := by
    decide +kernel
  refine ⟨fun p inPools => ?_, fun p inPools => ?_⟩
  · obtain ⟨number, value⟩ := values p inPools
    refine ⟨value, (Trail.peak_follows first inPools).2 ?_⟩
    rw [number]
    decide +kernel
  · obtain ⟨number, value⟩ := values' p inPools
    refine ⟨value, (Trail.peak_follows second inPools).1 ?_, ?_⟩
    · rw [number]
      decide +kernel
    · rw [number]
      decide +kernel

/-- It is not the case that peaks are footprints between two calls, or that they stay in the
budget. -/
theorem not_peak_in_budget : ¬ ∀ (steps : List (Machine × Call)) (m : Machine) (p : Pool),
    Trail steps m → p ∈ m.pools →
      p.heap.peak = highest (spentAfter p.id) steps ∧ p.heap.peak ≤ p.settings.maxSize := by
  intro follows
  have trail := (Trail.start [3]).runAll (.start [3]) cramped (by decide +kernel)
  have exceeds : ∃ p ∈ (Call.runAll cramped (.start [3])).pools,
      p.settings.maxSize < p.heap.peak := by decide +kernel
  obtain ⟨p, inPools, exceeds⟩ := exceeds
  exact Nat.not_le_of_lt exceeds (follows _ _ p trail inPools).2

end Machine

end PooledMemory
