import PooledMemory.Proofs.Machine.Budgets
import PooledMemory.Proofs.Machine.Conduct

namespace PooledMemory

/-- The sizes of blocks and the overhead of each. -/
def LiveBlock.cost (live : List LiveBlock) : Nat :=
  sumBy (·.size) live + live.length * blockOverhead

namespace LiveBlock

variable {live others : List LiveBlock}

theorem cost_append (live others : List LiveBlock) :
    cost (live ++ others) = cost live + cost others := by
  simp only [cost, sumBy_append, List.length_append, Nat.add_mul]
  omega

theorem cost_cons (b : LiveBlock) (live : List LiveBlock) :
    cost (b :: live) = b.size + blockOverhead + cost live := by
  simp only [cost, sumBy_cons, List.length_cons, Nat.add_mul]
  omega

theorem cost_perm (perm : live.Perm others) : cost live = cost others := by
  rw [cost, cost, sumBy_perm _ perm, perm.length_eq]

end LiveBlock

namespace Machine

/-- The live blocks of a pool, none if there is no such pool. -/
def liveIn (m : Machine) (id : PoolId) : List LiveBlock := ((m.pool? id).map (·.heap.live)).getD []

/-- The footprint of a pool: what its live blocks cost. -/
def spent (m : Machine) (id : PoolId) : Nat := LiveBlock.cost (m.liveIn id)

/-- The highest footprint of a pool as the pool has it. -/
def peak (m : Machine) (id : PoolId) : Nat := ((m.pool? id).map (·.heap.peak)).getD 0

variable {m middle after : Machine} {lost : List (Address × PoolId)} {loans : List SystemBlock}
  {id : PoolId} {p q : Pool} {gone new : List Block} {written : List Span}

theorem liveIn_eq (found : m.pool? id = some p) : m.liveIn id = p.heap.live := by
  rw [liveIn, found]
  rfl

theorem peak_eq (found : m.pool? id = some p) : m.peak id = p.heap.peak := by
  rw [peak, found]
  rfl

/-- The footprint of a pool has not become less, and the peak has followed it. -/
structure Risen (m after : Machine) (id : PoolId) : Prop where
  live : ∃ fresh, (after.liveIn id).Perm (fresh ++ m.liveIn id)
  peak : m.spent id ≤ m.peak id → after.peak id = max (m.peak id) (after.spent id)

/-- The footprint of a pool has not become more, and the peak is as before. -/
structure Fallen (m after : Machine) (id : PoolId) : Prop where
  live : ∃ gone, (m.liveIn id).Perm (gone ++ after.liveIn id)
  peak : after.peak id = m.peak id

theorem Risen.spent_le (risen : Risen m after id) : m.spent id ≤ after.spent id := by
  obtain ⟨fresh, perm⟩ := risen.live
  rw [spent, spent, LiveBlock.cost_perm perm, LiveBlock.cost_append]
  exact Nat.le_add_left _ _

theorem Fallen.spent_le (fallen : Fallen m after id) : after.spent id ≤ m.spent id := by
  obtain ⟨gone, perm⟩ := fallen.live
  rw [spent, spent, LiveBlock.cost_perm perm, LiveBlock.cost_append]
  exact Nat.le_add_left _ _

theorem Risen.refl : Risen m m id where
  live := ⟨[], .refl _⟩
  peak := fun below => (Nat.max_eq_left below).symm

theorem Fallen.refl : Fallen m m id := ⟨⟨[], .refl _⟩, rfl⟩

theorem Risen.trans (first : Risen m middle id) (second : Risen middle after id) :
    Risen m after id := by
  have growing := second.spent_le
  obtain ⟨fresh, perm⟩ := first.live
  obtain ⟨fresh', perm'⟩ := second.live
  refine ⟨⟨fresh' ++ fresh, ?_⟩, fun below => ?_⟩
  · rw [List.append_assoc]
    exact perm'.trans (perm.append_left _)
  · have peak := first.peak below
    have peak' := second.peak (peak ▸ Nat.le_max_right _ _)
    omega

theorem Fallen.trans (first : Fallen m middle id) (second : Fallen middle after id) :
    Fallen m after id := by
  obtain ⟨gone, perm⟩ := first.live
  obtain ⟨gone', perm'⟩ := second.live
  refine ⟨⟨gone ++ gone', ?_⟩, second.peak.trans first.peak⟩
  rw [List.append_assoc]
  exact perm.trans (perm'.append_left _)

/-- What one change means to one pool. -/
inductive Visit (m after : Machine) (id : PoolId) (gone new : List Block) : Prop
  | aside : after.liveIn id = m.liveIn id → after.peak id = m.peak id →
    (∀ b ∈ gone ++ new, b.owner ≠ some id) → Visit m after id gone new
  | turned {p q : Pool} {goneIn newIn : List LiveBlock} : m.pool? id = some p →
    after.pool? id = some q → gone = goneIn.map (·.issuedBy id) →
    new = newIn.map (·.issuedBy id) → p.Turn q goneIn newIn → Visit m after id gone new
  | ended {p q : Pool} : m.pool? id = some p → after.pool? id = some q →
    gone = p.heap.live.map (·.issuedBy id) → new = [] → q.heap.live = [] →
    q.heap.peak = p.heap.peak → Visit m after id gone new

theorem pool?_replaced (same : q.id = p.id)
    (pools : after.pools = (m.updatePool p.id fun _ => q).pools) (id : PoolId) :
    after.pool? id = (m.pool? id).map fun r => if r.id = p.id then q else r := by
  have numbers : ∀ r : Pool, (if r.id = p.id then q else r).id = r.id := by
    intro r
    split
    · rename_i here
      exact same.trans here.symm
    · rfl
  simp only [Machine.pool?, pools, Machine.updatePool, List.find?_map, Function.comp_def, numbers]

/-- A pool is as before if another one is replaced. -/
theorem pool?_replaced_of_ne (same : q.id = p.id)
    (pools : after.pools = (m.updatePool p.id fun _ => q).pools) (other : id ≠ p.id) :
    after.pool? id = m.pool? id := by
  rw [pool?_replaced same pools]
  cases found : m.pool? id with
  | none => rfl
  | some r =>
    have number := pool?_id found
    rw [Option.map_some, if_neg (number ▸ other)]

theorem pool?_replaced_self (found : m.pool? p.id = some p) (same : q.id = p.id)
    (pools : after.pools = (m.updatePool p.id fun _ => q).pools) : after.pool? p.id = some q := by
  rw [pool?_replaced same pools, found, Option.map_some, if_pos rfl]

theorem Visit.of_same (same : after.pool? id = m.pool? id)
    (others : ∀ b ∈ gone ++ new, b.owner ≠ some id) : Visit m after id gone new :=
  .aside (by rw [liveIn, liveIn, same]) (by rw [peak, peak, same]) others

theorem Change.visit (change : Change m after gone new written) (id : PoolId) :
    Visit m after id gone new := by
  cases change.shift with
  | still pools _ _ owners =>
    refine .of_same (by rw [pool?, pool?, pools]) fun b member => ?_
    rw [owners b member]
    exact (Option.some_ne_none id).symm
  | @opened p pools _ _ _ _ heap =>
    have found : after.pool? id = (m.pool? id).or ([p].find? (·.id == id)) := by
      rw [pool?, pool?, pools, List.find?_append]
    cases before : m.pool? id with
    | some r => exact .of_same (by rw [found, before, Option.some_or]) (List.forall_mem_nil _)
    | none =>
      rw [before, Option.none_or, List.find?_singleton] at found
      split at found
      · refine .aside ?_ ?_ (List.forall_mem_nil _)
        · rw [liveIn_eq found, heap, liveIn, before]
          rfl
        · rw [peak_eq found, heap, peak, before]
          rfl
      · exact .of_same (by rw [found, before]) (List.forall_mem_nil _)
  | @turned p q goneIn newIn found pools _ _ remains turn =>
    by_cases here : id = p.id
    · subst here
      exact .turned found (pool?_replaced_self found remains.id pools) rfl rfl turn
    · refine .of_same (pool?_replaced_of_ne remains.id pools here) fun b member owner => ?_
      rw [← List.map_append] at member
      obtain ⟨c, _, rfl⟩ := List.mem_map.1 member
      exact here (Option.some.inj owner).symm
  | @ended p q found pools _ _ remains _ _ vacant peak =>
    by_cases here : id = p.id
    · subst here
      exact .ended found (pool?_replaced_self found remains.id pools) rfl rfl vacant.live peak
    · refine .of_same (pool?_replaced_of_ne remains.id pools here) fun b member owner => ?_
      rw [List.append_nil] at member
      obtain ⟨c, _, rfl⟩ := mem_issued.1 member
      exact here (Option.some.inj owner).symm

theorem Sound.footprint_spent (sound : m.Sound lost loans) (found : m.pool? id = some p) :
    p.heap.footprint = m.spent id := by
  rw [spent, liveIn_eq found]
  exact (sound.books (pool?_mem found).1).2.1

theorem issuedBy_nil {live : List LiveBlock}
    (others : ∀ b ∈ live.map (·.issuedBy id), b.owner ≠ some id) : live = [] := by
  cases live with
  | nil => rfl
  | cons b _ => exact absurd rfl (others _ (List.mem_cons_self ..))

/-- A change that takes no block from a pool lets its footprint rise at most. -/
theorem Change.risen (change : Change m after gone new written)
    (keeps : ∀ b ∈ gone, b.owner ≠ some id) : Risen m after id := by
  obtain ⟨lost, loans, sound'⟩ := change.sound
  cases change.visit id with
  | aside live peak _ =>
    refine ⟨⟨[], .of_eq live⟩, fun below => ?_⟩
    rw [spent, live, peak]
    exact (Nat.max_eq_left below).symm
  | @turned p q goneIn newIn found found' goneHere newHere turn =>
    subst goneHere newHere
    obtain rfl := issuedBy_nil keeps
    have spends := sound'.footprint_spent found'
    rw [spent, liveIn_eq found'] at spends
    constructor
    · rw [liveIn_eq found, liveIn_eq found']
      obtain ⟨kept, before, behind⟩ := turn.split
      exact ⟨newIn, behind.trans (before.symm.append_left _)⟩
    · rw [spent, spent, peak_eq found, peak_eq found', liveIn_eq found, liveIn_eq found', ← spends]
      intro below
      cases turn with
      | steady _ live peak _ =>
        rw [spends, live, peak]
        exact (Nat.max_eq_left below).symm
      | issued _ _ _ peak => exact peak
      | deferred _ _ heap _ =>
        rw [spends, heap]
        exact (Nat.max_eq_left below).symm
  | @ended p q found found' goneHere newHere live peak =>
    rw [goneHere] at keeps
    have nothing := issuedBy_nil keeps
    refine ⟨⟨[], ?_⟩, fun below => ?_⟩
    · rw [liveIn_eq found, liveIn_eq found', nothing, live]
      exact .refl _
    · rw [spent, peak_eq found, peak_eq found', liveIn_eq found', live, peak]
      exact (Nat.max_eq_left (Nat.zero_le _)).symm

/-- A change that adds no block to a pool leaves its peak alone. -/
theorem Change.fallen (change : Change m after gone new written)
    (adds : ∀ b ∈ new, b.owner ≠ some id) : Fallen m after id := by
  cases change.visit id with
  | aside live peak _ => exact ⟨⟨[], .of_eq live.symm⟩, peak⟩
  | @turned p q goneIn newIn found found' goneHere newHere turn =>
    subst goneHere newHere
    obtain rfl := issuedBy_nil adds
    constructor
    · rw [liveIn_eq found, liveIn_eq found']
      obtain ⟨kept, before, behind⟩ := turn.split
      exact ⟨goneIn, before.trans (behind.symm.append_left _)⟩
    · rw [peak_eq found, peak_eq found']
      cases turn with
      | steady _ _ peak _ => exact peak
      | released _ _ _ peak _ => exact peak
      | deferred _ _ heap _ => rw [heap]
  | @ended p q found found' _ _ live peak =>
    constructor
    · rw [liveIn_eq found, liveIn_eq found', live]
      exact ⟨p.heap.live, by rw [List.append_nil]⟩
    · rw [peak_eq found, peak_eq found', peak]

theorem Course.risen {may : Machine → List Block → List Block → List Span → Prop}
    (course : Course may m after)
    (keeps : ∀ s gone new written, may s gone new written → ∀ b ∈ gone, b.owner ≠ some id) :
    Risen m after id := by
  induction course with
  | refl => exact .refl
  | tail _ step ih =>
    obtain ⟨gone, new, written, change, allowed⟩ := step
    exact ih.trans (change.risen (keeps _ _ _ _ allowed))

theorem Course.fallen {may : Machine → List Block → List Block → List Span → Prop}
    (course : Course may m after)
    (adds : ∀ s gone new written, may s gone new written → ∀ b ∈ new, b.owner ≠ some id) :
    Fallen m after id := by
  induction course with
  | refl => exact .refl
  | tail _ step ih =>
    obtain ⟨gone, new, written, change, allowed⟩ := step
    exact ih.trans (change.fallen (adds _ _ _ _ allowed))

end Machine

end PooledMemory
