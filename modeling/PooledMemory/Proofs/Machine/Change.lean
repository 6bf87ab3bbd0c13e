import Mathlib.Logic.Relation
import PooledMemory.Proofs.Heap.Peak
import PooledMemory.Proofs.Machine.Blocks

namespace PooledMemory

/-- Nothing is left in the heap. -/
structure Heap.Vacant (h : Heap) : Prop where
  segments : h.segments = []
  parked : h.parked = []
  live : h.live = []

theorem Heap.Vacant.holdings {h : Heap} (vacant : h.Vacant) : h.holdings = [] := by
  obtain ⟨segments, _, live⟩ := vacant
  rw [Heap.holdings, segments, live]
  rfl

namespace Pool

/-- Two states of one pool. -/
structure Remains (p q : Pool) : Prop where
  id : q.id = p.id
  settings : q.settings = p.settings
  owner : q.owner = p.owner

/-- What one operation makes of a pool that it does not destroy: which live blocks give way to which
others, and what becomes of the phase and the peak. -/
inductive Turn (p q : Pool) : List LiveBlock → List LiveBlock → Prop
  | steady : q.phase = p.phase → q.heap.live = p.heap.live → q.heap.peak = p.heap.peak →
    (p.phase = .destroyed → p.heap.Vacant → q.heap.Vacant) → Turn p q [] []
  | issued {b : LiveBlock} : p.phase = .live → q.phase = .live → q.heap.live = b :: p.heap.live →
    q.heap.peak = max p.heap.peak q.heap.footprint → Turn p q [] [b]
  | resized {b new : LiveBlock} {kept : List LiveBlock} {r : Resized} : q.phase = p.phase →
    p.heap.live.Perm (b :: kept) → q.heap.live.Perm (new :: kept) → new.addr = r.addr →
    p.heap.Paces b new.size r q.heap → Turn p q [b] [new]
  | released {b : LiveBlock} {kept : List LiveBlock} : q.phase = p.phase →
    p.heap.live.Perm (b :: kept) → q.heap.live.Perm kept → q.heap.peak = p.heap.peak →
    (p.phase = .deletePending → q.heap.live ≠ []) → Turn p q [b] []
  | deferred : p.phase = .live → q.phase = .deletePending → q.heap = p.heap → p.heap.live ≠ [] →
    Turn p q [] []

theorem Turn.split {p q : Pool} {gone new : List LiveBlock} (turn : p.Turn q gone new) :
    ∃ kept, p.heap.live.Perm (gone ++ kept) ∧ q.heap.live.Perm (new ++ kept) := by
  cases turn with
  | steady _ live => exact ⟨p.heap.live, .refl _, .of_eq live⟩
  | issued _ _ live => exact ⟨p.heap.live, .refl _, .of_eq live⟩
  | @resized b new kept _ _ before behind => exact ⟨kept, before, behind⟩
  | @released b kept _ before behind => exact ⟨kept, before, behind⟩
  | deferred _ _ heap => exact ⟨p.heap.live, .refl _, by rw [heap]; exact .refl _⟩

end Pool

namespace Machine

/-- What one operation makes of the list of pools, and which blocks give way to which others. -/
inductive Shift (m after : Machine) : List Block → List Block → Prop
  /-- Only blocks of the system heap come and go. -/
  | still {gone new : List Block} : after.pools = m.pools → after.roster = m.roster →
    after.nextId = m.nextId → (∀ c ∈ gone ++ new, c.owner = none) → Shift m after gone new
  | opened {p : Pool} : after.pools = m.pools ++ [p] → after.roster = m.roster ++ [p.id] →
    p.id = m.nextId → after.nextId = m.nextId + 1 → p.phase = .live →
    p.heap = .empty p.settings.maxSize → Shift m after [] []
  | turned {p q : Pool} {gone new : List LiveBlock} : m.pool? p.id = some p →
    after.pools = (m.updatePool p.id fun _ => q).pools → after.roster = m.roster →
    after.nextId = m.nextId → p.Remains q → p.Turn q gone new →
    Shift m after (gone.map (·.issuedBy p.id)) (new.map (·.issuedBy p.id))
  | ended {p q : Pool} : m.pool? p.id = some p →
    after.pools = (m.updatePool p.id fun _ => q).pools →
    after.roster = swapRemove m.roster p.id → after.nextId = m.nextId → p.Remains q →
    p.phase ≠ .destroyed → q.phase = .destroyed → q.heap.Vacant → q.heap.peak = p.heap.peak →
    Shift m after p.issued []

/-- The pool was opened and has been destroyed. -/
def HasEnded (m : Machine) (id : PoolId) : Prop := ∃ p ∈ m.pools, p.id = id ∧ p.phase = .destroyed

instance (m : Machine) (id : PoolId) : Decidable (m.HasEnded id) :=
  inferInstanceAs (Decidable (∃ p ∈ m.pools, p.id = id ∧ p.phase = .destroyed))

/-- One operation as far as pools, blocks in use and their content are concerned. -/
structure Change (m after : Machine) (gone new : List Block) (written : List Span) : Prop
    extends Exchanges m after gone new written where
  sound : ∃ lost loans, after.Sound lost loans
  shift : Shift m after gone new

variable {m after : Machine} {lost lost' : List (Address × PoolId)}
  {loans loans' : List SystemBlock} {id : PoolId} {p q : Pool}
  {gone new : List LiveBlock} {written : List Span}

theorem Sound.hasEnded_iff (sound : m.Sound lost loans) (inPools : p ∈ m.pools) :
    m.HasEnded p.id ↔ p.phase = .destroyed := by
  refine ⟨fun ⟨q, inPools', same, ended⟩ => ?_, fun ended => ⟨p, inPools, rfl, ended⟩⟩
  exact sound.eq_of_id inPools inPools' same.symm ▸ ended

theorem Sound.issued_perm (sound : m.Sound lost loans) (found : m.pool? id = some p) :
    (m.issued loans).Perm
      (p.issued ++ ((m.others id).flatMap (·.issued) ++ loans.map (·.lent))) := by
  have perm := (sound.pools_perm found).flatMap_right (·.issued)
  rw [List.flatMap_cons] at perm
  rw [issued, ← List.append_assoc]
  exact perm.append_right _

/-- Only one pool has the number, so that a change there can do without looking at the pool. -/
theorem Sound.updatePool_eq (sound : m.Sound lost loans) (found : m.pool? id = some p)
    (f : Pool → Pool) : m.updatePool id f = m.updatePool id fun _ => f p := by
  obtain ⟨inPools, rfl⟩ := pool?_mem found
  have pools : (m.pools.map fun r => if r.id = p.id then f r else r) =
      m.pools.map fun r => if r.id = p.id then f p else r := by
    refine List.map_congr_left fun r member => ?_
    by_cases same : r.id = p.id
    · rw [sound.eq_of_id member inPools same]
    · rw [if_neg same, if_neg same]
  simp only [Machine.updatePool, pools]

theorem Sound.exchanged_pool (sound : m.Sound lost loans) (sound' : after.Sound lost' loans)
    (gone new kept : List LiveBlock) (found : m.pool? p.id = some p)
    (pools : after.pools = (m.updatePool p.id fun _ => q).pools) (remains : p.Remains q)
    (before : p.heap.live.Perm (gone ++ kept))
    (behind : q.heap.live.Perm (new ++ kept))
    (bytes : ∀ x, m.system.Holds x → (∀ b ∈ gone ++ new, ¬ b.span.has x = true) →
      (∀ w ∈ written, ¬ w.has x = true) → after.system.bytes x = m.system.bytes x) :
    Exchanges m after (gone.map (·.issuedBy p.id)) (new.map (·.issuedBy p.id)) written := by
  have others := sound.updatePool_perm found fun _ => q
  rw [← pools] at others
  have issuedAfter : (after.issued loans).Perm
      (q.issued ++ ((m.others p.id).flatMap (·.issued) ++ loans.map (·.lent))) := by
    have perm := others.flatMap_right (·.issued)
    rw [List.flatMap_cons] at perm
    rw [issued, ← List.append_assoc]
    exact perm.append_right _
  have first := before.map (·.issuedBy p.id)
  have second := behind.map (·.issuedBy p.id)
  rw [List.map_append] at first second
  have own : q.issued = q.heap.live.map (·.issuedBy p.id) := by
    rw [Pool.issued, remains.id]
  rw [own] at issuedAfter
  refine sound.exchanges sound' _ _ (kept.map (·.issuedBy p.id) ++
    ((m.others p.id).flatMap (·.issued) ++ loans.map (·.lent))) ?_ ?_ fun x held outside => ?_
  · rw [← List.append_assoc]
    exact (sound.issued_perm found).trans (first.append_right _)
  · rw [← List.append_assoc]
    exact issuedAfter.trans (second.append_right _)
  · refine bytes x held fun b member => ?_
    rw [← List.map_append] at outside
    exact outside _ (List.mem_map_of_mem member)

/-- A pool takes a turn, and the system heap writes to nothing but the blocks concerned. -/
theorem Sound.turned (sound : m.Sound lost loans) (sound' : after.Sound lost' loans)
    (gone new : List LiveBlock)
    (found : m.pool? p.id = some p) (pools : after.pools = (m.updatePool p.id fun _ => q).pools)
    (roster : after.roster = m.roster) (nextId : after.nextId = m.nextId) (remains : p.Remains q)
    (turn : p.Turn q gone new)
    (bytes : ∀ x, m.system.Holds x → (∀ b ∈ gone ++ new, ¬ b.span.has x = true) →
      (∀ w ∈ written, ¬ w.has x = true) → after.system.bytes x = m.system.bytes x) :
    Change m after (gone.map (·.issuedBy p.id)) (new.map (·.issuedBy p.id)) written := by
  obtain ⟨kept, before, behind⟩ := turn.split
  exact ⟨sound.exchanged_pool sound' gone new kept found pools remains before behind bytes,
    ⟨_, _, sound'⟩, .turned found pools roster nextId remains turn⟩

/-- A pool is destroyed with all of its blocks. -/
theorem Sound.ended (sound : m.Sound lost loans) (sound' : after.Sound lost' loans)
    (found : m.pool? p.id = some p) (pools : after.pools = (m.updatePool p.id fun _ => q).pools)
    (roster : after.roster = swapRemove m.roster p.id) (nextId : after.nextId = m.nextId)
    (remains : p.Remains q) (before : p.phase ≠ .destroyed) (behind : q.phase = .destroyed)
    (vacant : q.heap.Vacant) (peak : q.heap.peak = p.heap.peak)
    (bytes : ∀ x, (∀ b ∈ p.heap.live, ¬ b.span.has x = true) →
      after.system.bytes x = m.system.bytes x) :
    Change m after p.issued [] [] := by
  have exchanges : Exchanges m after p.issued [] [] :=
    sound.exchanged_pool sound' p.heap.live [] [] found pools remains (by simp)
      (by simp [vacant.live]) fun x _ outside _ => bytes x (by simpa using outside)
  exact ⟨exchanges, ⟨_, _, sound'⟩,
    .ended found pools roster nextId remains before behind vacant peak⟩

/-- No pool is concerned, but the blocks that callers have from the system heap may be. -/
theorem Sound.still (sound : m.Sound lost loans) (sound' : after.Sound lost' loans')
    (gone new kept : List SystemBlock) (pools : after.pools = m.pools)
    (roster : after.roster = m.roster) (nextId : after.nextId = m.nextId)
    (before : loans.Perm (gone ++ kept)) (behind : loans'.Perm (new ++ kept))
    (bytes : ∀ x, m.system.Holds x → (∀ b ∈ gone ++ new, ¬ b.span.has x = true) →
      (∀ w ∈ written, ¬ w.has x = true) → after.system.bytes x = m.system.bytes x) :
    Change m after (gone.map (·.lent)) (new.map (·.lent)) written := by
  have front : ∀ {all some' : List SystemBlock}, all.Perm (some' ++ kept) →
      (m.pools.flatMap (·.issued) ++ all.map (·.lent)).Perm
        (some'.map (·.lent) ++ (m.pools.flatMap (·.issued) ++ kept.map (·.lent))) := by
    intro all some' perm
    have mapped := perm.map (·.lent)
    rw [List.map_append] at mapped
    exact (mapped.append_left _).trans (List.perm_append_comm_assoc ..)
  refine ⟨sound.exchanges sound' _ _ _ (front before) ?_ fun x held outside => ?_, ⟨_, _, sound'⟩,
    .still pools roster nextId ?_⟩
  · rw [issued, pools]
    exact front behind
  · refine bytes x held fun b member => ?_
    rw [← List.map_append] at outside
    exact outside _ (List.mem_map_of_mem member)
  · rw [← List.map_append]
    refine fun c member => ?_
    obtain ⟨b, _, rfl⟩ := List.mem_map.1 member
    rfl

/-- Nothing that matters to pools and blocks is different. -/
theorem Sound.aside (sound : m.Sound lost loans) (sound' : after.Sound lost' loans)
    (pools : after.pools = m.pools) (roster : after.roster = m.roster)
    (nextId : after.nextId = m.nextId) (bytes : after.system.bytes = m.system.bytes) :
    Change m after [] [] [] :=
  sound.still sound' [] [] loans pools roster nextId (.refl _) (.refl _)
    fun x _ _ _ => congrFun bytes x

/-- Changes that follow each other, each of them allowed by `may`. -/
def Course (may : Machine → List Block → List Block → List Span → Prop) :
    Machine → Machine → Prop :=
  Relation.ReflTransGen fun m after =>
    ∃ gone new written, Change m after gone new written ∧ may after gone new written

variable {middle : Machine} {may may' : Machine → List Block → List Block → List Span → Prop}

theorem Change.course {gone new : List Block} (change : Change m after gone new written)
    (allowed : may after gone new written) :
    Course may m after :=
  .single ⟨gone, new, written, change, allowed⟩

theorem Course.trans (first : Course may m middle) (second : Course may middle after) :
    Course may m after :=
  Relation.ReflTransGen.trans first second

theorem Course.sound (course : Course may m after) (sound : ∃ lost loans, m.Sound lost loans) :
    ∃ lost loans, after.Sound lost loans := by
  induction course with
  | refl => exact sound
  | tail _ step _ =>
    obtain ⟨gone, new, written, change, _⟩ := step
    exact change.sound

theorem Course.mono (course : Course may m after)
    (allows : ∀ after gone new written, may after gone new written → may' after gone new written) :
    Course may' m after :=
  Relation.ReflTransGen.mono (fun _ _ ⟨gone, new, written, change, allowed⟩ =>
    ⟨gone, new, written, change, allows _ _ _ _ allowed⟩) _ _ course

end Machine

end PooledMemory
