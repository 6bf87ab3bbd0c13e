import PooledMemory.Proofs.Machine.GivingBack
import PooledMemory.Proofs.Machine.Registers

namespace PooledMemory

namespace Pool

/-- What destruction makes of a pool. Only a live one is concerned, and one that has to keep its
blocks waits for them. -/
inductive Retired (p : Pool) : Pool → Prop
  | settled : p.phase ≠ .live → Retired p p
  | ended {heap : Heap} : p.phase = .live → p.heap.live = [] ∨ p.keepsBlocks = false →
    heap.Vacant → Retired p { p with phase := .destroyed, heap }
  | waits : p.phase = .live → p.heap.live ≠ [] → p.keepsBlocks = true →
    Retired p { p with phase := .deletePending }

variable {p q r : Pool}

theorem Retired.remains (retired : p.Retired q) : p.Remains q := by
  cases retired with
  | settled => exact ⟨rfl, rfl, rfl⟩
  | ended => exact ⟨rfl, rfl, rfl⟩
  | waits => exact ⟨rfl, rfl, rfl⟩

theorem Retired.not_live (retired : p.Retired q) : q.phase ≠ .live := by
  cases retired with
  | settled dead => exact dead
  | ended => exact nofun
  | waits => exact nofun

/-- A pool is destroyed only once. -/
theorem Retired.eq_of_not_live (retired : p.Retired q) (dead : p.phase ≠ .live) : q = p := by
  cases retired with
  | settled => rfl
  | ended isLive => exact absurd isLive dead
  | waits isLive => exact absurd isLive dead

theorem Retired.trans (first : p.Retired q) (second : q.Retired r) : p.Retired r :=
  second.eq_of_not_live first.not_live ▸ first

/-- What becomes of a pool that is destroyed on a condition. -/
structure RetiredIf (chosen : Prop) (p q : Pool) : Prop where
  retired : chosen → p.Retired q
  kept : ¬ chosen → q = p

variable {chosen chosen' : Prop}

theorem RetiredIf.either (fate : RetiredIf chosen p q) : p.Retired q ∨ q = p := by
  by_cases now : chosen
  · exact .inl (fate.retired now)
  · exact .inr (fate.kept now)

theorem RetiredIf.remains (fate : RetiredIf chosen p q) : p.Remains q := by
  rcases fate.either with retired | rfl
  · exact retired.remains
  · exact ⟨rfl, rfl, rfl⟩

theorem RetiredIf.eq_of_not_live (fate : RetiredIf chosen p q) (dead : p.phase ≠ .live) : q = p :=
  fate.either.elim (·.eq_of_not_live dead) fun same => same

theorem RetiredIf.trans (first : RetiredIf chosen p q) (second : RetiredIf chosen' q r) :
    RetiredIf (chosen ∨ chosen') p r where
  retired := by
    intro either
    by_cases now : chosen
    · rcases second.either with again | rfl
      · exact (first.retired now).trans again
      · exact first.retired now
    · obtain rfl := first.kept now
      exact second.retired (either.resolve_left now)
  kept := by
    intro neither
    obtain ⟨now, later⟩ := not_or.1 neither
    exact (second.kept later).trans (first.kept now)

/-- The memory goes back with the pool and not before. -/
theorem RetiredIf.holdings (fate : RetiredIf chosen p q)
    (vacant : p.phase = .destroyed → p.heap.Vacant) :
    q.heap.holdings = if q.phase = .destroyed then [] else p.heap.holdings := by
  have still : p.heap.holdings = if p.phase = .destroyed then [] else p.heap.holdings := by
    split
    · rename_i ended
      exact (vacant ended).holdings
    · rfl
  rcases fate.either with retired | rfl
  · cases retired with
    | settled => exact still
    | ended _ _ nothing => exact nothing.holdings
    | waits => rfl
  · exact still

end Pool

namespace Machine

/-- Destruction of the chosen pools, if they are live. Other pools and the content of all memory stay
as they are, and nothing is dropped. Exactly the blocks of pools that have ended lose their tags. -/
structure Retires (chosen : Pool → Prop) (m after : Machine) : Prop where
  pools : ∃ become : Pool → Pool, after.pools = m.pools.map become ∧
    ∀ p ∈ m.pools, Pool.RetiredIf (chosen p) p (become p)
  tags : ∀ addr, after.tags.get? addr =
    (m.tags.get? addr).filter fun tag => !decide (after.HasEnded tag.pool)
  bytes : after.system.bytes = m.system.bytes
  nextId : after.nextId = m.nextId
  marks : after.marks = m.marks
  dropped : after.dropped = m.dropped

/-- Destruction also takes the pools that have ended, and no others, off the list and returns all
that they have held, and nothing else, to the system heap. -/
structure Destroys (chosen : Pool → Prop) (m after : Machine) : Prop
    extends Retires chosen m after where
  listed : ∀ id, id ∈ after.roster ↔ id ∈ m.roster ∧ ¬ after.HasEnded id
  returned : m.system.blocks.Perm
    ((m.pools.filter (after.HasEnded ·.id)).flatMap (·.heap.holdings) ++ after.system.blocks)

/-- A pool that waits for its blocks ends as soon as all of them are given back, in whatever order and
in whatever way. -/
def Finishes (m : Machine) (id : PoolId) : Prop :=
  ∀ p ∈ m.pools, p.id = id → p.phase = .deletePending → ∀ (calls : List Call)
    (blocks : List LiveBlock), blocks.Perm p.heap.live →
    List.Forall₂ (fun c b => c.GivesBack m.marks id b.addr) calls blocks →
    Call.allServed calls m ∧ (Call.runAll calls m).HasEnded id

/-- What comes of a pool when its handle is dropped, or when a thread ends. -/
structure Destruction (m : Machine) (p : Pool) : Prop where
  /-- Dropping the handle is a fault only if blocks of the pool are live, the pool must not release
  them and does not wait for them of its own accord, and no other fault is unwinding. The pool waits
  for its blocks then. -/
  dropped : ∀ caller, ∃ after, m.Destroys (·.id = p.id) after ∧ (p.phase ≠ .live → after = m) ∧
    after.threads =
      (if p.phase = .live then forgetting m.threads caller.thread (some p.id) else m.threads) ∧
    m.dropPool caller p.id =
      ⟨if p.phase = .live ∧ p.heap.live ≠ [] ∧ p.settings.policy = .mustNotReleaseBlocks ∧
          p.settings.lazy = false ∧ caller.unwinding = false then
        .error (.droppedWithBlocks p.id p.heap.live.length)
      else .ok (), after.updatePool p.id ({ · with held := false })⟩
  /-- The pools of a thread that ends are destroyed with it, and so is its register. -/
  exited : ∀ thread, m.Destroys (·.owner = some thread) (m.exitThread thread) ∧
    (m.exitThread thread).threads = (fun t => if t = thread then .empty else m.threads t) ∧
    ((∀ q ∈ m.pools, q.owner = some thread → q.phase ≠ .live) →
      m.exitThread thread = m.updateRegister thread fun _ => .empty)
  finishes : (∀ caller, (m.dropPool caller p.id).machine.Finishes p.id) ∧
    ∀ thread, (m.exitThread thread).Finishes p.id

variable {m middle after : Machine} {lost lost' : List (Address × PoolId)} {loans : List SystemBlock}
  {id : PoolId} {p q : Pool} {chosen chosen' : Pool → Prop}

/-- The owner of a recorded block has not ended. -/
theorem Sound.not_hasEnded_of_owner (sound : m.Sound lost loans) (enrolled : m.Enrolled)
    {addr : Address} (owned : m.owner? addr = some id) : ¬ m.HasEnded id := by
  obtain ⟨p, b, found, start⟩ := sound.live_of_owner? owned
  obtain ⟨inPools, rfl⟩ := pool?_mem found
  intro ended
  have live := (Heap.block?_mem start).1
  rw [(enrolled.vacant p inPools ((sound.hasEnded_iff inPools).1 ended)).live] at live
  cases live

theorem Sound.filter_tags (sound : m.Sound lost loans) (enrolled : m.Enrolled) (addr : Address) :
    (m.tags.get? addr).filter (fun tag => !decide (m.HasEnded tag.pool)) = m.tags.get? addr := by
  cases recorded : m.tags.get? addr with
  | none => rfl
  | some tag =>
    refine Option.filter_some_pos ?_
    suffices ¬ m.HasEnded tag.pool by simpa using this
    have owned : m.owner? addr = some tag.pool := by
      rw [Machine.owner?, TagTable.owner?, recorded]
      rfl
    exact sound.not_hasEnded_of_owner enrolled owned

theorem Retires.hasEnded (retires : m.Retires chosen after) (ended : m.HasEnded id) :
    after.HasEnded id := by
  obtain ⟨p, inPools, number, phase⟩ := ended
  obtain ⟨become, pools, fates⟩ := retires.pools
  have dead : p.phase ≠ .live := phase ▸ nofun
  refine ⟨p, ?_, number, phase⟩
  rw [pools]
  exact List.mem_map.2 ⟨p, inPools, (fates p inPools).eq_of_not_live dead⟩

theorem Sound.retires_none (sound : m.Sound lost loans) (enrolled : m.Enrolled)
    (none : ∀ p ∈ m.pools, chosen p → p.phase ≠ .live) : m.Retires chosen m where
  pools := ⟨fun p => p, (List.map_id _).symm,
    fun p inPools => ⟨fun isChosen => .settled (none p inPools isChosen), fun _ => rfl⟩⟩
  tags := fun addr => (sound.filter_tags enrolled addr).symm
  bytes := rfl
  nextId := rfl
  marks := rfl
  dropped := rfl

theorem Retires.trans (first : m.Retires chosen middle) (second : middle.Retires chosen' after)
    (stays : ∀ p q, p.Remains q → (chosen' q ↔ chosen' p)) :
    m.Retires (fun p => chosen p ∨ chosen' p) after := by
  obtain ⟨become, pools, fates⟩ := first.pools
  obtain ⟨become', pools', fates'⟩ := second.pools
  refine ⟨⟨become' ∘ become, ?_, fun p inPools => ?_⟩, fun addr => ?_,
    second.bytes.trans first.bytes, second.nextId.trans first.nextId,
    second.marks.trans first.marks, second.dropped.trans first.dropped⟩
  · rw [pools', pools, List.map_map]
  · have fate := fates p inPools
    have fate' := fates' (become p) (pools ▸ List.mem_map_of_mem inPools)
    rw [stays p (become p) fate.remains] at fate'
    exact fate.trans fate'
  · rw [second.tags, first.tags, Option.filter_filter]
    congr 1
    funext tag
    have later : ¬ after.HasEnded tag.pool → ¬ middle.HasEnded tag.pool := mt second.hasEnded
    simpa using later

/-- Exactly the tags of the blocks that a pool has issued are taken off with it. -/
theorem Sound.get?_removeAll (sound : m.Sound lost loans) (found : m.pool? p.id = some p)
    (addr : Address) : (m.tags.removeAll (p.heap.live.map (·.addr))).get? addr =
      (m.tags.get? addr).filter (·.pool != p.id) := by
  obtain ⟨inPools, _⟩ := pool?_mem found
  obtain ⟨tags, removed⟩ := sound.tags.removeAll (p.heap.live.map (·.addr))
  have own : ∀ tag, (addr, tag) ∈ m.tags.toList →
      ((!(p.heap.live.map (·.addr)).contains addr) = (tag.pool != p.id)) := by
    intro tag member
    have owned := sound.tags.owner?_eq_some_iff.2 ⟨tag, member, rfl⟩
    have issued : addr ∈ p.heap.live.map (·.addr) ↔ tag.pool = p.id := by
      refine ⟨fun own => ?_, fun same => ?_⟩
      · obtain ⟨b, live, start⟩ := List.mem_map.1 own
        exact (sound.owner_unique ⟨p, inPools, rfl, b, live, start⟩ owned).symm
      · obtain ⟨q, b, found', start⟩ := sound.live_of_owner? owned
        cases found.symm.trans (same ▸ found')
        obtain ⟨live, rfl⟩ := Heap.block?_mem start
        exact List.mem_map_of_mem live
    rw [Bool.eq_iff_iff]
    simp [← issued]
  refine Option.ext fun tag => ?_
  rw [tags.get?_eq_some_iff, removed.mem_iff, List.mem_filter, Option.filter_eq_some_iff,
    sound.tags.get?_eq_some_iff]
  exact and_congr_right fun member => by rw [own tag member]

theorem Sound.hasEnded_updated {f : Pool → Pool} (sound : m.Sound lost loans)
    (found : m.pool? p.id = some p) (pools : after.pools = (m.updatePool p.id f).pools)
    (number : (f p).id = p.id) : after.HasEnded id ↔
      if id = p.id then (f p).phase = .destroyed else m.HasEnded id := by
  obtain ⟨inPools, _⟩ := pool?_mem found
  have inAfter : ∀ q, q ∈ after.pools ↔ ∃ r ∈ m.pools, (if r.id = p.id then f r else r) = q := by
    rw [pools]
    exact fun q => List.mem_map
  split
  · rename_i here
    refine ⟨fun ⟨q, member, number', ended⟩ => ?_, fun ended => ?_⟩
    · obtain ⟨r, member', rfl⟩ := (inAfter q).1 member
      by_cases same : r.id = p.id
      · obtain rfl := sound.eq_of_id member' inPools same
        rwa [if_pos rfl] at ended
      · rw [if_neg same] at number'
        exact absurd (number'.trans here) same
    · exact ⟨f p, (inAfter _).2 ⟨p, inPools, if_pos rfl⟩, number.trans here.symm, ended⟩
  · rename_i other
    refine ⟨fun ⟨q, member, number', ended⟩ => ?_, fun ⟨q, member, number', ended⟩ => ?_⟩
    · obtain ⟨r, member', rfl⟩ := (inAfter q).1 member
      by_cases same : r.id = p.id
      · obtain rfl := sound.eq_of_id member' inPools same
        rw [if_pos rfl, number] at number'
        exact absurd number'.symm other
      · rw [if_neg same] at number' ended
        exact ⟨r, member', number', ended⟩
    · have different : q.id ≠ p.id := fun same => other (number'.symm.trans same)
      exact ⟨q, (inAfter q).2 ⟨q, member, if_neg different⟩, number', ended⟩

/-- One pool is retired, with the tags of its blocks if it ends. -/
theorem Sound.retires_one {f : Pool → Pool} (sound : m.Sound lost loans) (enrolled : m.Enrolled)
    (found : m.pool? p.id = some p) (pools : after.pools = (m.updatePool p.id f).pools)
    (retired : p.Retired (f p))
    (tags : after.tags = if (f p).phase = .destroyed then
      m.tags.removeAll (p.heap.live.map (·.addr)) else m.tags)
    (bytes : after.system.bytes = m.system.bytes) (nextId : after.nextId = m.nextId)
    (marks : after.marks = m.marks) (dropped : after.dropped = m.dropped) :
    m.Retires (·.id = p.id) after := by
  obtain ⟨inPools, _⟩ := pool?_mem found
  refine ⟨⟨_, pools, fun q member => ⟨fun here => ?_, fun other => if_neg other⟩⟩, fun addr => ?_,
    bytes, nextId, marks, dropped⟩
  · rw [if_pos here, sound.eq_of_id member inPools here]
    exact retired
  · have ended : ∀ id, after.HasEnded id ↔
        if id = p.id then (f p).phase = .destroyed else m.HasEnded id :=
      fun id => sound.hasEnded_updated found pools retired.remains.id
    have recorded := sound.filter_tags enrolled addr
    rw [tags]
    split
    · rename_i phase
      rw [sound.get?_removeAll found, ← recorded, Option.filter_filter, Option.filter_filter]
      congr 1
      funext tag
      by_cases here : tag.pool = p.id
      · simp [ended, here, phase]
      · simp [ended, here]
    · rename_i phase
      rw [← recorded, Option.filter_filter]
      congr 1
      funext tag
      by_cases here : tag.pool = p.id
      · simp [ended, here, phase]
      · simp [ended, here]

theorem Sound.retire_retires (sound : m.Sound lost loans) (enrolled : m.Enrolled) (caller : Caller)
    (id : PoolId) : m.Retires (·.id = id) (m.retire caller id).2 := by
  unfold Machine.retire
  cases found : m.pool? id with
  | none =>
    refine sound.retires_none enrolled fun p inPools number => ?_
    rw [← number, sound.pool?_eq inPools] at found
    cases found
  | some p =>
    obtain ⟨inPools, rfl⟩ := pool?_mem found
    by_cases dead : p.phase ≠ .live
    · simp only [if_pos dead]
      exact sound.retires_none enrolled fun q inPools' same =>
        sound.eq_of_id inPools' inPools same ▸ dead
    have isLive : p.phase = .live := not_not.1 dead
    by_cases waits : 0 < p.heap.live.length ∧ p.keepsBlocks
    · simp only [if_neg dead, if_pos waits, clearCurrent_threads]
      exact sound.retires_one (f := ({ · with phase := .deletePending })) enrolled found rfl
        (.waits isLive (List.ne_nil_of_length_pos waits.1) waits.2) rfl rfl rfl rfl rfl
    · simp only [if_neg dead, if_neg waits]
      obtain ⟨threads, same⟩ := destroy_eq m caller p
      rw [same]
      obtain ⟨_, live, segments, parked, _⟩ := (sound.heap found).releaseAll
      have free : p.heap.live = [] ∨ p.keepsBlocks = false := by
        simpa [List.length_pos_iff, or_iff_not_imp_left] using waits
      exact sound.retires_one (f := Pool.emptied (p.heap.releaseAll m.system).1) enrolled found rfl
        (.ended isLive free ⟨segments, parked, live⟩) rfl (Heap.releaseAll_bytes _ _) rfl rfl rfl

/-- What has been lost of the records stays lost, and no more is. -/
theorem Sound.retire_kept (sound : m.Sound lost loans) (enrolled : m.Enrolled) (caller : Caller)
    (id : PoolId) : ∃ lost' ⊆ lost,
      (m.retire caller id).2.Sound lost' loans ∧ (m.retire caller id).2.Enrolled := by
  obtain ⟨lost', fewer, sound'⟩ := sound.retire caller id
  obtain ⟨_, change, _⟩ := sound.retire_change caller id
  exact ⟨lost', fewer, sound', (sound.change_enrolled enrolled change).1⟩

theorem Sound.retire_enrolled (sound : m.Sound [] loans) (enrolled : m.Enrolled) (caller : Caller)
    (id : PoolId) :
    (m.retire caller id).2.Sound [] loans ∧ (m.retire caller id).2.Enrolled := by
  obtain ⟨lost, fewer, kept⟩ := sound.retire_kept enrolled caller id
  obtain rfl := List.subset_nil.1 fewer
  exact kept

/-- Choosing pools that are not live, or not choosing them, comes to the same. -/
theorem Retires.of_live (retires : m.Retires chosen after)
    (same : ∀ p ∈ m.pools, p.phase = .live → (chosen p ↔ chosen' p)) : m.Retires chosen' after := by
  obtain ⟨become, pools, fates⟩ := retires.pools
  refine ⟨⟨become, pools, fun p inPools => ?_⟩, retires.tags, retires.bytes, retires.nextId,
    retires.marks, retires.dropped⟩
  by_cases isLive : p.phase = .live
  · rw [← same p inPools isLive]
    exact fates p inPools
  · rw [(fates p inPools).eq_of_not_live isLive]
    exact ⟨fun _ => .settled isLive, fun _ => rfl⟩

theorem Sound.retireAll_retires (sound : m.Sound lost loans) (enrolled : m.Enrolled) (caller : Caller)
    (owned : List Pool) : m.Retires (·.id ∈ owned.map (·.id))
      (owned.foldl (fun m p => (m.retire caller p.id).2) m) := by
  induction owned generalizing m lost with
  | nil => exact sound.retires_none enrolled nofun
  | cons p others ih =>
    obtain ⟨_, _, sound', enrolled'⟩ := sound.retire_kept enrolled caller p.id
    have first := sound.retire_retires enrolled caller p.id
    have all := first.trans (ih sound' enrolled') fun p q remains => by rw [remains.id]
    exact all.of_live fun q _ _ => by rw [List.map_cons, List.mem_cons]

theorem Sound.exitThread_retires (sound : m.Sound lost loans) (enrolled : m.Enrolled)
    (thread : ThreadId) : m.Retires (·.owner = some thread) (m.exitThread thread) := by
  let owned := m.listedPools.filter fun p => p.owner == some thread && p.phase == .live
  have listed : ∀ p, p ∈ owned ↔ p ∈ m.pools ∧ p.owner = some thread ∧ p.phase = .live := by
    intro p
    rw [List.mem_filter, (sound.listed_perm enrolled).mem_iff, List.mem_filter]
    constructor
    · rintro ⟨⟨inPools, _⟩, mine⟩
      exact ⟨inPools, by simpa using mine⟩
    · rintro ⟨inPools, owner, isLive⟩
      exact ⟨⟨inPools, by simp [isLive]⟩, by simp [owner, isLive]⟩
  have retires : m.Retires (·.id ∈ owned.map (·.id)) (if owned.isEmpty then m else
      owned.foldl (fun m p => (m.retire { thread, nested := true } p.id).2)
        (m.note (.threadReaped thread owned.length))) := by
    split
    · rename_i nothing
      rw [List.isEmpty_iff.1 nothing]
      exact sound.retires_none enrolled nofun
    · obtain ⟨pools, tags, bytes, nextId, marks, dropped⟩ :=
        (sound.note (.threadReaped thread owned.length)).retireAll_retires
          ⟨enrolled.listed, enrolled.pending, enrolled.vacant⟩ { thread, nested := true } owned
      exact ⟨pools, tags, bytes, nextId, marks, dropped⟩
  have mine : ∀ p ∈ m.pools, p.phase = .live →
      (p.id ∈ owned.map (·.id) ↔ p.owner = some thread) := by
    intro p inPools isLive
    refine ⟨fun member => ?_, fun owner => ?_⟩
    · obtain ⟨q, member', number⟩ := List.mem_map.1 member
      obtain ⟨inPools', owner, _⟩ := (listed q).1 member'
      exact sound.eq_of_id inPools' inPools number ▸ owner
    · exact List.mem_map_of_mem ((listed p).2 ⟨inPools, owner, isLive⟩)
  obtain ⟨pools, tags, bytes, nextId, marks, dropped⟩ := retires.of_live mine
  exact ⟨pools, tags, bytes, nextId, marks, dropped⟩

section

variable {become : Pool → Pool} (pools : after.pools = m.pools.map become)
  (fates : ∀ p ∈ m.pools, p.RetiredIf (chosen p) (become p))

include pools fates

theorem Sound.hasEnded_become (sound' : after.Sound lost' loans) (inPools : p ∈ m.pools) :
    after.HasEnded p.id ↔ (become p).phase = .destroyed := by
  rw [← (fates p inPools).remains.id]
  exact sound'.hasEnded_iff (pools ▸ List.mem_map_of_mem inPools)

/-- Pools hold what those have held that go on. -/
theorem Sound.holdings_become (sound' : after.Sound lost' loans) (enrolled : m.Enrolled) :
    after.pools.flatMap (·.heap.holdings) =
      (m.pools.filter fun p => !decide (after.HasEnded p.id)).flatMap (·.heap.holdings) := by
  have each : ∀ p ∈ m.pools, (become p).heap.holdings =
      if after.HasEnded p.id then [] else p.heap.holdings := fun p inPools => by
    rw [(fates p inPools).holdings (enrolled.vacant p inPools)]
    simp only [sound'.hasEnded_become pools fates inPools]
  have vanish : ∀ p ∈ m.pools, (!decide (after.HasEnded p.id)) = false →
      (become p).heap.holdings = [] := fun p inPools gone => by
    rw [each p inPools, if_pos (by simpa using gone)]
  rw [pools, List.flatMap_map, ← Keyed.flatMap_filter vanish]
  refine List.flatMap_congr fun p member => ?_
  obtain ⟨inPools, stands⟩ := List.mem_filter.1 member
  rw [each p inPools, if_neg (by simpa using stands)]

end

/-- What destruction makes of pools tells what goes back and what leaves the list. -/
theorem Retires.destroys (retires : m.Retires chosen after) (sound : m.Sound lost loans)
    (enrolled : m.Enrolled) (sound' : after.Sound lost' loans) (enrolled' : after.Enrolled) :
    m.Destroys chosen after := by
  obtain ⟨become, pools, fates⟩ := retires.pools
  refine ⟨retires, fun id => ?_, ?_⟩
  · rw [enrolled.mem_roster, enrolled'.mem_roster, pools]
    constructor
    · rintro ⟨_, member, stands, rfl⟩
      obtain ⟨p, inPools, rfl⟩ := List.mem_map.1 member
      have stands' : ¬ after.HasEnded p.id := mt (sound'.hasEnded_become pools fates inPools).1 stands
      rw [(fates p inPools).remains.id]
      exact ⟨⟨p, inPools, fun phase => stands' (retires.hasEnded ⟨p, inPools, rfl, phase⟩), rfl⟩,
        stands'⟩
    · rintro ⟨⟨p, inPools, _, rfl⟩, stands⟩
      exact ⟨become p, List.mem_map_of_mem inPools,
        mt (sound'.hasEnded_become pools fates inPools).2 stands, (fates p inPools).remains.id⟩
  · have split := (List.filter_append_perm (fun p : Pool => decide (after.HasEnded p.id))
      m.pools).symm.flatMap_right (·.heap.holdings)
    rw [List.flatMap_append, ← sound'.holdings_become pools fates enrolled] at split
    refine (sound.held.trans (split.append_right loans)).trans ?_
    rw [List.append_assoc]
    exact sound'.held.symm.append_left _

/-- What retiring a pool answers, and what the thread remembers then. -/
theorem Sound.retire_answers (sound : m.Sound lost loans) (caller : Caller) (inPools : p ∈ m.pools) :
    ((m.retire caller p.id).1 = if p.phase = .live ∧ p.heap.live ≠ [] ∧ p.keepsBlocks = true then
        some p.heap.live.length else none) ∧
      (p.phase ≠ .live → (m.retire caller p.id).2 = m) ∧
      (m.retire caller p.id).2.threads =
        if p.phase = .live then forgetting m.threads caller.thread (some p.id) else m.threads := by
  unfold Machine.retire
  simp only [sound.pool?_eq inPools, List.length_pos_iff]
  by_cases isLive : p.phase = .live
  · by_cases waits : p.heap.live ≠ [] ∧ p.keepsBlocks = true
    · simp only [isLive, waits, ne_eq, not_true_eq_false, if_false, not_false_eq_true, and_self,
        if_true, clearCurrent_threads, false_imp_iff, true_and]
      rfl
    · simp only [isLive, waits, ne_eq, not_true_eq_false, if_false, and_false, if_true,
        false_imp_iff, true_and]
      exact congrArg Machine.threads (destroy_threads m p m.threads caller caller)
  · simp [isLive]

theorem Sound.dropPool_eq (sound : m.Sound lost loans) (caller : Caller) (inPools : p ∈ m.pools) :
    m.dropPool caller p.id =
      ⟨if p.phase = .live ∧ p.heap.live ≠ [] ∧ p.settings.policy = .mustNotReleaseBlocks ∧
          p.settings.lazy = false ∧ caller.unwinding = false then
        .error (.droppedWithBlocks p.id p.heap.live.length)
      else .ok (), (m.retire caller p.id).2.updatePool p.id ({ · with held := false })⟩ := by
  obtain ⟨answer, _⟩ := sound.retire_answers caller inPools
  unfold Machine.dropPool
  simp only [answer, sound.pool?_eq inPools, Option.map_some, Option.getD_some]
  by_cases waits : p.phase = .live ∧ p.heap.live ≠ [] ∧ p.keepsBlocks = true
  · obtain ⟨isLive, occupied, keeps⟩ := waits
    cases lazy : p.settings.lazy with
    | true => simp [isLive, occupied, keeps, Outcome.ok]
    | false =>
      have must : p.settings.policy = .mustNotReleaseBlocks := by
        simpa [Pool.keepsBlocks, lazy] using keeps
      cases unwinding : caller.unwinding with
      | true => simp [isLive, occupied, keeps, Outcome.ok]
      | false => simp [isLive, occupied, keeps, must, Outcome.stop]
  · have free : ¬ (p.phase = .live ∧ p.heap.live ≠ [] ∧
        p.settings.policy = .mustNotReleaseBlocks ∧ p.settings.lazy = false ∧
        caller.unwinding = false) := by
      rintro ⟨isLive, occupied, must, _⟩
      exact waits ⟨isLive, occupied, by simp [Pool.keepsBlocks, must]⟩
    rw [if_neg waits, if_neg free]
    rfl

theorem Reachable.finishes (reached : Reachable m) (id : PoolId) : m.Finishes id := by
  intro p inPools number waits calls blocks perm give
  subst number
  induction calls generalizing m p blocks with
  | nil =>
    cases give
    exact absurd perm.symm.eq_nil (reached.enrolled.pending p inPools waits)
  | cons c rest ih =>
    obtain ⟨b, others, gives, giveRest, rfl⟩ := List.forall₂_cons_left_iff.1 give
    have live : b ∈ p.heap.live := perm.subset (List.mem_cons_self ..)
    obtain ⟨loans, sound⟩ := reached.sound
    have found := sound.pool?_eq inPools
    obtain ⟨caller, dropped, step, released, frees, runs⟩ := sound.givesBack inPools live gives
    have reached' := reached.step c (proper_of_givesBack inPools live gives)
    have left : others.Perm step.heap.live := by
      rw [frees.live]
      exact (perm.trans ((sound.heap found).live_perm ((sound.heap found).block?_eq live))).cons_inv
    have stored : (m.relieved p.id b.addr step dropped).pool? p.id =
        some { p with heap := step.heap } := pool?_relieved dropped found
    by_cases last : step.heap.live = []
    · rw [if_pos ⟨waits, last⟩] at runs
      rw [last] at left
      cases left.eq_nil
      cases giveRest
      refine ⟨⟨congrArg (·.answer) runs, trivial⟩, ?_⟩
      rw [Call.runAll, List.foldl_cons, List.foldl_nil, runs]
      exact hasEnded_destroy caller (pool?_mem stored).1
    · rw [if_neg fun both => last both.2] at runs
      have next : (c.run m).machine = m.relieved p.id b.addr step dropped :=
        congrArg (·.machine) runs
      rw [next] at reached'
      obtain ⟨served, ended⟩ := ih reached' _ (pool?_mem stored).1 waits _ left giveRest
      refine ⟨⟨congrArg (·.answer) runs, next ▸ served⟩, ?_⟩
      rw [Call.runAll, List.foldl_cons, next]
      exact ended

/-- In all states that programs reach, a pool is destroyed as its phase, its live blocks and its
settings demand. -/
theorem Reachable.destruction (reached : Reachable m) (inPools : p ∈ m.pools) :
    m.Destruction p := by
  obtain ⟨loans, sound⟩ := reached.sound
  have enrolled := reached.enrolled
  refine ⟨fun caller => ?_, fun thread => ?_, fun caller => ?_, fun thread => ?_⟩
  · obtain ⟨sound', enrolled'⟩ := sound.retire_enrolled enrolled caller p.id
    obtain ⟨_, settled, threads⟩ := sound.retire_answers caller inPools
    exact ⟨(m.retire caller p.id).2, (sound.retire_retires enrolled caller p.id).destroys sound
      enrolled sound' enrolled', settled, threads, sound.dropPool_eq caller inPools⟩
  · obtain ⟨lost, fewer, sound'⟩ := sound.exitThread thread
    obtain rfl := List.subset_nil.1 fewer
    have enrolled' := (reached.step (.exitThread thread) ⟨trivial, nofun, nofun⟩).enrolled
    refine ⟨(sound.exitThread_retires enrolled thread).destroys sound enrolled sound' enrolled',
      ?_, fun none => ?_⟩
    · funext t
      by_cases here : t = thread
      · exact (if_pos here).trans (if_pos here).symm
      · refine ((m.exitThread_keeps thread).others t fun same => here ?_).trans (if_neg here).symm
        exact (Option.some.inj same).symm
    · have nothing : (m.listedPools.filter fun q => q.owner == some thread && q.phase == .live) =
          [] := by
        refine List.filter_eq_nil_iff.2 fun q listed mine => ?_
        rw [(sound.listed_perm enrolled).mem_iff, List.mem_filter] at listed
        obtain ⟨owner, isLive⟩ : q.owner = some thread ∧ q.phase = .live := by simpa using mine
        exact none q listed.1 owner isLive
      simp only [Machine.exitThread, nothing, List.isEmpty_nil, if_true]
  · exact (reached.step (.dropPool caller p.id) ⟨trivial, nofun, nofun⟩).finishes p.id
  · exact (reached.step (.exitThread thread) ⟨trivial, nofun, nofun⟩).finishes p.id

/-- A pool that must not release its blocks, and two of them. -/
def obliged : Machine := Call.runAll
  [.openPool { thread := 0 } { owned := true, policy := .mustNotReleaseBlocks },
    .allocate { thread := 0 } (some 1) (.plain 100), .allocate { thread := 0 } none (.plain 20)]
  (.start [0])

theorem obliged_reachable : Reachable obliged := (Reachable.start [0]).runAll _ (by decide +kernel)

/-- Dropping the handle is a fault, unless another one is unwinding. The pool is left waiting, and its
thread with nothing current. -/
theorem obliged_destruction :
    (∀ unwinding, (obliged.dropPool { thread := 0, unwinding } 1).answer =
      if unwinding then .ok () else .error (.droppedWithBlocks 1 2)) ∧
    (obliged.dropPool { thread := 0 } 1).machine.pools.map (·.phase) = [.deletePending] ∧
    (obliged.threads 0).current = some 1 ∧
    ((obliged.dropPool { thread := 0 } 1).machine.threads 0).current = none ∧
    ∃ p ∈ obliged.pools, p.phase = .live ∧ obliged.Destruction p := by
  obtain ⟨p, inPools, isLive⟩ : ∃ p ∈ obliged.pools, p.phase = .live := by decide +kernel
  exact ⟨by decide +kernel, by decide +kernel, by decide +kernel, by decide +kernel, p, inPools,
    isLive, Reachable.destruction obliged_reachable inPools⟩

end Machine

end PooledMemory
