import PooledMemory.Proofs.Machine.Peak
import PooledMemory.Proofs.Machine.Room

namespace PooledMemory

open ParkedChunk (Draws Parks)

namespace Pool

variable {refits : Prop} {block : Option Address} {p q : Pool} {new : List Event}

/-- Whatever a pool does during one call, it parks one block at most. -/
theorem Deed.parks (deed : p.Deed refits block q new) :
    ∃ left, Draws p.heap.parked left ∧ Parks left q.heap.parked := by
  cases deed with
  | rests _ same =>
    rw [same]
    exact ⟨_, .nothing, .nothing⟩
  | serves _ _ _ allocated stored _ =>
    rw [stored]
    exact ⟨_, Heap.allocate_draws allocated, .nothing⟩
  | resizes _ _ sound resized stored =>
    rw [stored]
    exact sound.resize_parks resized
  | releases _ sound released stored =>
    rw [stored]
    exact ⟨_, .nothing, sound.release_parks released⟩
  | trims _ _ _ trimmed stored _ =>
    rw [stored, Heap.trim_parked trimmed]
    exact ⟨_, .all, .nothing⟩
  | defers _ _ _ same _ =>
    rw [same]
    exact ⟨_, .nothing, .nothing⟩
  | ends _ _ _ emptied =>
    rw [emptied]
    exact ⟨_, .all, .nothing⟩
  | follows _ _ _ _ _ _ emptied =>
    rw [emptied]
    exact ⟨_, .all, .nothing⟩
  | returns _ draws _ _ sound released stored =>
    rw [stored]
    exact ⟨_, draws, sound.release_parks released⟩

end Pool

namespace Machine

variable {m after : Machine} {refits : PoolId → Prop} {block : Option Address} {id : PoolId}
  {steps : List (Machine × Call)} {p : Pool} {caller : Caller} {named : Option PoolId}
  {request : Request} {addr : Address}

/-- The parked chunks of a pool, none if there is no such pool. -/
def parkedIn (m : Machine) (id : PoolId) : List ParkedChunk :=
  ((m.pool? id).map (·.heap.parked)).getD []

theorem parkedIn_eq (found : m.pool? id = some p) : m.parkedIn id = p.heap.parked := by
  rw [parkedIn, found]
  rfl

theorem Does.parks (does : Does refits block m after) (id : PoolId) :
    ∃ left, Draws (m.parkedIn id) left ∧ Parks left (after.parkedIn id) := by
  obtain ⟨_, _, fate⟩ := does id
  unfold parkedIn
  generalize m.pool? id = before at fate
  generalize after.pool? id = behind at fate
  cases fate with
  | absent => exact ⟨_, .nothing, .nothing⟩
  | opened _ empty =>
    rw [Option.map_some, empty]
    exact ⟨_, .nothing, .nothing⟩
  | goesOn _ deed => exact deed.parks

/-- For how many of the latest states of a run, but for the one that it has come to, a chunk has been
parked. The chunk that was released last has been so for the fewest. -/
def stay (id : PoolId) (c : ParkedChunk) : List (Machine × Call) → Nat
  | [] => 0
  | (m, _) :: before => if c ∈ m.parkedIn id then stay id c before + 1 else 0

/-- The later a chunk is parked, the farther in front it is of the chunks of its size. -/
theorem Trail.stacked (trail : Trail steps m) (id : PoolId) :
    ParkedChunk.Stacked (stay id · steps) (m.parkedIn id) := by
  induction trail with
  | start slots => exact .nil
  | @step m before c trail may ih =>
    obtain ⟨_, _, sound⟩ := trail.attempted.sound
    obtain ⟨left, draws, parks⟩ := (sound.run_does c).parks id
    exact ih.turn draws parks (fun d waits => if_pos waits) fun d absent => if_neg absent

/-- A block that needs no region of its own is placed in the chunk of its size that was released
last, or else at the least address where its pool has room for it, before or after all parked chunks
are moved back, or else at the start of a new segment. Before that, blocks in use and parked chunks take
up room, and after it blocks in use only. -/
theorem Trail.allocate_placement (trail : Trail steps m) (inPools : p ∈ m.pools)
    (isLive : p.phase = .live) (routed : (m.target caller named).1 = .pool p.id)
    (power : Word.isPowerOfTwo request.align = true) (mild : request.align ≤ maxSegmentAlign)
    (small : wholeSize request.size < largeThreshold)
    (answer : (m.allocate caller named request).answer = .ok (.ok addr)) :
    p.heap.Picks (stay p.id · steps) m.system (wholeSize request.size) (max request.align granule)
        addr ∧
      (∀ a, Heap.Feasible p.heap.segments (wholeSize request.size) (max request.align granule) a ↔
        Heap.Unoccupied p.heap.segments p.heap.places (wholeSize request.size)
          (max request.align granule) a) ∧
      ∀ unparked, p.heap.unpark = .ok unparked → ∀ a,
        Heap.Feasible unparked.segments (wholeSize request.size) (max request.align granule) a ↔
          Heap.Unoccupied p.heap.segments (LiveBlock.places p.heap.live) (wholeSize request.size)
            (max request.align granule) a := by
  obtain ⟨lost, loans, sound⟩ := trail.attempted.sound
  obtain ⟨threads, kept⟩ := target_machine m caller named
  have found := sound.pool?_eq inPools
  have heap := sound.heap found
  have stacked := trail.stacked p.id
  rw [parkedIn_eq found] at stacked
  obtain ⟨step, allocated, _⟩ := heap.allocate request.size request.align
  obtain ⟨_, _, served, decides⟩ :=
    (sound.withThreads threads).allocateIn_decides found isLive allocated
  have placed : step.answer = some addr := by
    simp only [Machine.allocate, routed, kept, serve, served, decides.answered] at answer
    cases given : step.answer with
    | none =>
      rw [given] at answer
      cases answer
    | some other =>
      rw [given] at answer
      cases answer
      rfl
  exact ⟨heap.allocate_picks (trail.attempted.tallied p.id p found) stacked power mild small allocated
    placed, fun _ => heap.feasible_iff (wholeSize_pos _),
    fun _ returned _ => heap.feasible_unparked_iff returned (wholeSize_pos _)⟩

/-- A pool with two parked chunks of one size. -/
def twins : List Call :=
  [.openPool { thread := 0 } {}, .allocate { thread := 0 } (some 1) (.plain 32),
    .allocate { thread := 0 } (some 1) (.plain 32),
    .free { thread := 0 } (some 1) (SystemHeap.slotBase 0),
    .free { thread := 0 } (some 1) (SystemHeap.slotBase 0 + 32)]

/-- The chunk that was released last serves, although the other one has the lower address. -/
theorem twins_placement :
    let steps := Call.trace [] twins (.start [0])
    let last := Call.runAll twins (.start [0])
    ∃ p ∈ last.pools, (p.phase = .live ∧ (last.target { thread := 0 } (some 1)).1 = .pool p.id ∧
        Word.isPowerOfTwo granule = true ∧ granule ≤ maxSegmentAlign ∧ wholeSize 20 < largeThreshold ∧
        (last.allocate { thread := 0 } (some 1) (.plain 20)).answer =
          .ok (.ok (SystemHeap.slotBase 0 + 32))) ∧
      p.heap.Picks (stay p.id · steps) last.system (wholeSize 20) (max granule granule)
        (SystemHeap.slotBase 0 + 32) := by
  intro steps last
  have trail := (Trail.start [0]).runAll (.start [0]) twins (by decide +kernel)
  obtain ⟨p, inPools, isLive, routed, power, mild, small, answer⟩ : ∃ p ∈ last.pools,
      p.phase = .live ∧ (last.target { thread := 0 } (some 1)).1 = .pool p.id ∧
        Word.isPowerOfTwo granule = true ∧ granule ≤ maxSegmentAlign ∧ wholeSize 20 < largeThreshold ∧
        (last.allocate { thread := 0 } (some 1) (.plain 20)).answer =
          .ok (.ok (SystemHeap.slotBase 0 + 32)) := by decide +kernel
  exact ⟨p, inPools, ⟨isLive, routed, power, mild, small, answer⟩,
    (Trail.allocate_placement trail inPools isLive routed power mild small answer).1⟩

end Machine

end PooledMemory
