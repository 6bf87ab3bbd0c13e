import PooledMemory.Proofs.Machine.Steady

namespace PooledMemory

namespace Machine

variable {m : Machine} {loans : List SystemBlock} {id : PoolId} {b : Block}

/-- The calls that ask whether a block is marked stop, and nothing happens to it or to any other. -/
structure Guarded (m : Machine) (b : Block) : Prop where
  free : ∀ caller expected, m.free caller expected b.addr = .stop (.marked b.addr) m
  freeLayout : ∀ caller, m.freeLayout caller b.addr = .stop (.abortedOnMark b.addr) m
  reallocate : ∀ caller named size, ∃ threads,
    m.reallocate caller named b.addr size = .stop (.marked b.addr) { m with threads } ∧
      m.Steady { m with threads }
  reallocateLayout : ∀ caller old align size,
    m.reallocateLayout caller b.addr old align size = .stop (.abortedOnMark b.addr) m

/-- The calls that take a block without asking for marks: its pool releases or resizes it, and a box
gives it up. -/
structure Unguarded (m : Machine) (b : Block) : Prop where
  released : ∀ caller id, b.owner = some id → (m.releaseBlock caller id b.addr).answer = .ok () ∧
    Exchanges m (m.releaseBlock caller id b.addr).machine [b] [] []
  resized : ∀ id size, b.owner = some id → ∃ new : Option Block,
    (m.resizeBlock id b.addr size).answer = .ok (new.map (·.addr)) ∧
      (∀ n ∈ new, n.owner = some id ∧ size ≤ n.size) ∧
      Exchanges m (m.resizeBlock id b.addr size).machine (new.map fun _ => b).toList new.toList []
  dropped : ∀ caller type, (m.dropBox caller ⟨b.addr, type⟩).answer = .ok () ∧
    Exchanges m (m.dropBox caller ⟨b.addr, type⟩).machine [b] [] []
  unboxed : ∀ caller type,
    (m.unbox caller ⟨b.addr, type⟩).answer = .ok (m.readBox ⟨b.addr, type⟩) ∧
      Exchanges m (m.unbox caller ⟨b.addr, type⟩).machine [b] [] []

theorem guarded_of_marked (marked : m.marks.contains b.addr = true) : m.Guarded b where
  free := fun _ _ => if_pos marked
  freeLayout := fun _ => if_pos marked
  reallocate := fun caller named size => by
    obtain ⟨threads, same, steady⟩ := target_steady m caller named
    refine ⟨threads, ?_, steady⟩
    simp only [Machine.reallocate, same]
    exact if_pos marked
  reallocateLayout := fun _ _ _ _ => if_pos marked

/-- The block that starts at an address and goes out of use is the one that is in use there. -/
theorem Sound.release_of_inUse (sound : m.Sound [] loans) (used : m.InUse b) (caller : Caller) :
    (m.release caller none b.addr).answer = .ok () ∧
      Exchanges m (m.release caller none b.addr).machine [b] [] [] := by
  have unnamed : ∀ id, m.owner? b.addr = some id → (none : Option PoolId).all (· == id) = true :=
    fun _ _ => rfl
  obtain ⟨answer, c, start, exchanges⟩ :=
    sound.release_exchanges caller (sound.handed_of_inUse used) unnamed
  obtain rfl := sound.inUse_unique (exchanges.old c (by simp)) used start
  exact ⟨answer, exchanges⟩

theorem Sound.releaseBlock_of_inUse (sound : m.Sound [] loans) (used : m.InUse b)
    (own : b.owner = some id) (caller : Caller) :
    (m.releaseBlock caller id b.addr).answer = .ok () ∧
      Exchanges m (m.releaseBlock caller id b.addr).machine [b] [] [] := by
  have owned := (sound.owner?_of_inUse used).trans own
  obtain ⟨c, start, exchanges⟩ := sound.releaseBlock_exchanges caller owned
  obtain rfl := sound.inUse_unique (exchanges.old c (by simp)) used start
  refine ⟨?_, exchanges⟩
  simp only [Machine.releaseBlock, owned, if_true]
  exact ((sound.untag owned).releaseIn caller).1

theorem Sound.resizeBlock_of_inUse (sound : m.Sound [] loans) (used : m.InUse b)
    (own : b.owner = some id) (size : Nat) : ∃ new : Option Block,
      (m.resizeBlock id b.addr size).answer = .ok (new.map (·.addr)) ∧
        (∀ n ∈ new, n.owner = some id ∧ size ≤ n.size) ∧
        Exchanges m (m.resizeBlock id b.addr size).machine (new.map fun _ => b).toList new.toList
          [] := by
  have owned := (sound.owner?_of_inUse used).trans own
  have refitted := sound.resizeIn_refitted owned size
  have resizes : m.resizeBlock id b.addr size = m.resizeIn id b.addr size := if_pos owned
  rw [resizes]
  generalize m.resizeIn id b.addr size = o at refitted
  cases refitted with
  | refused change => exact ⟨none, rfl, by simp, change.toExchanges⟩
  | @resized c new after change start _ owner enough _ =>
    obtain rfl := sound.inUse_unique (change.old c (by simp)) used start
    refine ⟨some new, rfl, ?_, change.toExchanges⟩
    rintro n ⟨⟩
    exact ⟨owner, enough⟩

theorem Sound.unguarded (sound : m.Sound [] loans) (used : m.InUse b) : m.Unguarded b where
  released := fun caller _ own => sound.releaseBlock_of_inUse used own caller
  resized := fun _ size own => sound.resizeBlock_of_inUse used own size
  dropped := fun caller type => by
    obtain ⟨answer, inUse, old, fresh, kept⟩ :=
      (sound.dropValue (m.readBox ⟨b.addr, type⟩)).release_of_inUse used caller
    exact ⟨answer, inUse, old, fresh, kept⟩
  unboxed := fun caller type => by
    obtain ⟨answer, exchanges⟩ := sound.release_of_inUse used caller
    refine ⟨?_, exchanges⟩
    show (m.release caller none b.addr).answer.map _ = _
    rw [answer]
    rfl

/-- A mark keeps a block from some calls that would release or move it, and they leave everything as
it was. It does not keep it from the pool that owns it, nor from the box that holds it. -/
theorem Reachable.marked_guarded (reached : Reachable m) (used : m.InUse b)
    (marked : m.marks.contains b.addr = true) : m.Guarded b ∧ m.Unguarded b := by
  obtain ⟨loans, sound⟩ := reached.sound
  exact ⟨guarded_of_marked marked, sound.unguarded used⟩

/-- One of the blocks in use is marked. -/
def watched : Machine := ((Call.mark (SystemHeap.slotBase 3 + 352)).run busy).machine

theorem watched_reachable : Reachable watched :=
  busy_reachable.step (.mark (SystemHeap.slotBase 3 + 352)) ⟨trivial, nofun, nofun⟩

theorem watched_guarded :
    let b : Block := ⟨some 1, SystemHeap.slotBase 3 + 352, 112, granule⟩
    (watched.InUse b ∧ watched.marks.contains b.addr = true) ∧ watched.Guarded b ∧
      watched.Unguarded b := by
  have used : watched.InUse ⟨some 1, SystemHeap.slotBase 3 + 352, 112, granule⟩ := by
    decide +kernel
  have marked : watched.marks.contains (SystemHeap.slotBase 3 + 352) = true := by decide +kernel
  exact ⟨⟨used, marked⟩, Reachable.marked_guarded watched_reachable used marked⟩

/-- It is not the case that a marked block stops all calls that are to release, resize or move it. -/
theorem not_marked_survives : ¬ ∀ (m : Machine) (b : Block) (c : Call), Reachable m → c.Proper m →
    m.InUse b → m.marks.contains b.addr = true → c.block? = some b.addr →
      (∃ fault, (c.run m).answer = .error fault) ∧ (c.run m).machine.InUse b := by
  intro survives
  let c : Call := .releaseBlock { thread := 0 } 1 (SystemHeap.slotBase 3 + 352)
  obtain ⟨_, stays⟩ := survives watched ⟨some 1, SystemHeap.slotBase 3 + 352, 112, granule⟩ c
    watched_reachable (Call.proper_of_isProper (by decide +kernel)) (by decide +kernel)
    (by decide +kernel) rfl
  have gone : ¬ (c.run watched).machine.InUse
      ⟨some 1, SystemHeap.slotBase 3 + 352, 112, granule⟩ := by decide +kernel
  exact gone stays

end Machine

end PooledMemory
