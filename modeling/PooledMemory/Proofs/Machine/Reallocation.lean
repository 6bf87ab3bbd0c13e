import PooledMemory.Proofs.Machine.Reachable
import PooledMemory.Proofs.Machine.Relocation

namespace PooledMemory

namespace Machine

variable {m after : Machine} {lost : List (Address × PoolId)} {loans : List SystemBlock}
  {id : PoolId} {b new : Block}

/-- A block has given way to one of at least `size` bytes at the target, and that is all. Of the
content, as much is there as `old` bytes and the new size allow. -/
structure Replaced (m after : Machine) (target : Target) (b new : Block) (old size : Nat) :
    Prop where
  owner : new.owner = target.owner
  /-- A pool that accepts no requests resizes its own blocks only. -/
  unavailable : ∀ id, target = .unavailable id → b.owner = some id
  recorded : after.owner? new.addr = new.owner
  enough : size ≤ new.size
  inUse : ∀ c, after.InUse c ↔ c = new ∨ m.InUse c ∧ c ≠ b
  /-- Nothing is left behind where the block has moved away from. -/
  left : new.addr ≠ b.addr →
    after.owner? b.addr = none ∧ ∀ c, after.InUse c → c.addr ≠ b.addr
  kept : ∀ c, m.InUse c → c ≠ b → ∀ x, c.span.has x = true →
    after.system.bytes x = m.system.bytes x
  content : ∀ i, i < old → i < size →
    after.system.bytes (new.addr + i) = m.system.bytes (b.addr + i)

theorem inUse_named (used : m.InUse b) :
    (∃ id, m.IsLiveIn id b.addr) ∨ m.IsLoaned b.addr := by
  rcases used with ⟨p, inPools, own⟩ | ⟨s, stored, free, rfl⟩
  · obtain ⟨c, live, rfl⟩ := mem_issued.1 own
    exact .inl ⟨p.id, p, inPools, rfl, c, live, rfl⟩
  · exact .inr ⟨s, stored, rfl, free⟩

theorem Sound.handed_of_inUse (sound : m.Sound [] loans) (used : m.InUse b) :
    m.Handed loans b.addr :=
  (inUse_named used).imp (fun ⟨id, live⟩ => ⟨id, sound.owner?_of_live live⟩) sound.loaned

theorem relocate_unavailable {caller : Caller} {addr moved : Address} {known : Option Nat}
    {request : Request}
    (answer : (m.relocate caller (.unavailable id) addr known request).answer = .ok (some moved)) :
    m.owner? addr = some id := by
  unfold relocate at answer
  cases owned : m.owner? addr with
  | none =>
    simp only [owned] at answer
    cases answer
  | some owner =>
    by_cases same : owner = id
    · rw [same]
    · simp only [owned, if_neg same] at answer
      cases answer

/-- Whatever way a block takes, the one that is answered has taken its place. -/
theorem Relocation.replaced {o : Outcome (Option Address)} {target : Target} {known : Option Nat}
    {request : Request} {moved : Address} (sound : m.Sound lost loans) (used : m.InUse b)
    (relocation : Relocation m b.addr target known request o)
    (unavailable : ∀ id, target = .unavailable id → b.owner = some id)
    (sound' : ∃ loans', o.machine.Sound [] loans') (answer : o.answer = .ok (some moved)) :
    ∃ new, new.addr = moved ∧
      Replaced m o.machine target b new (min (known.getD (m.contentSize b)) (m.contentSize b))
        request.size := by
  obtain ⟨loans', sound'⟩ := sound'
  have replaced : ∀ {c new : Block} {after : Machine}, m.InUse c → c.addr = b.addr →
      after.Sound [] loans' → Exchanges m after [c] [new] [] → new.owner = target.owner →
      request.size ≤ new.size →
      (∀ i, i < known.getD (m.contentSize c) → i < m.contentSize c → i < request.size →
        after.system.bytes (new.addr + i) = m.system.bytes (b.addr + i)) →
      Replaced m after target b new (min (known.getD (m.contentSize b)) (m.contentSize b))
        request.size := by
    intro c new after used' start sound' exchanges owner enough content
    obtain rfl := sound.inUse_unique used' used start
    have inUse : ∀ d, after.InUse d ↔ d = new ∨ m.InUse d ∧ d ≠ c := by
      simpa using exchanges.inUse
    have left : new.addr ≠ c.addr → ∀ d, after.InUse d → d.addr ≠ c.addr := by
      intro moves d used there
      rcases (inUse d).1 used with rfl | ⟨before, other⟩
      · exact moves there
      · exact other (sound.inUse_unique before used' there)
    have unrecorded : new.addr ≠ c.addr → after.owner? c.addr = none := by
      intro moves
      refine Option.eq_none_iff_forall_ne_some.2 fun id owned => ?_
      obtain ⟨d, used, there, _⟩ := sound'.inUse_of_owner? owned
      exact left moves d used there
    refine ⟨owner, unavailable, sound'.owner?_of_inUse ((inUse new).2 (.inl rfl)), enough, inUse,
      fun moves => ⟨unrecorded moves, left moves⟩,
      fun d used other x inside => exchanges.kept d used (by simpa using other) x inside (by simp),
      fun i inOld inNew => ?_⟩
    obtain ⟨inKnown, inOld⟩ := Nat.lt_min.1 inOld
    exact content i inKnown inOld inNew
  cases relocation with
  | refused _ _ => cases answer
  | abandoned _ _ _ _ _ => cases answer
  | @refitted c new after _ used' start _ change owner enough content =>
    cases answer
    exact ⟨new, rfl, replaced used' start sound' change.toExchanges owner enough
      fun i _ inOld inNew => content i inOld inNew⟩
  | @carried c new after used' start _ _ _ exchanges owner enough content =>
    cases answer
    exact ⟨new, rfl, replaced used' start sound' exchanges owner enough content⟩

/-- Only what threads remember differs between two states, so that the same blocks are in use. -/
theorem Replaced.of_threads {threads : ThreadId → Register} {target : Target} {old size : Nat}
    (replaced : Replaced { m with threads } after target b new old size) :
    Replaced m after target b new old size :=
  ⟨replaced.owner, replaced.unavailable, replaced.recorded, replaced.enough, replaced.inUse,
    replaced.left, replaced.kept, replaced.content⟩

theorem Sound.relocate_replaced (sound : m.Sound [] loans) (used : m.InUse b) (caller : Caller)
    (target : Target) (known : Option Nat) (request : Request)
    (sound' : ∃ loans', (m.relocate caller target b.addr known request).machine.Sound [] loans')
    {moved : Address}
    (answer : (m.relocate caller target b.addr known request).answer = .ok (some moved)) :
    ∃ new, new.addr = moved ∧
      Replaced m (m.relocate caller target b.addr known request).machine target b new
        (min (known.getD (m.contentSize b)) (m.contentSize b)) request.size := by
  have relocation : Relocation m b.addr target known request
      (m.relocate caller target b.addr known request) :=
    sound.relocate_relocation caller target (.inl (sound.handed_of_inUse used))
  refine relocation.replaced sound used (fun id unavailable => ?_) sound' answer
  rw [unavailable] at answer
  exact (sound.owner?_of_inUse used).symm.trans (relocate_unavailable answer)

/-- A call that names a block in use, and no pool for it, is a proper one. -/
theorem InUse.proper {c : Call} (used : m.InUse b) (sane : c.Sane m)
    (block : c.block? = some b.addr) (names : c.expected? = none) : c.Proper m := by
  refine ⟨sane, fun addr block' => ?_, fun id addr names' => ?_⟩
  · cases block.symm.trans block'
    exact inUse_named used
  · cases names.symm.trans names'

theorem Reachable.reallocate_replaced (reached : Reachable m) (used : m.InUse b) (caller : Caller)
    (named : Option PoolId) (size : Nat) {moved : Address}
    (answer : (m.reallocate caller named b.addr size).answer = .ok (some moved)) :
    ∃ new, new.addr = moved ∧ Replaced m (m.reallocate caller named b.addr size).machine
      (m.target caller named).1 b new (m.contentSize b) size := by
  obtain ⟨loans, sound⟩ := reached.sound
  have sound' := (reached.step (.reallocate caller named b.addr size)
    (used.proper trivial rfl rfl)).sound
  change ∃ loans', (m.reallocate caller named b.addr size).machine.Sound [] loans' at sound'
  obtain ⟨threads, same⟩ := target_machine m caller named
  have targeted := sound.withThreads threads
  unfold Machine.reallocate at answer sound' ⊢
  simp only [same] at answer sound' ⊢
  by_cases marked : m.marks.contains b.addr = true
  · rw [if_pos marked] at answer
    cases answer
  · rw [if_neg marked] at answer sound' ⊢
    obtain ⟨new, start, replaced⟩ := targeted.relocate_replaced used caller
      (m.target caller named).1 none (.plain size caller.site) sound' answer
    rw [Option.getD_none, Nat.min_self] at replaced
    exact ⟨new, start, replaced.of_threads⟩

theorem Reachable.reallocateLayout_replaced (reached : Reachable m) (used : m.InUse b)
    (caller : Caller) (old align size : Nat) {moved : Address}
    (answer : (m.reallocateLayout caller b.addr old align size).answer = .ok (some moved)) :
    ∃ new, new.addr = moved ∧ Replaced m (m.reallocateLayout caller b.addr old align size).machine
      (m.target caller none).1 b new (min old (m.contentSize b)) size := by
  obtain ⟨loans, sound⟩ := reached.sound
  have sound' := (reached.step (.reallocateLayout caller b.addr old align size)
    (used.proper trivial rfl rfl)).sound
  change ∃ loans', (m.reallocateLayout caller b.addr old align size).machine.Sound [] loans'
    at sound'
  obtain ⟨threads, same⟩ := target_machine m caller none
  have targeted := sound.withThreads threads
  unfold Machine.reallocateLayout at answer sound' ⊢
  by_cases marked : m.marks.contains b.addr = true
  · rw [if_pos marked] at answer
    cases answer
  · simp only [if_neg marked, same] at answer sound' ⊢
    obtain ⟨new, start, replaced⟩ := targeted.relocate_replaced used caller
      (m.target caller none).1 (some old) ⟨size, align, false, none⟩ sound' answer
    exact ⟨new, start, replaced.of_threads⟩

theorem Sound.size_le_contentSize (sound : m.Sound [] loans) (used : m.InUse b) :
    b.size ≤ m.contentSize b := by
  cases own : b.owner with
  | some id =>
    exact Nat.le_of_eq (sound.contentSize_owned ((sound.owner?_of_inUse used).trans own) used own).symm
  | none =>
    obtain ⟨s, loaned, rfl⟩ := sound.exists_loan used own
    rw [sound.contentSize_loaned loaned]
    exact m.system.size_le_promised s

/-- A block that a caller has resized or moved successfully gives way to one at the target, with the
same content as far as both reach. -/
theorem Reachable.reallocated (reached : Reachable m) (used : m.InUse b) (caller : Caller) :
    b.size ≤ m.contentSize b ∧
    (∀ named size moved, (m.reallocate caller named b.addr size).answer = .ok (some moved) →
      ∃ new, new.addr = moved ∧ Replaced m (m.reallocate caller named b.addr size).machine
        (m.target caller named).1 b new (m.contentSize b) size) ∧
    ∀ old align size moved,
      (m.reallocateLayout caller b.addr old align size).answer = .ok (some moved) →
      ∃ new, new.addr = moved ∧ Replaced m (m.reallocateLayout caller b.addr old align size).machine
        (m.target caller none).1 b new (min old (m.contentSize b)) size := by
  obtain ⟨loans, sound⟩ := reached.sound
  exact ⟨sound.size_le_contentSize used,
    fun named size _ answer => reached.reallocate_replaced used caller named size answer,
    fun old align size _ answer =>
      reached.reallocateLayout_replaced used caller old align size answer⟩

/-- A region and a block of the system heap stay where they are. The block has spare bytes, which come
with it to a pool, and the region is left for the system heap by a thread that has no current pool. -/
theorem roomy_reallocated :
    let region : Block := ⟨some 1, SystemHeap.firstBlock, 200000, 16⟩
    let loan : Block := ⟨none, SystemHeap.firstBlock + 200016, 100, 16⟩
    let shrunk := roomy.reallocate { thread := 0 } (some 1) region.addr 150000
    let grown := roomy.reallocate { thread := 1 } none loan.addr 300
    let carried := roomy.reallocate { thread := 1 } (some 1) loan.addr 106
    let handedOver := roomy.reallocateLayout { thread := 1 } region.addr 200000 16 50
    roomy.InUse region ∧ roomy.InUse loan ∧ roomy.contentSize loan = 108 ∧
      (∃ new, new.addr = region.addr ∧
        Replaced roomy shrunk.machine (.pool 1) region new 200000 150000) ∧
      (∃ new, new.addr = loan.addr ∧ Replaced roomy grown.machine .systemHeap loan new 108 300) ∧
      (∃ moved new, carried.answer = .ok (some moved) ∧ new.addr = moved ∧
        Replaced roomy carried.machine (.pool 1) loan new 108 106) ∧
      ∃ moved new, handedOver.answer = .ok (some moved) ∧ new.addr = moved ∧
        Replaced roomy handedOver.machine .systemHeap region new 200000 50 := by
  have inPool : roomy.InUse ⟨some 1, SystemHeap.firstBlock, 200000, 16⟩ := by decide +kernel
  have lent : roomy.InUse ⟨none, SystemHeap.firstBlock + 200016, 100, 16⟩ := by decide +kernel
  have large : roomy.contentSize ⟨some 1, SystemHeap.firstBlock, 200000, 16⟩ = 200000 := by
    decide +kernel
  have spacious : roomy.contentSize ⟨none, SystemHeap.firstBlock + 200016, 100, 16⟩ = 108 := by
    decide +kernel
  have shrunk : (roomy.reallocate { thread := 0 } (some 1) SystemHeap.firstBlock 150000).answer =
      .ok (some SystemHeap.firstBlock) := by decide +kernel
  have grown : (roomy.reallocate { thread := 1 } none (SystemHeap.firstBlock + 200016)
      300).answer = .ok (some (SystemHeap.firstBlock + 200016)) := by decide +kernel
  have carried : (roomy.reallocate { thread := 1 } (some 1) (SystemHeap.firstBlock + 200016)
      106).answer = .ok (some (SystemHeap.slotBase 3 + 112)) := by decide +kernel
  have handedOver : (roomy.reallocateLayout { thread := 1 } SystemHeap.firstBlock 200000 16
      50).answer = .ok (some (SystemHeap.firstBlock + 200128)) := by decide +kernel
  obtain ⟨_, owner, _⟩ := Reachable.reallocated roomy_reachable inPool { thread := 0 }
  obtain ⟨_, _, stranger⟩ := Reachable.reallocated roomy_reachable inPool { thread := 1 }
  obtain ⟨_, holder, _⟩ := Reachable.reallocated roomy_reachable lent { thread := 1 }
  have first := owner _ _ _ shrunk
  have second := holder _ _ _ grown
  have third := holder _ _ _ carried
  have fourth := stranger _ _ _ _ handedOver
  rw [large] at first fourth
  rw [spacious] at second third
  exact ⟨inPool, lent, spacious, first, second, ⟨_, third.choose, carried, third.choose_spec⟩,
    _, fourth.choose, handedOver, fourth.choose_spec⟩

end Machine

end PooledMemory
