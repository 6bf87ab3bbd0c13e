import PooledMemory.Proofs.Machine.Loans

namespace PooledMemory

namespace Machine

variable {m middle after : Machine} {lost : List (Address × PoolId)} {loans : List SystemBlock}
  {id : PoolId} {b new : Block} {old len : Nat}

/-- How much of a block is content: its usable size, or what was asked for where nobody can tell. -/
def contentSize (m : Machine) (b : Block) : Nat :=
  if m.sizeOf b.addr = 0 then b.size else m.sizeOf b.addr

theorem Sound.blockSize?_of_inUse (sound : m.Sound lost loans) (used : m.InUse b)
    (owner : b.owner = some id) : m.blockSize? id b.addr = some b.size := by
  rcases used with ⟨p, inPools, own⟩ | ⟨s, _, _, rfl⟩
  · obtain ⟨c, live, rfl⟩ := mem_issued.1 own
    cases owner
    have found := sound.pool?_eq inPools
    rw [blockSize?, found, Option.bind_some, Heap.sizeOf?]
    exact congrArg (Option.map _) ((sound.heap found).block?_eq live)
  · cases owner

theorem Sound.usableSize_of_loan {s : SystemBlock} (sound : m.Sound lost loans) (loaned : s ∈ loans) :
    m.system.usableSize s.addr =
      if m.system.tellsSizes then m.system.extent s.addr s.size else 0 := by
  have stored : s ∈ m.system.blocks := sound.held.mem_iff.2 (List.mem_append_right _ loaned)
  rw [SystemHeap.usableSize, sound.below.block?_eq stored, Option.map_some, Option.getD_some]

/-- Pools know the sizes of their blocks. -/
theorem Sound.contentSize_owned (sound : m.Sound lost loans) (owned : m.owner? b.addr = some id)
    (used : m.InUse b) (own : b.owner = some id) : m.contentSize b = b.size := by
  have told : m.sizeOf b.addr = b.size := by
    simp only [sizeOf, owned, sound.blockSize?_of_inUse used own, Option.getD_some]
  rw [contentSize, told]
  split <;> rfl

theorem Sound.contentSize_loaned {s : SystemBlock} (sound : m.Sound lost loans)
    (loaned : s ∈ loans) : m.contentSize s.lent = m.system.promised s := by
  have unowned : m.owner? s.addr = none := sound.unowned_of_loan (List.mem_map_of_mem loaned)
  have told : m.sizeOf s.lent.addr =
      if m.system.tellsSizes then m.system.extent s.addr s.size else 0 := by
    simp only [sizeOf, SystemBlock.lent, unowned, sound.usableSize_of_loan loaned]
  have large := m.system.size_le_extent s.addr s.size
  rw [contentSize, told, SystemHeap.promised]
  by_cases tells : m.system.tellsSizes = true
  · simp only [if_pos tells]
    split
    · show s.size = _
      omega
    · rfl
  · simp only [if_neg tells, if_true]
    rfl

/-- The content of a block, of which there are `old` bytes, has been copied to a new one as far as
`len` bytes hold it, and the old block is gone. -/
structure Vacates (m after : Machine) (b new : Block) (old len : Nat) : Prop where
  exchanges : Exchanges m after [b] [] [⟨new.addr, len⟩]
  course : Course (fun _ gone fresh written =>
    (∀ c ∈ gone, c.owner = b.owner ∧ (c = b ∨ ¬ m.InUse c)) ∧ (∀ c ∈ fresh, c.owner = none) ∧
      ∀ w ∈ written, w = ⟨new.addr, len⟩) m after
  content : ∀ i, i < len → i < old →
    after.system.bytes (new.addr + i) = m.system.bytes (b.addr + i)

/-- Copies the content of one block to another one. -/
def copied (m : Machine) (source target : Address) (len : Nat) : Machine :=
  m.write target len fun i => m.system.bytes (source + i)

theorem copied_bytes {source target i : Nat} (inside : i < len) :
    (m.copied source target len).system.bytes (target + i) = m.system.bytes (source + i) :=
  Bytes.copy_at inside

/-- The bytes of a block in use that is not given up are still there. -/
theorem Change.byte {c : Block} {gone fresh : List Block} (change : Change m after gone fresh [])
    (used : m.InUse c) (stays : c ∉ gone) {i : Nat} (inside : i < c.size) :
    after.system.bytes (c.addr + i) = m.system.bytes (c.addr + i) :=
  change.kept c used stays _ (Span.has_add (s := c.span) inside) (by simp)

theorem Change.still_inUse {c : Block} {gone fresh : List Block} {written : List Span}
    (change : Change m after gone fresh written) (used : m.InUse c) (stays : c ∉ gone) :
    after.InUse c :=
  (change.inUse c).2 (.inr ⟨used, stays⟩)

theorem Sound.vacates_owned (sound : m.Sound lost loans) (caller : Caller)
    (owned : m.owner? b.addr = some id) (source : m.InUse b) (target : m.InUse new)
    (different : new ≠ b) (fits : len ≤ new.size) :
    Vacates m (((m.copied b.addr new.addr len).untag b.addr).releaseIn caller id b.addr).machine b
      new old len := by
  have soundCopied : (m.copied b.addr new.addr len).Sound lost loans := sound.withBytes _
  have write := sound.write_change new.addr len fun i => m.system.bytes (b.addr + i)
  have untag := soundCopied.untag_change owned
  obtain ⟨c, used, _, start, release⟩ := (soundCopied.untag owned).releaseIn_change caller
  have stillSource := untag.still_inUse (write.still_inUse source (by simp)) (by simp)
  obtain rfl := (soundCopied.untag owned).inUse_unique used stillSource start
  refine ⟨?_, ?_, fun i inside _ => ?_⟩
  · simpa using (write.toExchanges.trans untag.toExchanges).trans release.toExchanges
  · refine (write.course ⟨by simp, by simp, by simp⟩).trans ((untag.course ⟨?_, ?_, ?_⟩).trans
      (release.course ⟨?_, ?_, ?_⟩)) <;> simp
  · have stillTarget := untag.still_inUse (write.still_inUse target (by simp)) (by simp)
    have kept :=
      release.byte stillTarget (by simpa using different) (Nat.lt_of_lt_of_le inside fits)
    exact kept.trans (copied_bytes inside)

theorem Sound.vacates_loaned {s : SystemBlock} (sound : m.Sound lost (s :: loans)) :
    Vacates m ((m.copied s.addr new.addr len).releaseToSystem s.addr) s.lent new old len := by
  have soundCopied : (m.copied s.addr new.addr len).Sound lost (s :: loans) := sound.withBytes _
  have write := sound.write_change new.addr len fun i => m.system.bytes (s.addr + i)
  have giveBack := soundCopied.giveBack_change
  refine ⟨?_, ?_, fun i inside _ => ?_⟩
  · simpa using write.toExchanges.trans giveBack.toExchanges
  · refine (write.course ⟨?_, ?_, ?_⟩).trans (giveBack.course ⟨?_, ?_, ?_⟩) <;> simp
  · exact copied_bytes inside

/-- Where the size of the block is not known, a resized block of the system heap is the source. -/
theorem Sound.vacates_staged {s : SystemBlock} {system : SystemHeap} {staged : Address}
    (sound : m.Sound lost (s :: loans))
    (resized : m.system.reallocate? s.addr len = some (staged, system)) :
    Vacates m ((({ m with system } : Machine).copied staged new.addr len).releaseToSystem staged)
      s.lent new (m.system.promised s) len := by
  obtain ⟨t, rfl, _, sound', exchange, content⟩ := sound.exchange_change resized
  have soundCopied : (({ m with system } : Machine).copied t.addr new.addr len).Sound lost
      (t :: loans) := sound'.withBytes _
  have write := sound'.write_change new.addr len fun i => system.bytes (t.addr + i)
  have giveBack := soundCopied.giveBack_change
  have fresh : t.lent = s.lent ∨ ¬ m.InUse t.lent := by
    refine or_iff_not_imp_right.2 fun used => ?_
    simpa using exchange.fresh t.lent (by simp) (not_not.1 used)
  refine ⟨?_, ?_, fun i inside inOld => ?_⟩
  · simpa using (exchange.toExchanges.trans write.toExchanges).trans giveBack.toExchanges
  · refine (exchange.course ⟨?_, ?_, ?_⟩).trans ((write.course ⟨?_, ?_, ?_⟩).trans
      (giveBack.course ⟨?_, ?_, ?_⟩)) <;> simp [SystemBlock.lent] at fresh ⊢
    exact fresh
  · exact (copied_bytes inside).trans (content i inOld inside)

/-- What may happen to other blocks while the content of one is brought to its new place. -/
structure OnTheWay (m : Machine) (b : Block) (gone fresh : List Block) (written : List Span) :
    Prop where
  gone : ∀ c ∈ gone, c.owner = b.owner ∧ (c = b ∨ ¬ m.InUse c)
  fresh : ∀ c ∈ fresh, c.owner = none
  written : ∀ w ∈ written, ∀ c, m.InUse c → c.span.Apart w

/-- The block at an address stays where it is, is resized by its owner, or moves to another one. The
size of the block is what is `known` about it, if anything is. -/
inductive Relocation (m : Machine) (addr : Address) (target : Target) (known : Option Nat)
    (request : Request) : Outcome (Option Address) → Prop
  | refused {after : Machine} : Change m after [] [] [] →
    m.owner? addr = target.owner ∨ Change m (m.serve target request).machine [] [] [] →
    Relocation m addr target known request (.ok none after)
  | refitted {b new : Block} {after : Machine} : m.owner? addr = target.owner → m.InUse b →
    b.addr = addr → b.owner = target.owner → Change m after [b] [new] [] →
    new.owner = target.owner → request.size ≤ new.size →
    (∀ i, i < m.contentSize b → i < request.size →
      after.system.bytes (new.addr + i) = m.system.bytes (addr + i)) →
    Relocation m addr target known request (.ok (some new.addr) after)
  | carried {b new : Block} {after : Machine} : m.InUse b → b.addr = addr →
    (∀ id, target.owner = some id → b.owner ≠ some id) →
    Change m (m.serve target request).machine [] [new] [] →
    Course (fun _ => OnTheWay m b) (m.serve target request).machine after →
    Exchanges m after [b] [new] [] → new.owner = target.owner → request.size ≤ new.size →
    (∀ i, i < known.getD (m.contentSize b) → i < m.contentSize b → i < request.size →
      after.system.bytes (new.addr + i) = m.system.bytes (addr + i)) →
    Relocation m addr target known request (.ok (some new.addr) after)
  /-- The new place is given back if the content cannot be brought there. -/
  | abandoned {new : Block} {untagged after : Machine} : m.owner? addr = none →
    Change m (m.serve target request).machine [] [new] [] →
    Change (m.serve target request).machine untagged [] [] [] →
    Change untagged after [new] [] [] → new.owner = target.owner →
    Relocation m addr target known request (.ok none after)

theorem Vacates.carried {target : Target} {known : Option Nat} {addr : Address} {request : Request}
    (served : (m.serve target request).machine = middle)
    (issue : Change m middle [] [new] [])
    (vacates : Vacates middle after b new (m.contentSize b) len)
    (still : ∀ i, i < m.contentSize b →
      middle.system.bytes (b.addr + i) = m.system.bytes (b.addr + i))
    (source : m.InUse b) (start : b.addr = addr)
    (foreign : ∀ id, target.owner = some id → b.owner ≠ some id)
    (owner : new.owner = target.owner) (enough : request.size ≤ new.size)
    (fits : len ≤ request.size)
    (covers : ∀ i, i < known.getD (m.contentSize b) → i < m.contentSize b → i < request.size →
      i < len) :
    Relocation m addr target known request (.ok (some new.addr) after) := by
  obtain ⟨lost, loans, sound⟩ := issue.sound
  have notOld : ¬ m.InUse new := fun used => by simpa using issue.fresh new (by simp) used
  have used : middle.InUse new := (issue.inUse new).2 (.inl (List.mem_singleton_self new))
  have different : new ≠ b := fun same => notOld (same ▸ source)
  have apart : ∀ c, m.InUse c → c.span.Apart ⟨new.addr, len⟩ := by
    intro c inUse
    have other : c ≠ new := fun same => notOld (same ▸ inUse)
    exact (sound.inUse_apart (issue.still_inUse inUse (by simp)) used other).mono
      (Span.within_of_le (Nat.le_trans fits enough))
  have course : Course (fun _ => OnTheWay m b) middle after := by
    refine vacates.course.mono fun _ gone fresh written ⟨goes, comes, writes⟩ =>
      ⟨fun c inGone => ?_, comes, fun w member c inUse => ?_⟩
    · obtain ⟨same, either⟩ := goes c inGone
      exact ⟨same, either.imp_right fun unused inUse => unused (issue.still_inUse inUse (by simp))⟩
    · rw [writes w member]
      exact apart c inUse
  have both : Exchanges m after [b] [new] [⟨new.addr, len⟩] := by
    simpa [different, different.symm] using issue.toExchanges.trans vacates.exchanges
  have exchanges := both.unwritten fun w member c inUse _ => by
    rw [List.mem_singleton.1 member]
    exact apart c inUse
  subst start served
  exact .carried source rfl foreign issue course exchanges owner enough fun i known inOld inNew =>
    (vacates.content i (covers i known inOld inNew) inOld).trans (still i inOld)

/-- The content of a loaned block stays where it is while a request is served, and so does its size. -/
theorem Sound.loan_served {s : SystemBlock} (sound : m.Sound lost loans) (loaned : s ∈ loans)
    (target : Target) (request : Request) :
    (m.serve target request).machine.system.promised s = m.system.promised s ∧
      ∀ i, i < m.system.promised s → (m.serve target request).machine.system.bytes (s.addr + i) =
        m.system.bytes (s.addr + i) := by
  have lends := sound.serve_lends target request
  refine ⟨by rw [SystemHeap.promised, lends.tellsSizes, lends.extent, SystemHeap.promised],
    fun i counted => sound.serve_held loaned target request ?_⟩
  exact Span.has_add (s := m.system.reach s)
    (Nat.lt_of_lt_of_le counted (m.system.promised_le_extent s))

section MoveContent

variable {target : Target} {request : Request} {known : Option Nat}

theorem Sound.moveContent_owned_relocation {others : List SystemBlock} (sound : m.Sound lost others)
    (served : (m.serve target request).machine = middle) (issue : Change m middle [] [new] [])
    (between : middle.Sound lost loans) (caller : Caller) (recorded : m.owner? b.addr = some id)
    (owned : middle.owner? b.addr = some id) (source : m.InUse b) (own : b.owner = some id)
    (foreign : ∀ id, target.owner = some id → b.owner ≠ some id) (owner : new.owner = target.owner)
    (enough : request.size ≤ new.size) : Relocation m b.addr target known request
      (middle.moveContent caller b.addr (some id) known new.addr request.size) := by
  have used := (issue.inUse new).2 (.inl (List.mem_singleton_self new))
  have stillUsed := issue.still_inUse source (by simp)
  have different : new ≠ b := fun same => by simpa using issue.fresh new (by simp) (same ▸ source)
  have content := sound.contentSize_owned recorded source own
  let moved := ((middle.copied b.addr new.addr (min b.size request.size)).untag b.addr).releaseIn
    caller id b.addr
  have vacates : Vacates middle moved.machine b new (m.contentSize b) (min b.size request.size) :=
    between.vacates_owned caller owned stillUsed used different
      (Nat.le_trans (Nat.min_le_right _ _) enough)
  have soundCopied : (middle.copied b.addr new.addr (min b.size request.size)).Sound lost loans :=
    between.withBytes _
  have answer : moved.answer = .ok () := ((soundCopied.untag owned).releaseIn caller).1
  have same : middle.moveContent caller b.addr (some id) known new.addr request.size =
      .ok (some new.addr) moved.machine := by
    simp only [moveContent, between.blockSize?_of_inUse stillUsed own, Option.getD_some]
    show Outcome.map (fun _ => some new.addr) moved = _
    rw [Outcome.map, answer]
    rfl
  rw [same]
  refine vacates.carried served issue (fun i inside => ?_) source rfl foreign owner enough
    (Nat.min_le_right _ _) fun i _ inOld inNew => ?_
  · exact issue.byte source (by simp) (content ▸ inside)
  · exact Nat.lt_min.2 ⟨content ▸ inOld, inNew⟩

theorem Sound.moveContent_loaned_relocation {others : List SystemBlock} {addr : Address}
    (sound : m.Sound lost others) (served : (m.serve target request).machine = middle)
    (issue : Change m middle [] [new] []) (between : middle.Sound lost loans) (caller : Caller)
    (unowned : m.owner? addr = none) (handed : middle.Handed loans new.addr)
    (owner : new.owner = target.owner) (enough : request.size ≤ new.size)
    (source : (∃ s : SystemBlock, m.InUse s.lent ∧ s.addr = addr) ∨
      ∃ fault, (middle.moveContent caller addr none known new.addr request.size).answer =
        .error fault) :
    Relocation m addr target known request
      (middle.moveContent caller addr none known new.addr request.size) := by
  have loaned : ∀ s : SystemBlock, m.InUse s.lent → s ∈ loans ∧
      m.contentSize s.lent = middle.system.promised s ∧ ∀ i, i < m.contentSize s.lent →
        middle.system.bytes (s.addr + i) = m.system.bytes (s.addr + i) := by
    intro s used
    have before := sound.mem_loans_iff_inUse.2 used
    obtain ⟨size, bytes⟩ := sound.loan_served before target request
    have content := sound.contentSize_loaned before
    rw [served] at size bytes
    exact ⟨between.mem_loans_iff_inUse.2 (issue.still_inUse used (by simp)),
      content.trans size.symm, fun i inside => bytes i (content ▸ inside)⟩
  unfold moveContent at source ⊢
  simp only at source ⊢
  by_cases told : 0 < known.getD (middle.system.usableSize addr)
  · simp only [if_pos told] at source ⊢
    rcases source with ⟨s, used, rfl⟩ | ⟨fault, stopped⟩
    · obtain ⟨there, content, bytes⟩ := loaned s used
      obtain ⟨rest, split⟩ := between.loan_of_inUse (issue.still_inUse used (by simp))
      refine split.vacates_loaned.carried served issue bytes used rfl (fun _ _ own => by cases own)
        owner enough (Nat.min_le_right _ _) fun i inKnown inOld inNew => Nat.lt_min.2 ⟨?_, inNew⟩
      cases known with
      | some size => exact inKnown
      | none =>
        rw [Option.getD_none, between.usableSize_of_loan there] at told ⊢
        rw [content, SystemHeap.promised] at inOld
        by_cases tells : middle.system.tellsSizes = true
        · rwa [if_pos tells] at inOld ⊢
        · rw [if_neg tells] at told
          cases told
    · cases stopped
  · simp only [if_neg told, Machine.moveStaged] at source ⊢
    cases resized : middle.system.reallocate? addr request.size with
    | none =>
      obtain ⟨c, untagged, after, released, used, start, untag, release⟩ :=
        between.release_change caller none handed fun _ _ => rfl
      obtain rfl := between.inUse_unique used ((issue.inUse new).2 (.inl (by simp))) start
      subst served
      simp only [released]
      exact .abandoned unowned issue untag release owner
    | some found =>
      obtain ⟨staged, system⟩ := found
      simp only [resized] at source
      rcases source with ⟨s, used, rfl⟩ | ⟨fault, stopped⟩
      · obtain ⟨_, content, bytes⟩ := loaned s used
        obtain ⟨rest, split⟩ := between.loan_of_inUse (issue.still_inUse used (by simp))
        refine Vacates.carried served issue (content ▸ split.vacates_staged resized) bytes used rfl
          (fun _ _ own => by cases own) owner enough (Nat.le_refl _) fun _ _ _ inNew => inNew
      · cases stopped

end MoveContent

/-- What is served is recorded or handed out, and all records and loans from before are still
there. -/
theorem Served.handed {o : Outcome (Except Failure Address)} {addr : Address}
    (sound : m.Sound lost loans) (served : Served m lost loans o)
    (answer : o.answer = .ok (.ok addr)) : ∃ loans', o.machine.Sound lost loans' ∧
      o.machine.Handed loans' addr ∧ loans ⊆ loans' ∧
      ∀ id other, m.owner? other = some id → o.machine.owner? other = some id := by
  cases served with
  | refused _ _ => cases answer
  | @tagged issued tag after soundAfter perm =>
    cases answer
    refine ⟨loans, soundAfter, .inl ⟨tag.pool, soundAfter.tags.owner?_eq_some_iff.2
      ⟨tag, perm.mem_iff.2 (List.mem_cons_self ..), rfl⟩⟩, List.Subset.refl _,
      fun id other owned => ?_⟩
    exact sound.owner?_of_subset soundAfter
      (fun e member => perm.mem_iff.2 (List.mem_cons_of_mem _ member)) owned
  | @loaned s after soundAfter same =>
    cases answer
    refine ⟨s :: loans, soundAfter, .inr (List.mem_cons_self ..), List.subset_cons_self s loans,
      fun id other owned => ?_⟩
    change after.owner? other = some id
    rwa [owner?, same]

theorem Sound.inUse_of_owner? (sound : m.Sound lost loans) {addr : Address}
    (owned : m.owner? addr = some id) :
    ∃ b : Block, m.InUse b ∧ b.addr = addr ∧ b.owner = some id := by
  obtain ⟨p, b, found, live⟩ := sound.live_of_owner? owned
  obtain ⟨used, start⟩ := inUse_of_live found live
  exact ⟨b.issuedBy id, used, start, rfl⟩

/-- The block moves behind a request that its new place is served from. -/
theorem Sound.elsewhere_relocation (sound : m.Sound lost loans) (caller : Caller) {addr : Address}
    {owner : Option PoolId} {known : Option Nat} {target : Target} {request : Request}
    {next : Except Failure Address → Machine → Outcome (Option Address)}
    (refused : ∀ failure after, next (.error failure) after = .ok none after)
    (served : ∀ moved after, next (.ok moved) after =
      after.moveContent caller addr owner known moved request.size)
    (owned : m.owner? addr = owner) (foreign : ∀ id, target.owner = some id → owner ≠ some id)
    (source : (∃ id, owner = some id) ∨
      owner = none ∧ ((∃ s : SystemBlock, m.InUse s.lent ∧ s.addr = addr) ∨
        ∃ fault, ((m.serve target request).bind next).answer = .error fault)) :
    Relocation m addr target known request ((m.serve target request).bind next) := by
  have supplied := sound.serve_supplied target request
  have handed : ∀ addr, (m.serve target request).answer = .ok (.ok addr) → _ :=
    fun addr => (sound.serve target request).handed sound
  generalize result : m.serve target request = o at supplied handed source
  have middle : (m.serve target request).machine = o.machine := congrArg Outcome.machine result
  cases supplied with
  | @refused failure after change =>
    show Relocation _ _ _ _ _ (next _ _)
    rw [refused]
    exact .refused change (.inr (middle.symm ▸ change))
  | @supplied new after issue own enough =>
    obtain ⟨loans', soundAfter, given, _, keeps⟩ := handed new.addr rfl
    show Relocation _ _ _ _ _ (next _ _)
    change (_ ∨ _ ∧ (_ ∨ ∃ fault, (next _ _).answer = .error fault)) at source
    rw [served] at source ⊢
    rcases source with ⟨id, rfl⟩ | ⟨rfl, source⟩
    · obtain ⟨b, used, rfl, ownedBy⟩ := sound.inUse_of_owner? owned
      exact sound.moveContent_owned_relocation middle issue soundAfter caller owned
        (keeps id _ owned) used ownedBy (ownedBy ▸ foreign) own enough
    · exact sound.moveContent_loaned_relocation middle issue soundAfter caller owned given own enough
        source

/-- The pool that owns a block resizes it. -/
theorem Sound.resizeIn_relocation (sound : m.Sound lost loans) {addr : Address} {known : Option Nat}
    (target : Target) (owned : m.owner? addr = some id) (own : target.owner = some id)
    (request : Request) :
    Relocation m addr target known request (m.resizeIn id addr request.size) := by
  have refitted := sound.resizeIn_refitted owned request.size
  have same : m.owner? addr = target.owner := owned.trans own.symm
  generalize m.resizeIn id addr request.size = o at refitted
  cases refitted with
  | refused change => exact .refused change (.inl same)
  | @resized b new after change start owner owner' enough content =>
    have used := change.old b (by simp)
    refine .refitted same used start (owner.trans own.symm) change (owner'.trans own.symm) enough
      fun i inOld inNew => content i ?_ (Nat.lt_of_lt_of_le inNew enough)
    rwa [sound.contentSize_owned (start.symm ▸ owned) used owner] at inOld

/-- A block that is resized or moved is in use, or the call is stopped. -/
theorem Sound.relocate_relocation (sound : m.Sound lost loans) (caller : Caller) (target : Target)
    {addr : Address} {known : Option Nat} {request : Request} (handed : m.Handed loans addr ∨
      ∃ fault, (m.relocate caller target addr known request).answer = .error fault) :
    Relocation m addr target known request (m.relocate caller target addr known request) := by
  have unchanged : Change m m [] [] [] := sound.aside sound rfl rfl rfl rfl
  have loaned : m.owner? addr = none → m.Handed loans addr →
      ∃ s : SystemBlock, m.InUse s.lent ∧ s.addr = addr := by
    intro free known
    obtain ⟨s, member, start⟩ := List.mem_map.1 (known.loaned free)
    exact ⟨s, inUse_of_loan sound member, start⟩
  have ways := m.relocate_ways caller target addr known request
  generalize m.relocate caller target addr known request = o at handed ways ⊢
  cases ways with
  | stays either =>
    refine .refused unchanged (either.imp_right fun same => ?_)
    rw [same]
    exact unchanged
  | resized owned own => exact sound.resizeIn_relocation target owned own request
  | exchanged free heap moved =>
    rcases handed with known | ⟨fault, stopped⟩
    · obtain ⟨s, used, rfl⟩ := loaned free known
      obtain ⟨others, split⟩ := sound.loan_of_inUse used
      obtain ⟨new, rfl, size, _, change, content⟩ := split.exchange_change moved
      have enough : request.size ≤ new.lent.size :=
        Nat.le_trans (Nat.le_max_left _ _) (Nat.le_of_eq size.symm)
      have counted := sound.contentSize_loaned (sound.mem_loans_iff_inUse.2 used)
      exact .refitted (free.trans heap.symm) used rfl heap.symm change heap.symm enough
        fun i inOld inNew => content i (counted ▸ inOld) inNew
    · cases stopped
  | elsewhere foreign refused served =>
    refine sound.elsewhere_relocation caller refused served rfl foreign ?_
    cases owned : m.owner? addr with
    | some id => exact .inl ⟨id, rfl⟩
    | none => exact .inr ⟨rfl, handed.imp_left (loaned owned)⟩

end Machine

end PooledMemory
