import Mathlib.Data.List.Pairwise
import PooledMemory.Proofs.Heap.Content
import PooledMemory.Proofs.Machine.Call

namespace PooledMemory

/-- A block in the hands of a caller, from a pool or from the system heap. -/
structure Block where
  /-- The pool that issued the block, or nothing for a block of the system heap. -/
  owner : Option PoolId
  addr : Address
  size : Nat
  align : Nat
  deriving DecidableEq, Repr

def Block.span (b : Block) : Span := ⟨b.addr, b.size⟩

instance : Std.Symm fun b c : SystemBlock => b.span.Apart c.span := ⟨fun _ _ => Or.symm⟩

instance : Std.Symm fun c d : Block => c.span.Apart d.span := ⟨fun _ _ => Or.symm⟩

def LiveBlock.issuedBy (id : PoolId) (b : LiveBlock) : Block := ⟨some id, b.addr, b.size, b.align⟩

def SystemBlock.lent (b : SystemBlock) : Block := ⟨none, b.addr, b.size, b.align⟩

def Pool.issued (p : Pool) : List Block := p.heap.live.map (·.issuedBy p.id)

namespace Machine

/-- A block is live in its pool, or the system heap has handed it out and no pool holds it. -/
def InUse (m : Machine) (c : Block) : Prop :=
  (∃ p ∈ m.pools, c ∈ p.issued) ∨
    ∃ b ∈ m.system.blocks, (∀ p ∈ m.pools, b ∉ p.heap.holdings) ∧ b.lent = c

instance (m : Machine) (c : Block) : Decidable (m.InUse c) := inferInstanceAs (Decidable (_ ∨ _))

/-- All blocks in use, where `loans` are those of the system heap that no pool holds. -/
def issued (m : Machine) (loans : List SystemBlock) : List Block :=
  m.pools.flatMap (·.issued) ++ loans.map (·.lent)

variable {m after : Machine} {lost lost' : List (Address × PoolId)}
  {loans loans' : List SystemBlock} {id : PoolId} {p q : Pool} {c d : Block}

theorem mem_issued {p : Pool} : c ∈ p.issued ↔ ∃ b ∈ p.heap.live, b.issuedBy p.id = c :=
  List.mem_map

theorem Sound.blocks_nodup (sound : m.Sound lost loans) : m.system.blocks.Nodup :=
  sound.below.addr_nodup.of_map

theorem Sound.mem_loans_iff (sound : m.Sound lost loans) {b : SystemBlock} :
    b ∈ loans ↔ b ∈ m.system.blocks ∧ ∀ p ∈ m.pools, b ∉ p.heap.holdings := by
  have unique := sound.held.nodup_iff.1 sound.blocks_nodup
  constructor
  · intro loaned
    refine ⟨sound.held.mem_iff.2 (List.mem_append_right _ loaned), fun p inPools holding => ?_⟩
    have held : b ∈ m.pools.flatMap (·.heap.holdings) := List.mem_flatMap.2 ⟨p, inPools, holding⟩
    exact (List.nodup_append.1 unique).2.2 b held b loaned rfl
  · rintro ⟨stored, free⟩
    rcases List.mem_append.1 (sound.held.subset stored) with held | loaned
    · obtain ⟨p, inPools, holding⟩ := List.mem_flatMap.1 held
      exact absurd holding (free p inPools)
    · exact loaned

theorem Sound.inUse_iff (sound : m.Sound lost loans) : m.InUse c ↔ c ∈ m.issued loans := by
  have lent : (∃ b ∈ m.system.blocks, (∀ p ∈ m.pools, b ∉ p.heap.holdings) ∧ b.lent = c) ↔
      c ∈ loans.map (·.lent) := by
    rw [List.mem_map]
    refine exists_congr fun b => ?_
    rw [sound.mem_loans_iff, and_assoc]
  rw [InUse, issued, List.mem_append, lent, List.mem_flatMap]

theorem issued_spans (m : Machine) (loans : List SystemBlock) :
    (m.issued loans).map (·.span) =
      (m.pools.flatMap fun p => p.heap.live.map (·.span)) ++ loans.map (·.span) := by
  simp only [issued, Pool.issued, List.map_append, List.map_flatMap, List.map_map]
  rfl

theorem Sound.issued_apart (sound : m.Sound lost loans) :
    ((m.issued loans).map (·.span)).Pairwise Span.Apart := by
  refine Span.pairwise_apart (fun s member => ?_) fun x => ?_
  · rw [issued_spans] at member
    rcases List.mem_append.1 member with live | lent
    · exact sound.filled live
    · obtain ⟨b, loaned, rfl⟩ := List.mem_map.1 lent
      exact sound.below.filled b (sound.held.mem_iff.2 (List.mem_append_right _ loaned))
  · have own := sound.cover_le x
    have all := sound.cover_held_le_one x
    rw [issued_spans, Span.cover_append]
    omega

theorem Sound.size_pos (sound : m.Sound lost loans) (inUse : m.InUse c) : 0 < c.size := by
  have member := List.mem_map_of_mem (f := (·.span)) (sound.inUse_iff.1 inUse)
  rw [issued_spans] at member
  rcases List.mem_append.1 member with live | lent
  · exact sound.filled live
  · obtain ⟨b, loaned, same⟩ := List.mem_map.1 lent
    have filled := sound.below.filled b (sound.held.mem_iff.2 (List.mem_append_right _ loaned))
    rwa [same] at filled

theorem Sound.issued_addr_nodup (sound : m.Sound lost loans) :
    ((m.issued loans).map (·.addr)).Nodup := by
  have filled : ∀ s ∈ (m.issued loans).map (·.span), 0 < s.size := by
    intro s member
    obtain ⟨c, inIssued, rfl⟩ := List.mem_map.1 member
    exact sound.size_pos (sound.inUse_iff.2 inIssued)
  have starts := Span.starts_nodup sound.issued_apart filled
  rwa [List.map_map] at starts

/-- No two blocks in use start at the same address. -/
theorem Sound.inUse_unique (sound : m.Sound lost loans) (first : m.InUse c) (second : m.InUse d)
    (same : c.addr = d.addr) : c = d :=
  List.inj_on_of_nodup_map sound.issued_addr_nodup (sound.inUse_iff.1 first)
    (sound.inUse_iff.1 second) same

theorem Sound.inUse_apart (sound : m.Sound lost loans) (first : m.InUse c) (second : m.InUse d)
    (different : c ≠ d) : c.span.Apart d.span := by
  have apart := List.pairwise_map.1 sound.issued_apart
  exact apart.forall (sound.inUse_iff.1 first) (sound.inUse_iff.1 second) different

/-- The bytes of blocks in use are handed out by the system heap. -/
theorem Sound.inUse_held (sound : m.Sound lost loans) (inUse : m.InUse c) {x : Address}
    (inside : c.span.has x = true) : m.system.Holds x := by
  rcases inUse with ⟨p, inPools, own⟩ | ⟨b, stored, _, rfl⟩
  · obtain ⟨b, live, rfl⟩ := mem_issued.1 own
    exact (sound.heap (sound.pool?_eq inPools)).held_of_live live inside
  · exact ⟨b, stored, inside⟩

theorem inUse_of_live {addr : Address} {b : LiveBlock}
    (found : m.pool? id = some p) (live : p.heap.block? addr = some b) :
    m.InUse (b.issuedBy id) ∧ (b.issuedBy id).addr = addr := by
  obtain ⟨inPools, rfl⟩ := pool?_mem found
  obtain ⟨inLive, start⟩ := Heap.block?_mem live
  exact ⟨.inl ⟨p, inPools, mem_issued.2 ⟨b, inLive, rfl⟩⟩, start⟩

/-- What is recorded about a block in use is its owner. -/
theorem Sound.owner?_of_inUse (sound : m.Sound [] loans) (inUse : m.InUse c) :
    m.owner? c.addr = c.owner := by
  have member := sound.inUse_iff.1 inUse
  rcases List.mem_append.1 member with own | lent
  · obtain ⟨p, inPools, own⟩ := List.mem_flatMap.1 own
    obtain ⟨b, live, rfl⟩ := mem_issued.1 own
    exact sound.owner?_of_live ⟨p, inPools, rfl, b, live, rfl⟩
  · obtain ⟨b, loaned, rfl⟩ := List.mem_map.1 lent
    refine sound.tags.owner?_eq_none_iff.2 fun tag tagged => ?_
    have loanedHere : b.lent.addr ∈ loans.map (·.addr) := List.mem_map_of_mem loaned
    have notLive : (b.lent.addr, tag.pool) ∉ m.livePairs := sound.not_live_of_loan loanedHere
    refine notLive (sound.agree.subset (List.mem_append_left _ ?_))
    exact List.mem_map.2 ⟨_, tagged, rfl⟩

/-- Blocks come into use and go out of use; all others stay, and nobody writes to them. -/
structure Exchanges (m after : Machine) (gone new : List Block) (written : List Span) : Prop where
  inUse : ∀ c, after.InUse c ↔ c ∈ new ∨ m.InUse c ∧ c ∉ gone
  old : ∀ c ∈ gone, m.InUse c
  fresh : ∀ c ∈ new, m.InUse c → c ∈ gone
  kept : ∀ c, m.InUse c → c ∉ gone → ∀ x, c.span.has x = true →
    (∀ w ∈ written, ¬ w.has x = true) → after.system.bytes x = m.system.bytes x

/-- A sound state gives way to another one where some blocks in use are different. -/
theorem Sound.exchanges {written : List Span} (sound : m.Sound lost loans)
    (sound' : after.Sound lost' loans') (gone new kept : List Block)
    (before : (m.issued loans).Perm (gone ++ kept))
    (behind : (after.issued loans').Perm (new ++ kept))
    (bytes : ∀ x, m.system.Holds x → (∀ c ∈ gone ++ new, ¬ c.span.has x = true) →
      (∀ w ∈ written, ¬ w.has x = true) → after.system.bytes x = m.system.bytes x) :
    Exchanges m after gone new written := by
  have unique := before.nodup_iff.1 sound.issued_addr_nodup.of_map
  have unique' := behind.nodup_iff.1 sound'.issued_addr_nodup.of_map
  have stays : ∀ c, m.InUse c ∧ c ∉ gone ↔ c ∈ kept := by
    intro c
    rw [sound.inUse_iff, before.mem_iff, List.mem_append]
    have other : c ∈ kept → c ∉ gone := fun inKept inGone =>
      (List.nodup_append.1 unique).2.2 c inGone c inKept rfl
    exact ⟨fun ⟨either, out⟩ => either.resolve_left out, fun inKept => ⟨.inr inKept, other inKept⟩⟩
  have inUse : ∀ c, after.InUse c ↔ c ∈ new ∨ m.InUse c ∧ c ∉ gone := by
    intro c
    rw [sound'.inUse_iff, behind.mem_iff, List.mem_append, stays]
  refine ⟨inUse, fun c inGone => ?_, fun c inNew used => ?_,
    fun c used out x inside unwritten => ?_⟩
  · exact sound.inUse_iff.2 (before.symm.subset (List.mem_append_left _ inGone))
  · by_contra out
    exact (List.nodup_append.1 unique').2.2 c inNew c ((stays c).1 ⟨used, out⟩) rfl
  refine bytes x (sound.inUse_held used inside) (fun d member => ?_) unwritten
  rcases List.mem_append.1 member with inGone | inNew
  · have used' : m.InUse d :=
      sound.inUse_iff.2 (before.symm.subset (List.mem_append_left _ inGone))
    have different : c ≠ d := fun same => out (same ▸ inGone)
    exact (sound.inUse_apart used used' different).not_has inside
  · have used' : after.InUse d := (inUse d).2 (.inl inNew)
    have different : c ≠ d := fun same =>
      (List.nodup_append.1 unique').2.2 d inNew c ((stays c).1 ⟨used, out⟩) same.symm
    exact (sound'.inUse_apart ((inUse c).2 (.inr ⟨used, out⟩)) used' different).not_has inside

variable {middle : Machine} {gone gone' new new' : List Block} {written written' : List Span}

/-- What came into use first and went out of use later was never there. -/
theorem Exchanges.trans (first : Exchanges m middle gone new written)
    (second : Exchanges middle after gone' new' written') :
    Exchanges m after (gone ++ gone'.filter (· ∉ new)) (new.filter (· ∉ gone') ++ new')
      (written ++ written') := by
  have inMiddle := first.inUse
  have fresh := first.fresh
  refine ⟨fun c => ?_, fun c inGone => ?_, fun c inNew used => ?_,
    fun c used out x inside unwritten => ?_⟩
  · rw [second.inUse, inMiddle]
    simp only [List.mem_append, List.mem_filter, decide_eq_true_eq]
    have notFresh := fresh c
    tauto
  · rcases List.mem_append.1 inGone with early | late
    · exact first.old c early
    · obtain ⟨inGone', old⟩ := List.mem_filter.1 late
      have used := (inMiddle c).1 (second.old c inGone')
      exact (used.resolve_left (of_decide_eq_true old)).1
  · refine List.mem_append.2 ?_
    rcases List.mem_append.1 inNew with early | late
    · exact .inl (fresh c (List.mem_filter.1 early).1 used)
    · refine or_iff_not_imp_left.2 fun stays => List.mem_filter.2 ⟨?_, decide_eq_true ?_⟩
      · exact second.fresh c late ((inMiddle c).2 (.inr ⟨used, stays⟩))
      · exact fun inNew => stays (fresh c inNew used)
  · simp only [List.mem_append, List.mem_filter, decide_eq_true_eq, not_or, not_and, not_not] at out
    have outLater : c ∉ gone' := fun inGone' => out.1 (fresh c (out.2 inGone') used)
    have stays := (inMiddle c).2 (.inr ⟨used, out.1⟩)
    exact (second.kept c stays outLater x inside fun w member =>
      unwritten w (List.mem_append_right _ member)).trans
        (first.kept c used out.1 x inside fun w member =>
          unwritten w (List.mem_append_left _ member))

/-- Bytes that are written to need no mention if they lie in none of the blocks that stay. -/
theorem Exchanges.unwritten (exchanges : Exchanges m after gone new written)
    (apart : ∀ w ∈ written, ∀ c, m.InUse c → c ∉ gone → c.span.Apart w) :
    Exchanges m after gone new [] where
  inUse := exchanges.inUse
  old := exchanges.old
  fresh := exchanges.fresh
  kept := fun c used out x inside _ => exchanges.kept c used out x inside fun w member =>
    (apart w member c used out).not_has inside

end Machine

end PooledMemory
