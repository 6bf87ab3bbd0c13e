import Mathlib.Data.List.Perm.Basic
import PooledMemory.Proofs.Keyed
import PooledMemory.Proofs.Span
import PooledMemory.SystemHeap

namespace PooledMemory

def SystemBlock.span (b : SystemBlock) : Span := ⟨b.addr, b.size⟩

namespace SystemHeap

/-- All bytes of a block, the spare ones included. -/
def reach (s : SystemHeap) (b : SystemBlock) : Span := ⟨b.addr, s.extent b.addr b.size⟩

/-- A block starts a slot and ends in it, or it lies behind all slots and below the frontier. -/
def InZone (frontier : Address) (s : Span) : Prop :=
  (∃ slot, slot < slotCount ∧ s.addr = slotBase slot ∧ s.size ≤ segmentBytes) ∨
    firstBlock ≤ s.addr ∧ s.stop ≤ frontier

/-- Blocks that were handed out and not returned have no byte in common. -/
structure Sound (s : SystemHeap) : Prop where
  separate : s.blocks.Pairwise fun b c => (s.reach b).Apart (s.reach c)
  filled : ∀ b ∈ s.blocks, 0 < b.span.size
  zoned : ∀ b ∈ s.blocks, InZone s.frontier (s.reach b)
  frontier : firstBlock ≤ s.frontier

theorem start_sound (slots : List Nat) : (start slots).Sound where
  separate := .nil
  filled := by simp [start]
  zoned := by simp [start]
  frontier := Nat.le_refl _

theorem InZone.mono {low high : Nat} {s : Span} (zone : InZone low s) (le : low ≤ high) :
    InZone high s :=
  zone.imp_right fun behind => ⟨behind.1, Nat.le_trans behind.2 le⟩

theorem slot_low {slot : Nat} (bound : slot < slotCount) :
    slotBase slot + segmentBytes ≤ firstBlock := by
  have last : slotBase slotCount + segmentBytes ≤ firstBlock := by decide
  have below : slotBase slot ≤ slotBase slotCount :=
    Nat.mul_le_mul_right segmentBytes (Nat.succ_le_succ (Nat.le_of_lt bound))
  exact Nat.le_trans (Nat.add_le_add_right below _) last

/-- A span that starts a slot ends before all that lies behind the slots. -/
theorem stop_low {slot : Nat} {u : Span} (bound : slot < slotCount) (start : u.addr = slotBase slot)
    (fits : u.size ≤ segmentBytes) : u.stop ≤ firstBlock := by
  rw [Span.stop, start]
  exact Nat.le_trans (Nat.add_le_add_left fits _) (slot_low bound)

/-- Two spans are apart if they start at different places and, where both lie behind the slots, one of
them lies behind the other. -/
theorem InZone.apart {low high : Address} {u v : Span} (zone : InZone low u) (zone' : InZone high v)
    (differ : u.addr ≠ v.addr)
    (behind : firstBlock ≤ u.addr → firstBlock ≤ v.addr → v.stop ≤ u.addr) : u.Apart v := by
  rcases zone with ⟨slot, bound, start, fits⟩ | ⟨beyond, _⟩
  · rcases zone' with ⟨slot', _, start', fits'⟩ | ⟨beyond', _⟩
    · simp only [Span.Apart, Span.stop, slotBase, segmentBytes] at *
      omega
    · exact .inl (Nat.le_trans (stop_low bound start fits) beyond')
  · rcases zone' with ⟨slot', bound', start', fits'⟩ | ⟨beyond', _⟩
    · exact .inr (Nat.le_trans (stop_low bound' start' fits') beyond)
    · exact .inr (behind beyond beyond')

theorem slotOf?_slotBase {slot : Nat} (bound : slot < slotCount) :
    (slotOf? (slotBase slot)).isSome = true := by
  have inSlots : segmentBytes ≤ slotBase slot ∧ slotBase slot < slotBase slotCount :=
    ⟨Nat.le_mul_of_pos_left _ slot.succ_pos,
      Nat.mul_lt_mul_of_pos_right (Nat.succ_lt_succ bound) (by decide)⟩
  rw [slotOf?, if_pos inSlots, Option.isSome_some]

theorem slotOf?_behind {addr : Address} (behind : firstBlock ≤ addr) :
    (slotOf? addr).isSome = false := by
  have outside : ¬ (segmentBytes ≤ addr ∧ addr < slotBase slotCount) := fun inSlots =>
    Nat.not_lt.2 (Nat.le_trans (by decide : slotBase slotCount ≤ firstBlock) behind) inSlots.2
  rw [slotOf?, if_neg outside, Option.isSome_none]

theorem size_le_extent (s : SystemHeap) (addr : Address) (size : Nat) :
    size ≤ s.extent addr size := by
  unfold extent
  split
  · exact Nat.le_refl _
  · exact Nat.le_add_right _ _

theorem span_within_reach (s : SystemHeap) (b : SystemBlock) : b.span.Within (s.reach b) :=
  Span.within_of_le (s.size_le_extent b.addr b.size)

variable {s t after : SystemHeap} {b : SystemBlock} {size align addr : Nat} {zeroed : Bool}

/-- Spare bytes are a matter of addresses and sizes. -/
theorem reach_of_spare (spare : t.spare = s.spare) : t.reach = s.reach := by
  funext b
  simp only [reach, extent, spare]

theorem Sound.apart (sound : s.Sound) : s.blocks.Pairwise fun b c => b.span.Apart c.span := by
  refine sound.separate.imp fun {b c} apart => ?_
  have first : c.span.Apart (s.reach b) := (apart.mono (s.span_within_reach c)).symm
  exact (first.mono (s.span_within_reach b)).symm

theorem Sound.restrict (sound : s.Sound) (fewer : t.blocks.Sublist s.blocks)
    (same : t.frontier = s.frontier) (spare : t.spare = s.spare) : t.Sound where
  separate := by
    rw [reach_of_spare spare]
    exact sound.separate.sublist fewer
  filled := fun b member => sound.filled b (fewer.subset member)
  zoned := by
    rw [reach_of_spare spare, same]
    exact fun b member => sound.zoned b (fewer.subset member)
  frontier := same ▸ sound.frontier

/-- A block may join others if none of its bytes is one of theirs. -/
theorem Sound.join {others : List SystemBlock} (sound : s.Sound) (kept : others.Sublist s.blocks)
    (blocks : t.blocks = b :: others) (spare : t.spare = s.spare)
    (frontier : t.frontier = max s.frontier (s.reach b).stop) (filled : 0 < b.size)
    (zone : InZone (max s.frontier (s.reach b).stop) (s.reach b))
    (apart : ∀ c ∈ others, (s.reach b).Apart (s.reach c)) : t.Sound := by
  have grown : s.frontier ≤ t.frontier := frontier ▸ Nat.le_max_left ..
  refine ⟨?_, ?_, ?_, Nat.le_trans sound.frontier grown⟩
  · rw [blocks, reach_of_spare spare]
    exact .cons apart (sound.separate.sublist kept)
  · rw [blocks]
    exact List.forall_mem_cons.2 ⟨filled, fun c member => sound.filled c (kept.subset member)⟩
  · rw [blocks, reach_of_spare spare]
    exact List.forall_mem_cons.2
      ⟨frontier ▸ zone, fun c member => (sound.zoned c (kept.subset member)).mono grown⟩

theorem address_zone (found : s.address? size align = some addr) :
    (size = segmentBytes ∧ ∃ slot, slot < slotCount ∧ addr = slotBase slot ∧
      s.block? addr = none) ∨ s.frontier ≤ addr := by
  unfold address? at found
  split at found
  · rename_i exact'
    obtain ⟨slot, free, rfl⟩ := Option.map_eq_some_iff.1 found
    have usable := List.find?_some free
    simp only [Bool.and_eq_true, decide_eq_true_eq, Option.isNone_iff_eq_none] at usable
    simp only [needsSlot, Bool.and_eq_true, beq_iff_eq] at exact'
    exact Or.inl ⟨exact'.1, slot, usable.1, rfl, usable.2⟩
  · simp only at found
    split at found
    · cases found
      exact Or.inr (Word.le_roundUp _ _)
    · cases found

theorem addr_ne_of_block?_eq_none (free : s.block? addr = none) (member : b ∈ s.blocks) :
    b.addr ≠ addr := by
  simpa using List.find?_eq_none.1 free b member

theorem Sound.stop_le_frontier (sound : s.Sound) (member : b ∈ s.blocks)
    (behind : firstBlock ≤ b.addr) : (s.reach b).stop ≤ s.frontier := by
  rcases sound.zoned b member with ⟨slot, bound, start, _⟩ | ⟨_, below⟩
  · have low := slotOf?_slotBase bound
    rw [← start] at low
    exact nomatch low.symm.trans (slotOf?_behind behind)
  · exact below

/-- A place for the bytes of a block: it is where blocks may be, and nobody else has any of it. -/
structure Place (s : SystemHeap) (others : List SystemBlock) (u : Span) : Prop where
  zone : InZone (max s.frontier u.stop) u
  apart : ∀ c ∈ others, u.Apart (s.reach c)

theorem Sound.address_place (sound : s.Sound) (found : s.address? size align = some addr) :
    s.Place s.blocks ⟨addr, s.extent addr size⟩ := by
  have frontier := sound.frontier
  have higher : s.frontier ≤ max s.frontier (addr + s.extent addr size) := Nat.le_max_left ..
  rcases address_zone found with ⟨rfl, slot, bound, rfl, free⟩ | behind
  · have inSlot := slotOf?_slotBase bound
    have zone : InZone (max s.frontier (slotBase slot + s.extent (slotBase slot) segmentBytes))
        ⟨slotBase slot, s.extent (slotBase slot) segmentBytes⟩ :=
      .inl ⟨slot, bound, rfl, Nat.le_of_eq (if_pos inSlot)⟩
    refine ⟨zone, fun c member => zone.apart ((sound.zoned c member).mono higher)
      (addr_ne_of_block?_eq_none free member).symm fun beyond => ?_⟩
    cases inSlot.symm.trans (slotOf?_behind beyond)
  · have zone : InZone (max s.frontier (addr + s.extent addr size)) ⟨addr, s.extent addr size⟩ :=
      .inr ⟨Nat.le_trans frontier behind, Nat.le_max_right ..⟩
    have ends : ∀ c ∈ s.blocks, firstBlock ≤ c.addr → (s.reach c).stop ≤ addr :=
      fun c member beyond => Nat.le_trans (sound.stop_le_frontier member beyond) behind
    refine ⟨zone, fun c member => zone.apart ((sound.zoned c member).mono higher) (fun here => ?_)
      fun _ => ends c member⟩
    -- the bytes of the other block would end before they start
    have here : addr = c.addr := here
    have last := ends c member (here ▸ Nat.le_trans frontier behind)
    have filled := sound.filled c member
    have inside := (s.span_within_reach c).2
    simp only [Span.stop, SystemBlock.span] at *
    omega

/-- A new block has no byte in common with those that were handed out before. -/
theorem Sound.take (sound : s.Sound) (filled : 0 < size)
    (taken : s.take? size align zeroed = some (addr, after)) :
    after.Sound ∧ after.blocks = ⟨addr, size, max align granule⟩ :: s.blocks := by
  unfold take? at taken
  split at taken
  · cases taken
  · obtain ⟨found, address, same⟩ := Option.map_eq_some_iff.1 taken
    cases same
    have place := sound.address_place address
    exact ⟨sound.join (b := ⟨addr, size, max align granule⟩) (.refl _) rfl rfl rfl filled place.zone
      place.apart, rfl⟩

/-- A block that can stay where it is finds its place there. -/
theorem Sound.stay_place (sound : s.Sound) (stays : s.canStay addr size align = true) :
    s.Place (s.blocks.filter (·.addr != addr)) ⟨addr, s.extent addr size⟩ := by
  simp only [canStay, Bool.and_eq_true, decide_eq_true_eq, List.all_eq_true,
    Bool.or_eq_true, beq_iff_eq] at stays
  obtain ⟨⟨⟨⟨_, known⟩, _⟩, fits⟩, others⟩ := stays
  obtain ⟨b, found⟩ := Option.isSome_iff_exists.1 known
  have member := List.mem_of_find?_eq_some found
  obtain rfl : b.addr = addr := by simpa using List.find?_some found
  refine ⟨?_, fun c other => ?_⟩
  · rcases sound.zoned b member with ⟨slot, bound, start, _⟩ | ⟨behind, _⟩
    · have inSlot := slotOf?_slotBase bound
      have start : b.addr = slotBase slot := start
      rw [← start] at inSlot
      rw [if_pos inSlot] at fits
      exact .inl ⟨slot, bound, start, Nat.le_trans (Nat.le_of_eq (if_pos inSlot)) fits⟩
    · exact .inr ⟨behind, Nat.le_max_right ..⟩
  · obtain ⟨inBlocks, differs⟩ := List.mem_filter.1 other
    rcases others c inBlocks with (same | before) | behind
    · exact absurd same (by simpa using differs)
    · exact .inl before
    · exact .inr behind

theorem Sound.newPlace (sound : s.Sound) {place : Address}
    (found : s.newPlace? addr size align = some place) :
    s.Place (s.blocks.filter (·.addr != addr)) ⟨place, s.extent place size⟩ := by
  unfold newPlace? at found
  split at found
  · rename_i stays
    cases found
    exact sound.stay_place stays
  · have free := sound.address_place found
    exact ⟨free.zone, fun c member => free.apart c (List.mem_of_mem_filter member)⟩

theorem Sound.addr_nodup (sound : s.Sound) : (s.blocks.map (·.addr)).Nodup := by
  have starts := Span.starts_nodup (List.pairwise_map.2 sound.apart) (List.forall_mem_map.2 sound.filled)
  rwa [List.map_map] at starts

/-- Leaving out the address of the first block leaves the others. -/
theorem Sound.filter_perm {rest : List SystemBlock} (sound : s.Sound)
    (perm : s.blocks.Perm (b :: rest)) : (s.blocks.filter (·.addr != b.addr)).Perm rest :=
  Keyed.filter_perm SystemBlock.addr sound.addr_nodup perm

theorem Sound.release (sound : s.Sound) (addr : Address) : (s.release addr).Sound :=
  sound.restrict List.filter_sublist rfl rfl

/-- Blocks that are returned one by one leave the others. -/
theorem Sound.releaseEach {blocks rest : List SystemBlock} (sound : s.Sound)
    (perm : s.blocks.Perm (blocks ++ rest)) :
    (blocks.foldl (fun system b => system.release b.addr) s).Sound ∧
      (blocks.foldl (fun system b => system.release b.addr) s).blocks.Perm rest := by
  induction blocks generalizing s with
  | nil => exact ⟨sound, perm⟩
  | cons b others ih => exact ih (sound.release b.addr) (sound.filter_perm perm)

theorem Sound.resize {rest : List SystemBlock} {moved : Nat} (sound : s.Sound) (filled : 0 < size)
    (perm : s.blocks.Perm (b :: rest))
    (resized : s.resize? b.addr size align = some (moved, after)) :
    after.Sound ∧ after.blocks.Perm (⟨moved, size, max align granule⟩ :: rest) := by
  unfold resize? at resized
  split at resized
  · cases resized
  · obtain ⟨place, found, same⟩ := Option.map_eq_some_iff.1 resized
    cases same
    have free := sound.newPlace found
    exact ⟨sound.join (b := ⟨moved, size, max align granule⟩) List.filter_sublist rfl rfl rfl filled
      free.zone free.apart, (sound.filter_perm perm).cons _⟩

end SystemHeap

end PooledMemory
