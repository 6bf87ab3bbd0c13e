import Mathlib.Order.Bounds.Defs
import PooledMemory.Proofs.Heap.Bins
import PooledMemory.Proofs.Heap.InPlace

namespace PooledMemory

/-- A span that is apart from all others has no byte in common with them. -/
theorem Span.cover_eq_zero {s : Span} {spans : List Span} {x : Nat}
    (apart : ∀ u ∈ spans, s.Apart u) (inside : s.has x = true) : cover spans x = 0 := by
  refine List.countP_eq_zero.2 fun u member => ?_
  have clear := apart u member
  rw [has_iff] at inside ⊢
  unfold Apart at clear
  omega

namespace FreeRange

variable {bound low base chunk align offset : Nat} {ranges left : List FreeRange}

/-- Some aligned `chunk` bytes that start at the offset lie in one of the ranges. -/
def FitsAt (ranges : List FreeRange) (base chunk align offset : Nat) : Prop :=
  align ∣ base + offset ∧ ∃ r ∈ ranges, r.start ≤ offset ∧ offset + chunk ≤ r.stop

/-- The ranges are searched by ascending offset, and the least aligned offset of each is tried, so
that no lower one is passed over. -/
theorem carve_least (spaced : Spaced bound low ranges) (filled : 0 < chunk) (positive : 0 < align)
    (word : ∀ r ∈ ranges, base + r.stop ≤ wordSize)
    (carved : carve base chunk align ranges = some (offset, left)) :
    IsLeast {x | FitsAt ranges base chunk align x} offset := by
  induction ranges generalizing low left with
  | nil => cases carved
  | cons r rest ih =>
    obtain ⟨_, _, _, behind⟩ := spaced
    obtain ⟨wordHere, wordRest⟩ := List.forall_mem_cons.1 word
    have found := padding?_eq (r := r) filled positive wordHere
    have above := Word.le_roundUp (base + r.start) align
    simp only [carve] at carved
    split at carved
    · rename_i padding fits
      cases carved
      rw [fits] at found
      split at found
      · rename_i room
        cases found
        have start : base + (r.start + (Word.roundUp (base + r.start) align - (base + r.start))) =
            Word.roundUp (base + r.start) align := by omega
        refine ⟨⟨?_, r, List.mem_cons_self .., Nat.le_add_right _ _, by omega⟩, ?_⟩
        · rw [start]
          exact Word.dvd_roundUp positive
        · rintro x ⟨aligned, s, member, lower, upper⟩
          rcases List.mem_cons.1 member with rfl | later
          · have least := Word.roundUp_le (Nat.add_le_add_left lower base) positive aligned
            omega
          · have beyond := (behind.mem later).1
            omega
      · cases found
    · rename_i unfit
      obtain ⟨⟨later, tail⟩, inner, same⟩ := Option.map_eq_some_iff.1 carved
      cases same
      obtain ⟨⟨aligned, s, member, inside⟩, least⟩ := ih behind wordRest inner
      refine ⟨⟨aligned, s, List.mem_cons_of_mem _ member, inside⟩, ?_⟩
      rintro x ⟨aligned', t, member', lower, upper⟩
      rcases List.mem_cons.1 member' with rfl | later'
      · have holds := (padding?_isSome_iff filled positive wordHere).2 ⟨x, lower, upper, aligned'⟩
        rw [unfit] at holds
        cases holds
      · exact least ⟨aligned', t, later', lower, upper⟩

end FreeRange

namespace Segment

variable {s t : Segment} {u : Span} {chunk align addr offset : Nat}

theorem Sound.within_of_allFree (sound : s.Sound) (filled : 0 < u.size) (free : s.AllFree u) :
    u.Within s.frame := by
  have inside : ∀ x, u.has x = true → s.frame.addr ≤ x ∧ x < s.frame.stop := by
    intro x has
    have bound := sound.freeCover_le x
    rw [free x has] at bound
    by_contra outside
    rw [Span.hits, if_neg outside] at bound
    cases bound
  have first := inside u.addr (Span.has_iff.2 ⟨Nat.le_refl _, Nat.lt_add_of_pos_right filled⟩)
  have last := inside (u.stop - 1) (Span.has_iff.2 (by simp only [Span.stop]; omega))
  simp only [Span.Within, Span.stop] at last ⊢
  omega

/-- Free bytes without a gap among them lie in one range. -/
theorem Sound.fitsAt_iff (sound : s.Sound) (filled : 0 < chunk) :
    FreeRange.FitsAt s.free s.frame.addr chunk align offset ↔
      align ∣ s.frame.addr + offset ∧ s.AllFree ⟨s.frame.addr + offset, chunk⟩ := by
  refine and_congr_right fun _ => ?_
  rw [sound.allFree_iff]
  constructor
  · rintro ⟨r, member, lower, upper⟩ x first last
    exact ⟨r, member, Nat.le_trans lower first, Nat.lt_of_lt_of_le last upper⟩
  · exact sound.spaced.run filled

theorem Sound.exists_holds_iff (sound : s.Sound) (filled : 0 < chunk) :
    (∃ r ∈ s.free, r.Holds s.base chunk align) ↔ ∃ a, align ∣ a ∧ s.AllFree ⟨a, chunk⟩ := by
  constructor
  · rintro ⟨r, member, offset, lower, upper, aligned⟩
    exact ⟨_, (sound.fitsAt_iff filled).1 ⟨aligned, r, member, lower, upper⟩⟩
  · rintro ⟨a, aligned, free⟩
    obtain ⟨lower, _⟩ := sound.within_of_allFree filled free
    obtain ⟨x, rfl⟩ : ∃ x, a = s.frame.addr + x :=
      ⟨a - s.frame.addr, (Nat.add_sub_cancel' lower).symm⟩
    obtain ⟨_, r, member, first, last⟩ := (sound.fitsAt_iff filled).2 ⟨aligned, free⟩
    exact ⟨r, member, x, first, last, aligned⟩

/-- A segment gives the least address that is free and aligned. -/
theorem Sound.carve_least (sound : s.Sound) (filled : 0 < chunk) (positive : 0 < align)
    (low : s.frame.stop ≤ SystemHeap.firstBlock) (carved : s.carve chunk align = some (addr, t)) :
    IsLeast {a | align ∣ a ∧ s.AllFree ⟨a, chunk⟩} addr := by
  obtain ⟨⟨offset, left⟩, inner, same⟩ := Option.map_eq_some_iff.1 carved
  cases same
  have small : SystemHeap.firstBlock ≤ wordSize := by decide
  have word : ∀ r ∈ s.free, s.base + r.stop ≤ wordSize := by
    intro r member
    have upper := (sound.spaced.mem member).2.2
    exact Nat.le_trans (Nat.add_le_add_left upper s.base) (Nat.le_trans low small)
  obtain ⟨fits, least⟩ := FreeRange.carve_least sound.spaced filled positive word inner
  refine ⟨(sound.fitsAt_iff filled).1 fits, ?_⟩
  rintro a ⟨aligned, free⟩
  obtain ⟨lower, _⟩ := sound.within_of_allFree filled free
  obtain ⟨x, rfl⟩ : ∃ x, a = s.frame.addr + x := ⟨a - s.frame.addr, (Nat.add_sub_cancel' lower).symm⟩
  exact Nat.add_le_add_left (least ((sound.fitsAt_iff filled).2 ⟨aligned, free⟩)) s.base

/-- The first block in a new segment starts where the segment does. -/
theorem fresh_carve_base {base : Address} (low : base + segmentBytes ≤ SystemHeap.firstBlock)
    (filled : 0 < chunk) (positive : 0 < align) (aligned : align ∣ base)
    (carved : (fresh base segmentBytes).carve chunk align = some (addr, t)) : addr = base := by
  have sound := fresh_sound base
  have least := sound.carve_least filled positive low carved
  obtain ⟨_, _, within, _⟩ := sound.carve filled carved
  refine least.unique ⟨⟨aligned, fun x has => ?_⟩, fun a feasible => ?_⟩
  · obtain ⟨lower, upper⟩ := Span.has_iff.1 has
    rw [fresh_freeCover]
    refine Span.hits_of_has lower ?_
    simp only [Span.Within, Span.stop, frame, fresh] at within upper ⊢
    omega
  · exact (sound.within_of_allFree filled feasible.2).1

end Segment

namespace Heap

variable {h unparked after : Heap} {system below : SystemHeap} {rest : List SystemBlock}
  {segments : List Segment} {places : List Span} {chunk align addr : Nat}
  {step : HeapStep (Option Address)}

/-- `chunk` bytes at the address, which is a multiple of `align`, are free within one segment. -/
def Feasible (segments : List Segment) (chunk align : Nat) (addr : Address) : Prop :=
  align ∣ addr ∧ ∃ s ∈ segments, s.AllFree ⟨addr, chunk⟩

theorem hasRoom_iff_feasible (sound : ∀ s ∈ segments, s.Sound) (filled : 0 < chunk) :
    HasRoom segments chunk align ↔ ∃ addr, Feasible segments chunk align addr := by
  constructor
  · rintro ⟨s, member, holds⟩
    obtain ⟨a, aligned, free⟩ := ((sound s member).exists_holds_iff filled).1 holds
    exact ⟨a, aligned, s, member, free⟩
  · rintro ⟨a, aligned, s, member, free⟩
    exact ⟨s, member, ((sound s member).exists_holds_iff filled).2 ⟨a, aligned, free⟩⟩

/-- `chunk` bytes at the address, which is a multiple of `align`, lie in one of the segments and have
no byte in common with any of the places. What is free is not asked for. -/
structure Unoccupied (segments : List Segment) (places : List Span) (chunk align : Nat)
    (addr : Address) : Prop where
  aligned : align ∣ addr
  within : ∃ s ∈ segments, Span.Within ⟨addr, chunk⟩ s.frame
  clear : ∀ u ∈ places, Span.Apart ⟨addr, chunk⟩ u

/-- What is not taken by places is free. -/
theorem Tiles.feasible_iff (tiles : Tiles segments places) (filled : 0 < chunk) :
    Feasible segments chunk align addr ↔ Unoccupied segments places chunk align addr := by
  constructor
  · rintro ⟨aligned, s, member, free⟩
    have within := (tiles.sound s member).within_of_allFree filled free
    refine ⟨aligned, ⟨s, member, within⟩, fun u inPlaces => ?_⟩
    by_contra overlap
    -- a byte of both would be free and in use
    obtain ⟨x, inChunk, inPlace⟩ := Span.exists_common filled (tiles.inside u inPlaces).1 overlap
    have has : (⟨addr, chunk⟩ : Span).has x = true := Span.has_of_hits inChunk
    obtain ⟨lower, upper⟩ := Span.has_iff.1 (within.has has)
    have once := tiles.covered_inside member lower upper
    have used := Span.hits_le_cover inPlaces x
    rw [free x has] at once
    omega
  · rintro ⟨aligned, ⟨s, member, within⟩, clear⟩
    refine ⟨aligned, s, member, fun x has => ?_⟩
    obtain ⟨lower, upper⟩ := Span.has_iff.1 (within.has has)
    have once := tiles.covered_inside member lower upper
    rwa [Span.cover_eq_zero clear has, Nat.zero_add] at once

/-- Blocks in use and parked chunks are what stands in the way of others. -/
theorem Sound.feasible_iff (sound : h.Sound system rest []) (filled : 0 < chunk) :
    Feasible h.segments chunk align addr ↔ Unoccupied h.segments h.places chunk align addr :=
  sound.tiles.feasible_iff filled

/-- When all parked chunks are back, only blocks in use do. -/
theorem Sound.feasible_unparked_iff (sound : h.Sound system rest [])
    (returned : h.unpark = .ok unparked) (filled : 0 < chunk) :
    Feasible unparked.segments chunk align addr ↔
      Unoccupied h.segments (LiveBlock.places h.live) chunk align addr := by
  obtain ⟨_, returned', emptied, books, sound'⟩ := sound.unpark
  cases returned.symm.trans returned'
  have places : unparked.places = LiveBlock.places h.live := by
    rw [Heap.places, emptied, books.live, List.map_nil, List.append_nil]
  have framed : ∀ segments : List Segment,
      (∃ s ∈ segments, Span.Within ⟨addr, chunk⟩ s.frame) ↔
        ∃ f ∈ segments.map (·.frame), Span.Within ⟨addr, chunk⟩ f := fun segments => by
    simp only [List.mem_map, exists_exists_and_eq_and]
  rw [sound'.feasible_iff filled, places]
  refine ⟨fun unoccupied => ⟨unoccupied.aligned, ?_, unoccupied.clear⟩,
    fun unoccupied => ⟨unoccupied.aligned, ?_, unoccupied.clear⟩⟩
  · rw [framed, ← unpark_frames returned, ← framed]
    exact unoccupied.within
  · rw [framed, unpark_frames returned, ← framed]
    exact unoccupied.within

/-- Besides the parked chunks, all aligned bytes of segments serve that are clear of blocks in use. -/
theorem Sound.affords_iff (sound : h.Sound system rest []) (filled : 0 < chunk) :
    h.Affords chunk align ↔ (align = granule ∧ ∃ c ∈ h.parked, c.size = chunk) ∨
      ∃ a, Unoccupied h.segments (LiveBlock.places h.live) chunk align a := by
  obtain ⟨unparked, returned, _, _, after⟩ := sound.unpark
  have room : HasRoom unparked.segments chunk align ↔
      ∃ a, Unoccupied h.segments (LiveBlock.places h.live) chunk align a := by
    simp only [hasRoom_iff_feasible after.tiles.sound filled,
      sound.feasible_unparked_iff returned filled]
  constructor
  · intro affords
    cases affords with
    | parked plain waits exact' => exact .inl ⟨plain, _, waits, exact'⟩
    | free found =>
      obtain ⟨a, feasible⟩ := (hasRoom_iff_feasible sound.tiles.sound filled).1 found
      obtain ⟨aligned, within, clear⟩ := (sound.feasible_iff filled).1 feasible
      exact .inr ⟨a, aligned, within, fun u live => clear u (List.mem_append_left _ live)⟩
    | merged returned' found =>
      cases returned.symm.trans returned'
      exact .inr (room.1 found)
  · rintro (⟨plain, c, waits, exact'⟩ | unoccupied)
    · exact .parked plain waits exact'
    · exact .merged returned (room.2 unoccupied)

/-- The first segment with room has the least address that is feasible, as the segments are in
order. -/
theorem carveFirst_least {left : List Segment} (ordered : Segment.Ordered segments)
    (low : ∀ f ∈ segments.map (·.frame), f.stop ≤ SystemHeap.firstBlock) (filled : 0 < chunk)
    (positive : 0 < align) (carved : carveFirst chunk align segments = some (addr, left)) :
    IsLeast {a | Feasible segments chunk align a} addr := by
  induction segments generalizing left with
  | nil => cases carved
  | cons s others ih =>
    obtain ⟨soundHere, soundOthers⟩ := List.forall_mem_cons.1 ordered.sound
    obtain ⟨lowHere, lowOthers⟩ := List.forall_mem_cons.1 low
    obtain ⟨first, sorted⟩ := List.pairwise_cons.1 ordered.sorted
    have room := soundHere.carve_isSome_iff filled positive lowHere
    simp only [carveFirst] at carved
    split at carved
    · rename_i taken
      cases carved
      split at taken
      · obtain ⟨⟨aligned, free⟩, least⟩ := soundHere.carve_least filled positive lowHere taken
        refine ⟨⟨aligned, s, List.mem_cons_self .., free⟩, ?_⟩
        rintro a ⟨aligned', t, member, free'⟩
        rcases List.mem_cons.1 member with rfl | later
        · exact least ⟨aligned', free'⟩
        · have here := soundHere.within_of_allFree filled free
          have there := (soundOthers t later).within_of_allFree filled free'
          have apart := first t.frame (List.mem_map_of_mem later)
          exact Nat.le_trans (Nat.le_add_right addr chunk)
            (Nat.le_trans here.2 (Nat.le_trans apart there.1))
      · cases taken
    · rename_i full
      obtain ⟨⟨later, tail⟩, inner, same⟩ := Option.map_eq_some_iff.1 carved
      cases same
      obtain ⟨⟨aligned, t, member, free⟩, least⟩ := ih ⟨soundOthers, sorted⟩ lowOthers inner
      refine ⟨⟨aligned, t, List.mem_cons_of_mem _ member, free⟩, ?_⟩
      rintro a ⟨aligned', u, member', free'⟩
      rcases List.mem_cons.1 member' with rfl | later'
      · -- the counter of free bytes never rules out a segment with room
        have some' := room.2 ((soundHere.exists_holds_iff filled).2 ⟨a, aligned', free'⟩)
        rw [full] at some'
        cases some'
      · exact least ⟨aligned', u, later', free'⟩

theorem Sound.carve_least (sound : h.Sound system rest []) (tallied : h.Tallied) (filled : 0 < chunk)
    (positive : 0 < align) (carved : h.carve chunk align = some (addr, after)) :
    IsLeast {a | Feasible h.segments chunk align a} addr := by
  obtain ⟨⟨a, left⟩, inner, same⟩ := Option.map_eq_some_iff.1 carved
  cases same
  exact carveFirst_least sound.tiles.toOrdered tallied.low filled positive inner

theorem Sound.infeasible_of_carve (sound : h.Sound system rest []) (tallied : h.Tallied)
    (filled : 0 < chunk) (positive : 0 < align) (full : h.carve chunk align = none) (a : Address) :
    ¬ Feasible h.segments chunk align a := by
  intro feasible
  have room := (sound.carve_isSome_iff tallied filled positive).2
    ((hasRoom_iff_feasible sound.tiles.sound filled).2 ⟨a, feasible⟩)
  rw [full] at room
  cases room

/-- Where a block is placed that needs no region of its own. The `age` of a parked chunk tells for how
long it has been parked. -/
inductive Picks (age : ParkedChunk → Nat) (h : Heap) (system : SystemHeap) (chunk align : Nat) :
    Address → Prop
  /-- The chunk of exactly this size that was parked last serves where no more than a granule has to
  be aligned. -/
  | parked {c : ParkedChunk} : align = granule → c ∈ h.bin chunk →
    (∀ d ∈ h.bin chunk, d ≠ c → age c < age d) → Picks age h system chunk align c.addr
  | free {addr : Address} : (align = granule → h.bin chunk = []) →
    IsLeast {a | Feasible h.segments chunk align a} addr → Picks age h system chunk align addr
  /-- All parked chunks are moved back first. -/
  | merged {unparked : Heap} {addr : Address} : (align = granule → h.bin chunk = []) →
    (∀ a, ¬ Feasible h.segments chunk align a) → h.unpark = .ok unparked →
    IsLeast {a | Feasible unparked.segments chunk align a} addr →
    Picks age h system chunk align addr
  | fresh {unparked : Heap} {base : Address} {below : SystemHeap} :
    (align = granule → h.bin chunk = []) → (∀ a, ¬ Feasible h.segments chunk align a) →
    h.unpark = .ok unparked → (∀ a, ¬ Feasible unparked.segments chunk align a) →
    system.takeSegment? = some (base, below) → Picks age h system chunk align base

theorem takeParked_of_none (none' : h.takeParked chunk = none) : h.bin chunk = [] := by
  rw [Heap.takeParked, Option.map_eq_none_iff, List.find?_eq_none] at none'
  exact List.filter_eq_nil_iff.2 none'

variable {age : ParkedChunk → Nat} {size : Nat}

/-- A parked chunk that is taken is the youngest of its bin. -/
theorem takeParked_youngest (stacked : ParkedChunk.Stacked age h.parked)
    (taken : h.takeParked chunk = some (addr, after)) :
    ∃ c ∈ h.bin chunk, c.addr = addr ∧ ∀ d ∈ h.bin chunk, d ≠ c → age c < age d := by
  obtain ⟨c, found, same⟩ := Option.map_eq_some_iff.1 taken
  cases same
  have exact' : c.size = chunk := by simpa using List.find?_some found
  have inBin : c ∈ h.bin chunk :=
    List.mem_filter.2 ⟨List.mem_of_find?_eq_some found, beq_iff_eq.2 exact'⟩
  refine ⟨c, inBin, rfl, fun d inBin' other => ?_⟩
  obtain ⟨waits, size⟩ := List.mem_filter.1 inBin'
  exact stacked.age_lt found d ((List.mem_erase_of_ne other).2 waits) (beq_iff_eq.1 size)

theorem carveFresh_base (filled : 0 < chunk) (positive : 0 < align) (whole : align ∣ maxSegmentAlign)
    (answer : (h.carveFresh system chunk align).answer = some addr) :
    ∃ below, system.takeSegment? = some (addr, below) := by
  unfold Heap.carveFresh at answer
  split at answer
  · cases answer
  rename_i base below taken
  simp only at answer
  split at answer
  · cases answer
  rename_i carved
  cases answer
  have aligned := Nat.dvd_trans whole (SystemHeap.takeSegment?_aligned taken)
  have start := Segment.fresh_carve_base (SystemHeap.takeSegment?_low taken) filled positive aligned
    carved
  exact ⟨below, start ▸ taken⟩

theorem Sound.placeInSegment_picks (sound : h.Sound system rest []) (tallied : h.Tallied)
    (stacked : ParkedChunk.Stacked age h.parked) (filled : 0 < chunk) (positive : 0 < align)
    (whole : align ∣ maxSegmentAlign) (placed : h.placeInSegment system chunk align = .ok step)
    (answer : step.answer = some addr) : h.Picks age system chunk align addr := by
  unfold Heap.placeInSegment at placed
  split at placed
  · rename_i waiting
    cases placed
    cases answer
    split at waiting
    · rename_i plain
      obtain ⟨c, inBin, rfl, youngest⟩ := takeParked_youngest stacked waiting
      exact .parked plain inBin youngest
    · cases waiting
  rename_i waiting
  have unparkable : align = granule → h.bin chunk = [] := fun plain =>
    takeParked_of_none ((if_pos plain).symm.trans waiting)
  unfold Heap.carveOrGrow at placed
  split at placed
  · rename_i carved
    cases placed
    cases answer
    exact .free unparkable (sound.carve_least tallied filled positive carved)
  rename_i full
  have used := sound.infeasible_of_carve tallied filled positive full
  obtain ⟨unparked, returned, _, _, after⟩ := sound.unpark
  have tallied' : unparked.Tallied := by
    obtain ⟨segments, rfl, frames⟩ := unpark_eq returned
    exact tallied.obtains (obtains_nothing frames (List.nil_subset _))
  rw [returned] at placed
  simp only at placed
  split at placed
  · rename_i carved
    cases placed
    cases answer
    exact .merged unparkable used returned (after.carve_least tallied' filled positive carved)
  rename_i full'
  have used' := after.infeasible_of_carve tallied' filled positive full'
  cases placed
  obtain ⟨below, taken⟩ := carveFresh_base filled positive whole answer
  exact .fresh unparkable used returned used' taken

theorem Sound.place_picks (sound : h.Sound system rest []) (tallied : h.Tallied)
    (stacked : ParkedChunk.Stacked age h.parked) (filled : 0 < chunk) (positive : 0 < align)
    (whole : align ∣ maxSegmentAlign) (small : chunk < largeThreshold)
    (placed : h.place system chunk align = .ok step) (answer : step.answer = some addr) :
    h.Picks age system chunk align addr := by
  have mild : align ≤ maxSegmentAlign := Nat.le_of_dvd (by decide) whole
  have kind : needsRegion chunk align = false := by
    rw [Bool.eq_false_iff]
    exact mt needsRegion_iff.1 (by omega)
  simp only [Heap.place, kind, Bool.false_eq_true, if_false] at placed
  split at placed
  · cases placed
  rename_i source served
  split at placed
  · rename_i refused
    cases placed
    cases refused.symm.trans answer
  · cases placed
    exact sound.placeInSegment_picks tallied stacked filled positive whole served answer

/-- An alignment of at most that of the segments divides it. -/
theorem max_dvd_maxSegmentAlign (power : Word.isPowerOfTwo align = true)
    (mild : align ≤ maxSegmentAlign) : max align granule ∣ maxSegmentAlign := by
  rcases Nat.le_total align granule with fine | coarse
  · rw [Nat.max_eq_right fine]
    decide
  · rw [Nat.max_eq_left coarse]
    obtain ⟨k, rfl⟩ := Word.isPowerOfTwo_iff.1 power
    rw [Nat.one_shiftLeft] at mild ⊢
    have bound : k ≤ 12 := (Nat.pow_le_pow_iff_right (by decide)).1 mild
    exact Nat.pow_dvd_pow 2 bound

theorem Sound.allocate_picks (sound : h.Sound system rest []) (tallied : h.Tallied)
    (stacked : ParkedChunk.Stacked age h.parked) (power : Word.isPowerOfTwo align = true)
    (mild : align ≤ maxSegmentAlign) (small : wholeSize size < largeThreshold)
    (allocated : h.allocate system size align = .ok step) (answer : step.answer = some addr) :
    h.Picks age system (wholeSize size) (max align granule) addr := by
  have positive : 0 < max align granule := Nat.lt_of_lt_of_le (by decide) (Nat.le_max_right ..)
  have word : wholeSize size < wordSize := Nat.lt_trans small (by decide)
  have rounded : chunkSize? size = some (wholeSize size) := (chunkSize?_eq size).trans (if_pos word)
  simp only [Heap.allocate, rounded] at allocated
  split at allocated
  · cases allocated
    cases answer
  split at allocated
  · exact sound.place_picks tallied stacked (wholeSize_pos size) positive
      (max_dvd_maxSegmentAlign power mild) small allocated answer
  · cases allocated
    cases answer

end Heap

end PooledMemory
