import Mathlib.Data.Set.Disjoint
import Mathlib.Order.CompletePartialOrder
import Mathlib.Order.Interval.Set.Defs
import PooledMemory.Proofs.Heap.Alignment
import PooledMemory.Proofs.Heap.InPlace

namespace PooledMemory

namespace Segment

/-- The addresses of the `length` bytes from `offset` on. -/
def range (s : Segment) (offset length : Nat) : Set Nat :=
  Set.Ico (s.frame.addr + offset) (s.frame.addr + offset + length)

/-- The segment `t` is `s` with exactly these bytes free, in canonical form. -/
structure WithFree (s : Segment) (free : Set Nat) (t : Segment) : Prop where
  frame : t.frame = s.frame
  canonical : t.Canonical
  free : t.freeAddrs = free

variable {s t : Segment} {ranges left : List FreeRange} {base chunk align offset old new length : Nat}
  {addr : Address}

theorem WithFree.eq (free : s.WithFree s.freeAddrs t) (canonical : s.Canonical) : t = s :=
  free.canonical.unique canonical free.frame free.free

theorem range_congr (frame : t.frame = s.frame) : t.range offset length = s.range offset length := by
  rw [range, range, frame]

theorem mem_range_iff {x : Nat} :
    x ∈ s.range offset length ↔ 0 < (⟨s.frame.addr + offset, length⟩ : Span).hits x := by
  unfold Span.hits
  split
  · rename_i inside
    exact iff_of_true inside Nat.one_pos
  · rename_i outside
    exact iff_of_false outside (Nat.lt_irrefl 0)

theorem Canonical.freeCover_le (canonical : s.Canonical) (x : Nat) : s.freeCover x ≤ s.frame.hits x :=
  canonical.spaced.cover_le s.base (Nat.zero_le _) x

theorem Canonical.freeAddrs_subset (canonical : s.Canonical) : s.freeAddrs ⊆ s.range 0 s.length :=
  fun x free => mem_range_iff.2 (Nat.lt_of_lt_of_le free (canonical.freeCover_le x))

theorem range_subset_iff :
    s.range offset length ⊆ s.freeAddrs ↔
      ∀ x, offset ≤ x → x < offset + length → FreeRange.Reaches s.free x := by
  constructor
  · intro free x first last
    exact (mem_freeAddrs s x).1 (free ⟨by omega, by omega⟩)
  · rintro reached x ⟨first, last⟩
    obtain ⟨y, rfl⟩ : ∃ y, x = s.frame.addr + y := ⟨x - s.frame.addr, by omega⟩
    exact (mem_freeAddrs s y).2 (reached y (by omega) (by omega))

/-- Bytes that are taken out of the ranges were free, as no byte is free twice. -/
theorem Canonical.take (canonical : s.Canonical) (spaced : FreeRange.Spaced s.length 0 left)
    (counted : FreeRange.total left + length = FreeRange.total s.free)
    (covers : ∀ x, FreeRange.cover s.base left x +
      (⟨s.frame.addr + offset, length⟩ : Span).hits x = s.freeCover x) :
    s.range offset length ⊆ s.freeAddrs ∧ s.WithFree (s.freeAddrs \ s.range offset length)
      { s with free := left, freeBytes := s.freeBytes - length } := by
  refine ⟨fun x inside => ?_, rfl, canonical_iff.2 ⟨spaced, ?_⟩, Set.ext fun x => ?_⟩
  · have taken := mem_range_iff.1 inside
    have whole := covers x
    show 0 < s.freeCover x
    omega
  · simp only [canonical.counted]
    omega
  · rw [Set.mem_sdiff, mem_range_iff]
    change 0 < FreeRange.cover s.base left x ↔ 0 < s.freeCover x ∧ _
    have whole := covers x
    have once := Nat.le_trans (canonical.freeCover_le x) (Span.hits_le_one s.frame x)
    omega

/-- Bytes are in use if and only if every range ends before them or begins behind them. -/
theorem Canonical.disjoint_iff (canonical : s.Canonical) (filled : 0 < length) :
    Disjoint (s.range offset length) s.freeAddrs ↔
      ∀ r ∈ s.free, r.stop ≤ offset ∨ offset + length ≤ r.start := by
  constructor
  · intro used r member
    by_contra overlap
    have nonempty := canonical.filled r member
    have stop : r.stop = r.start + r.length := rfl
    have common : s.frame.addr + max offset r.start ∈ s.freeAddrs :=
      (mem_freeAddrs s _).2 ⟨r, member, Nat.le_max_right .., by omega⟩
    exact Set.disjoint_left.1 used ⟨by omega, by omega⟩ common
  · rintro clear
    refine Set.disjoint_left.2 ?_
    rintro x ⟨first, last⟩ free
    obtain ⟨y, rfl⟩ : ∃ y, x = s.frame.addr + y := ⟨x - s.frame.addr, by omega⟩
    obtain ⟨r, member, lower, upper⟩ := (mem_freeAddrs s y).1 free
    have apart := clear r member
    omega

theorem Canonical.giveBack (canonical : s.Canonical) (filled : 0 < length)
    (fits : offset + length ≤ s.length) (used : Disjoint (s.range offset length) s.freeAddrs) :
    ∃ t, s.giveBack offset length = .ok t ∧
      s.WithFree (s.freeAddrs ∪ s.range offset length) t := by
  obtain ⟨merged, returned, spaced⟩ := canonical.spaced.giveBack filled (Nat.zero_le _) fits
    ((canonical.disjoint_iff filled).1 used)
  refine ⟨{ s with free := merged, freeBytes := s.freeBytes + length }, ?_, rfl,
    canonical_iff.2 ⟨spaced, ?_⟩, Set.ext fun x => ?_⟩
  · simp only [Segment.giveBack, if_neg (Nat.not_lt.2 fits), returned]
  · simp only [canonical.counted, FreeRange.total_giveBack returned]
  · rw [Set.mem_union, mem_range_iff]
    have covers := FreeRange.cover_giveBack returned s.base x
    change 0 < FreeRange.cover s.base merged x ↔ 0 < FreeRange.cover s.base s.free x ∨ _
    rw [covers]
    exact Nat.add_pos_iff_pos_or_pos

/-- Bytes that have left the free ones can be given back, which leaves the segment that was there. -/
theorem Canonical.giveBack_taken (canonical : s.Canonical) (filled : 0 < length)
    (free : s.range offset length ⊆ s.freeAddrs)
    (taken : s.WithFree (s.freeAddrs \ s.range offset length) t) : t.giveBack offset length = .ok s := by
  have size : t.length = s.length := congrArg Span.size taken.frame
  have range : t.range offset length = s.range offset length := range_congr taken.frame
  have last : s.frame.addr + (offset + (length - 1)) ∈ s.range 0 s.length :=
    canonical.freeAddrs_subset (free ⟨by omega, by omega⟩)
  have fits : offset + length ≤ t.length := by
    have upper := last.2
    omega
  have used : Disjoint (t.range offset length) t.freeAddrs := by
    rw [range, taken.free]
    exact Set.disjoint_sdiff_left.symm
  obtain ⟨u, returned, whole⟩ := taken.canonical.giveBack filled fits used
  rw [returned]
  refine congrArg _ (WithFree.eq ⟨whole.frame.trans taken.frame, whole.canonical, ?_⟩ canonical)
  rw [whole.free, taken.free, range, Set.sdiff_union_of_subset free]

/-- `chunk` free bytes at an aligned address are no longer free. Given back, they leave the segment
that was there. -/
structure Carves (s : Segment) (chunk align offset : Nat) (t : Segment) : Prop where
  aligned : align ∣ s.base + offset
  free : s.range offset chunk ⊆ s.freeAddrs
  rest : s.WithFree (s.freeAddrs \ s.range offset chunk) t
  restored : t.giveBack offset chunk = .ok s

theorem Canonical.carve (canonical : s.Canonical) (filled : 0 < chunk)
    (carved : s.carve chunk align = some (addr, t)) :
    ∃ offset, addr = s.base + offset ∧ s.Carves chunk align offset t := by
  have aligned := carve_aligned carved
  obtain ⟨⟨offset, left⟩, inner, same⟩ := Option.map_eq_some_iff.1 carved
  cases same
  obtain ⟨spaced, _⟩ := canonical.spaced.carve filled inner
  obtain ⟨free, rest⟩ :=
    canonical.take spaced (FreeRange.total_carve inner) (FreeRange.cover_carve inner)
  exact ⟨offset, rfl, aligned, free, rest, canonical.giveBack_taken filled free rest⟩

/-- Free bytes without a gap among them lie in one range, where the search finds them. -/
theorem Canonical.carve_isSome_iff (canonical : s.Canonical) (word : s.base + s.length ≤ wordSize)
    (filled : 0 < chunk) (positive : 0 < align) :
    (s.carve chunk align).isSome = true ↔
      ∃ offset, align ∣ s.base + offset ∧ s.range offset chunk ⊆ s.freeAddrs := by
  rw [Segment.carve, Option.isSome_map, FreeRange.carve_isSome_iff filled positive fun r member =>
    Nat.le_trans (Nat.add_le_add_left (canonical.inside r member) s.base) word]
  simp only [range_subset_iff]
  constructor
  · rintro ⟨r, member, offset, lower, upper, aligned⟩
    exact ⟨offset, aligned, fun x first last =>
      ⟨r, member, Nat.le_trans lower first, Nat.lt_of_lt_of_le last upper⟩⟩
  · rintro ⟨offset, aligned, reached⟩
    obtain ⟨r, member, lower, upper⟩ := canonical.spaced.run filled reached
    exact ⟨r, member, offset, lower, upper, aligned⟩

theorem Canonical.extend_isSome_iff (canonical : s.Canonical) (filled : 0 < old)
    (used : Disjoint (s.range offset old) s.freeAddrs) (grows : old < new) :
    (s.extend offset old new).isSome = true ↔ s.range (offset + old) (new - old) ⊆ s.freeAddrs := by
  rw [Segment.extend, Option.isSome_map, FreeRange.takeFront_isSome_iff canonical.spaced,
    canonical.spaced.starts_iff (Nat.sub_pos_of_lt grows), range_subset_iff]
  -- a range that ends where the used bytes end would have some of them
  intro r member
  have clear := (canonical.disjoint_iff filled).1 used r member
  have nonempty := canonical.filled r member
  have stop : r.stop = r.start + r.length := rfl
  omega

theorem Canonical.extend (canonical : s.Canonical) (extended : s.extend offset old new = some t) :
    s.range (offset + old) (new - old) ⊆ s.freeAddrs ∧
      s.WithFree (s.freeAddrs \ s.range (offset + old) (new - old)) t := by
  obtain ⟨left, inner, rfl⟩ := Option.map_eq_some_iff.1 extended
  obtain ⟨spaced, _⟩ := canonical.spaced.takeFront inner
  exact canonical.take spaced (FreeRange.total_takeFront inner)
    (FreeRange.cover_takeFront inner s.base)

/-- The operations of a segment do to its free bytes what they do to a set. Each leaves the segment in
canonical form where it succeeds, and answers no segment where it fails. A power of two is one of the
alignments, and a range is never empty. -/
structure Operates (s : Segment) : Prop where
  carve : ∀ chunk align, 0 < chunk → 0 < align →
    (∀ addr t, s.carve chunk align = some (addr, t) →
      ∃ offset, addr = s.base + offset ∧ s.Carves chunk align offset t) ∧
    (s.carve chunk align = none →
      ∀ addr, align ∣ addr → ¬ Set.Ico addr (addr + chunk) ⊆ s.freeAddrs)
  extend : ∀ offset old new, 0 < old → Disjoint (s.range offset old) s.freeAddrs → old < new →
    ((s.extend offset old new).isSome = true ↔ s.range (offset + old) (new - old) ⊆ s.freeAddrs) ∧
    ∀ t, s.extend offset old new = some t →
      s.WithFree (s.freeAddrs \ s.range (offset + old) (new - old)) t ∧
        t.giveBack (offset + old) (new - old) = .ok s
  giveBack : ∀ offset length, 0 < length → offset + length ≤ s.length →
    Disjoint (s.range offset length) s.freeAddrs →
    ∃ t, s.giveBack offset length = .ok t ∧ s.WithFree (s.freeAddrs ∪ s.range offset length) t

/-- It is enough that the segment ends with the address space or before. -/
theorem Canonical.operates (canonical : s.Canonical) (word : s.base + s.length ≤ wordSize) :
    s.Operates where
  carve chunk align filled positive := by
    refine ⟨fun addr t carved => canonical.carve filled carved, fun failed addr aligned free => ?_⟩
    obtain ⟨lower, _⟩ := canonical.freeAddrs_subset (free ⟨Nat.le_refl _, by omega⟩)
    obtain ⟨offset, rfl⟩ : ∃ offset, addr = s.frame.addr + offset :=
      ⟨addr - s.frame.addr, (Nat.add_sub_cancel' lower).symm⟩
    have found := (canonical.carve_isSome_iff word filled positive).2 ⟨offset, aligned, free⟩
    rw [failed] at found
    cases found
  extend offset old new filled used grows := by
    refine ⟨canonical.extend_isSome_iff filled used grows, fun t extended => ?_⟩
    obtain ⟨free, rest⟩ := canonical.extend extended
    exact ⟨rest, canonical.giveBack_taken (Nat.sub_pos_of_lt grows) free rest⟩
  giveBack offset length filled fits used := canonical.giveBack filled fits used

/-- A segment with bytes in use before, between and behind which others are free. -/
def gapped : Segment := ⟨4096, 256, [⟨0, 16⟩, ⟨48, 80⟩, ⟨160, 96⟩], 192⟩

theorem gapped_canonical : gapped.Canonical :=
  ⟨by decide, by decide, by decide, by decide⟩

/-- Of the second range 32 bytes are carved with others before and behind them, while there is no room
for 128. The bytes in use before that range can take 16 of it, and those behind it are given back. -/
theorem gapped_operates :
    gapped.Canonical ∧ gapped.base + gapped.length ≤ wordSize ∧
      (∃ t, gapped.carve 32 64 = some (4096 + 64, t) ∧
        t.free = [⟨0, 16⟩, ⟨48, 16⟩, ⟨96, 32⟩, ⟨160, 96⟩] ∧
        ∃ offset, 4096 + 64 = gapped.base + offset ∧ gapped.Carves 32 64 offset t) ∧
      (∀ addr, 64 ∣ addr → ¬ Set.Ico addr (addr + 128) ⊆ gapped.freeAddrs) ∧
      gapped.range (16 + 32) (48 - 32) ⊆ gapped.freeAddrs ∧
      ∃ t, gapped.giveBack 128 32 = .ok t ∧
        gapped.WithFree (gapped.freeAddrs ∪ gapped.range 128 32) t := by
  have operates := gapped_canonical.operates (by decide)
  have used : ∀ offset, (∀ r ∈ gapped.free, r.stop ≤ offset ∨ offset + 32 ≤ r.start) →
      Disjoint (gapped.range offset 32) gapped.freeAddrs :=
    fun offset => (gapped_canonical.disjoint_iff (by decide)).2
  refine ⟨gapped_canonical, by decide, ⟨_, rfl, rfl, ?_⟩, ?_, ?_, ?_⟩
  · exact (operates.carve 32 64 (by decide) (by decide)).1 _ _ rfl
  · exact (operates.carve 128 64 (by decide) (by decide)).2 rfl
  · exact (operates.extend 16 32 48 (by decide) (used 16 (by decide)) (by decide)).1.1 rfl
  · exact operates.giveBack 128 32 (by decide) (by decide) (used 128 (by decide))

end Segment

end PooledMemory
