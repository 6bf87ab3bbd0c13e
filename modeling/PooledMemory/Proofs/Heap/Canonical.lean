import Mathlib.Data.Set.Defs
import PooledMemory.Proofs.Heap.Tiling

namespace PooledMemory

namespace FreeRange

/-- An offset lies in one of the ranges. -/
def Reaches (ranges : List FreeRange) (x : Nat) : Prop := ∃ r ∈ ranges, r.start ≤ x ∧ x < r.stop

variable {bound low bound' low' : Nat} {r : FreeRange} {rest ranges others : List FreeRange} {x : Nat}

theorem reaches_cons : Reaches (r :: rest) x ↔ (r.start ≤ x ∧ x < r.stop) ∨ Reaches rest x := by
  simp only [Reaches, List.mem_cons, exists_eq_or_imp]

theorem cover_pos_iff (base : Nat) : 0 < cover base ranges (base + x) ↔ Reaches ranges x := by
  have inside : ∀ r : FreeRange,
      (r.span base).has (base + x) = true ↔ r.start ≤ x ∧ x < r.stop := by
    intro r
    simp only [Span.has_iff, Span.stop, span, FreeRange.stop]
    omega
  simp only [cover, Span.cover, List.countP_map, List.countP_pos_iff, Function.comp_apply, inside,
    Reaches]

theorem Spaced.low_le (spaced : Spaced bound low ranges) (reached : Reaches ranges x) : low ≤ x := by
  obtain ⟨r, member, start, _⟩ := reached
  exact Nat.le_trans (spaced.mem member).1 start

/-- The byte behind a range is in use. -/
theorem Spaced.not_reaches_stop (spaced : Spaced bound low (r :: rest)) :
    ¬ Reaches (r :: rest) r.stop := by
  intro reached
  rcases reaches_cons.1 reached with ⟨_, before⟩ | later
  · exact Nat.lt_irrefl _ before
  · exact Nat.lt_irrefl _ (spaced.2.2.2.low_le later)

/-- The bytes of the later ranges are those behind the end of the first one. -/
theorem Spaced.reaches_tail (spaced : Spaced bound low (r :: rest)) :
    Reaches rest x ↔ Reaches (r :: rest) x ∧ r.stop < x := by
  constructor
  · intro later
    exact ⟨reaches_cons.2 (.inr later), spaced.2.2.2.low_le later⟩
  · rintro ⟨reached, behind⟩
    exact (reaches_cons.1 reached).resolve_left fun inside => Nat.lt_asymm behind inside.2

theorem Spaced.start_le (spaced : Spaced bound low (r :: rest)) (reached : Reaches (r :: rest) x) :
    r.start ≤ x := by
  have stop : r.stop = r.start + r.length := rfl
  rcases reaches_cons.1 reached with inside | later
  · exact inside.1
  · have behind := (spaced.reaches_tail.1 later).2
    omega

theorem Spaced.reaches_start (spaced : Spaced bound low (r :: rest)) : Reaches (r :: rest) r.start :=
  ⟨r, List.mem_cons_self .., Nat.le_refl _, Nat.lt_add_of_pos_right spaced.2.1⟩

/-- A range ends no later than another one that starts with it if both belong to lists that reach
the same bytes. -/
theorem Spaced.stop_le {s : FreeRange} (spaced : Spaced bound low (r :: rest))
    (start : s.start = r.start) (same : ∀ x, Reaches (s :: others) x → Reaches (r :: rest) x) :
    s.stop ≤ r.stop := by
  by_contra longer
  have behind : r.start ≤ r.stop := Nat.le_add_right _ _
  exact spaced.not_reaches_stop
    (same _ (reaches_cons.2 (.inl ⟨by omega, Nat.lt_of_not_le longer⟩)))

/-- Spaced ranges are determined by the bytes in them. -/
theorem Spaced.unique (spaced : Spaced bound low ranges) (spaced' : Spaced bound' low' others)
    (same : ∀ x, Reaches ranges x ↔ Reaches others x) : ranges = others := by
  induction ranges generalizing low low' others with
  | nil =>
    cases others with
    | nil => rfl
    | cons s later =>
      obtain ⟨_, member, _⟩ := (same _).2 spaced'.reaches_start
      cases member
  | cons r rest ih =>
    cases others with
    | nil =>
      obtain ⟨_, member, _⟩ := (same _).1 spaced.reaches_start
      cases member
    | cons s later =>
      have start : r.start = s.start :=
        Nat.le_antisymm (spaced.start_le ((same _).2 spaced'.reaches_start))
          (spaced'.start_le ((same _).1 spaced.reaches_start))
      have stop : r.stop = s.stop :=
        Nat.le_antisymm (spaced'.stop_le start fun x => (same x).1)
          (spaced.stop_le start.symm fun x => (same x).2)
      have first : r = s := by
        cases r
        cases s
        simp only [FreeRange.stop, FreeRange.mk.injEq] at *
        omega
      subst first
      rw [ih spaced.2.2.2 spaced'.2.2.2 fun x => ?_]
      rw [spaced.reaches_tail, spaced'.reaches_tail, same x]

theorem spaced_iff : Spaced bound low ranges ↔
    (∀ r ∈ ranges, low ≤ r.start ∧ 0 < r.length ∧ r.stop ≤ bound) ∧
      ranges.Pairwise fun r t => r.stop < t.start := by
  induction ranges generalizing low with
  | nil => simp [Spaced]
  | cons r rest ih =>
    have stop : r.stop = r.start + r.length := rfl
    rw [Spaced, ih, List.pairwise_cons, List.forall_mem_cons]
    constructor
    · rintro ⟨lower, filled, upper, bounds, apart⟩
      refine ⟨⟨⟨lower, filled, upper⟩, fun t member => ?_⟩, fun t member => (bounds t member).1, apart⟩
      obtain ⟨behind, inside⟩ := bounds t member
      exact ⟨by omega, inside⟩
    · rintro ⟨⟨⟨lower, filled, upper⟩, bounds⟩, first, apart⟩
      exact ⟨lower, filled, upper, fun t member => ⟨first t member, (bounds t member).2⟩, apart⟩

/-- Bytes without a gap among them lie in one range. -/
theorem Spaced.run {start length : Nat} (spaced : Spaced bound low ranges) (filled : 0 < length)
    (reached : ∀ x, start ≤ x → x < start + length → Reaches ranges x) :
    ∃ r ∈ ranges, r.start ≤ start ∧ start + length ≤ r.stop := by
  have first := reached start (Nat.le_refl _) (by omega)
  induction ranges generalizing low with
  | nil =>
    obtain ⟨_, member, _⟩ := first
    cases member
  | cons r rest ih =>
    by_cases here : start < r.stop
    · refine ⟨r, List.mem_cons_self .., spaced.start_le first, ?_⟩
      by_contra longer
      exact spaced.not_reaches_stop (reached r.stop (by omega) (by omega))
    · -- the first byte is not the one behind the range either, which is in use
      have behind : r.stop < start := by
        refine Nat.lt_of_le_of_ne (Nat.le_of_not_lt here) fun touching => ?_
        rw [← touching] at first
        exact spaced.not_reaches_stop first
      have later : ∀ x, start ≤ x → x < start + length → Reaches rest x := fun x lower upper =>
        spaced.reaches_tail.2 ⟨reached x lower upper, Nat.lt_of_lt_of_le behind lower⟩
      obtain ⟨s, member, inside⟩ := ih spaced.2.2.2 later (later start (Nat.le_refl _) (by omega))
      exact ⟨s, List.mem_cons_of_mem _ member, inside⟩

end FreeRange

namespace Segment

/-- The addresses of the free bytes. -/
def freeAddrs (s : Segment) : Set Nat := {x | 0 < s.freeCover x}

/-- The free ranges have bytes, lie in the segment, and have bytes in use between any two of them. The
free bytes are counted. -/
structure Canonical (s : Segment) : Prop where
  filled : ∀ r ∈ s.free, 0 < r.length
  inside : ∀ r ∈ s.free, r.stop ≤ s.length
  apart : s.free.Pairwise fun r t => r.stop < t.start
  counted : s.freeBytes = FreeRange.total s.free

variable {s t : Segment}

theorem mem_freeAddrs (s : Segment) (x : Nat) :
    s.frame.addr + x ∈ s.freeAddrs ↔ FreeRange.Reaches s.free x := FreeRange.cover_pos_iff s.base

theorem canonical_iff :
    s.Canonical ↔ FreeRange.Spaced s.length 0 s.free ∧ s.freeBytes = FreeRange.total s.free := by
  rw [FreeRange.spaced_iff]
  constructor
  · intro canonical
    exact ⟨⟨fun r member => ⟨Nat.zero_le _, canonical.filled r member, canonical.inside r member⟩,
      canonical.apart⟩, canonical.counted⟩
  · rintro ⟨⟨bounds, apart⟩, counted⟩
    exact ⟨fun r member => (bounds r member).2.1, fun r member => (bounds r member).2.2, apart, counted⟩

theorem Canonical.spaced (canonical : s.Canonical) : FreeRange.Spaced s.length 0 s.free :=
  (canonical_iff.1 canonical).1

theorem Sound.canonical (sound : s.Sound) : s.Canonical :=
  canonical_iff.2 ⟨sound.spaced, sound.counted⟩

/-- Segments at the same place with the same free bytes are the same. -/
theorem Canonical.unique (canonical : s.Canonical) (canonical' : t.Canonical)
    (frame : s.frame = t.frame) (same : s.freeAddrs = t.freeAddrs) : s = t := by
  have base : s.base = t.base := congrArg Span.addr frame
  have free : s.free = t.free := canonical.spaced.unique canonical'.spaced fun x => by
    rw [← mem_freeAddrs, ← mem_freeAddrs, same, frame]
  have length : s.length = t.length := congrArg Span.size frame
  have bytes : s.freeBytes = t.freeBytes := by rw [canonical.counted, canonical'.counted, free]
  cases s
  cases t
  simp only at base length free bytes
  rw [base, length, free, bytes]

theorem Sound.unique (sound : s.Sound) (sound' : t.Sound) (frame : s.frame = t.frame)
    (same : ∀ x, s.freeCover x = t.freeCover x) : s = t := by
  refine sound.canonical.unique sound'.canonical frame (Set.ext fun x => ?_)
  change 0 < s.freeCover x ↔ 0 < t.freeCover x
  rw [same]

/-- In order, segments at the same places with the same free bytes are the same. -/
theorem Ordered.unique {segments others : List Segment} (ordered : Ordered segments)
    (ordered' : Ordered others) (frames : segments.map (·.frame) = others.map (·.frame))
    (same : ∀ x, freeCovers segments x = freeCovers others x) : segments = others := by
  have lengths : segments.length = others.length := by
    simpa using congrArg List.length frames
  refine List.ext_getElem lengths fun i bound bound' => ?_
  have frame : segments[i].frame = others[i].frame := by
    have at' := List.getElem_of_eq frames (i := i) (by simpa using bound)
    rwa [List.getElem_map, List.getElem_map] at at'
  have member := List.getElem_mem bound
  have member' := List.getElem_mem bound'
  refine (ordered.sound _ member).unique (ordered'.sound _ member') frame fun x => ?_
  by_cases inside : segments[i].frame.hits x = 1
  · rw [← (ordered.freeCovers_eq member inside).2, same x]
    exact (ordered'.freeCovers_eq member' (frame ▸ inside)).2
  · have outside := Span.hits_le_one segments[i].frame x
    have left := (ordered.sound _ member).freeCover_le x
    have right := (ordered'.sound _ member').freeCover_le x
    rw [← frame] at right
    omega

end Segment

namespace Heap

/-- What is free in segments follows from where they lie and what else is in them. -/
theorem Tiles.unique {segments others : List Segment} {places places' : List Span}
    (tiles : Tiles segments places) (tiles' : Tiles others places')
    (frames : segments.map (·.frame) = others.map (·.frame))
    (same : ∀ x, Span.cover places x = Span.cover places' x) : segments = others := by
  refine tiles.toOrdered.unique tiles'.toOrdered frames fun x => ?_
  have left := tiles.covered x
  have right := tiles'.covered x
  rw [frames, same x] at left
  omega

end Heap

end PooledMemory
