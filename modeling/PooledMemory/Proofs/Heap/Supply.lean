import PooledMemory.Proofs.Heap.Tiling

namespace PooledMemory

namespace FreeRange

theorem Spaced.total_le {bound low : Nat} {ranges : List FreeRange}
    (spaced : Spaced bound low ranges) (some' : ranges ≠ []) : low + total ranges ≤ bound := by
  induction ranges generalizing low with
  | nil => exact absurd rfl some'
  | cons r rest ih =>
    obtain ⟨lower, _, upper, behind⟩ := spaced
    have stop : r.stop = r.start + r.length := rfl
    rw [total_cons]
    by_cases last : rest = []
    · have nothing : total rest = 0 := by rw [last]; rfl
      omega
    · have later := ih behind last
      omega

/-- Spaced ranges that leave out no byte of their bounds are a single one. -/
theorem Spaced.eq_whole {bound low : Nat} {ranges : List FreeRange}
    (spaced : Spaced bound low ranges) (open' : low < bound) (full : total ranges = bound - low) :
    ranges = [⟨low, bound - low⟩] := by
  cases ranges with
  | nil =>
    have nothing : total [] = 0 := rfl
    omega
  | cons r rest =>
    obtain ⟨lower, _, upper, behind⟩ := spaced
    have stop : r.stop = r.start + r.length := rfl
    rw [total_cons] at full
    by_cases last : rest = []
    · subst last
      have nothing : total [] = 0 := rfl
      have first : r = ⟨low, bound - low⟩ := by
        cases r
        simp only [FreeRange.mk.injEq] at *
        omega
      rw [first]
    · have later := behind.total_le last
      omega

end FreeRange

namespace Segment

theorem Sound.freeCover_of_isUnused {s : Segment} (sound : s.Sound) (unused : s.isUnused = true)
    (x : Nat) : s.freeCover x = s.frame.hits x := by
  have full : FreeRange.total s.free = s.length - 0 := by
    rw [← sound.counted]
    simpa [isUnused] using unused
  rw [freeCover, sound.spaced.eq_whole sound.filled full]
  simp [frame]

theorem pairwise_insertIdx {α : Type} {R : α → α → Prop} {xs : List α} {i : Nat} {a : α}
    (sorted : xs.Pairwise R) (before : ∀ j x, xs[j]? = some x → j < i → R x a)
    (behind : ∀ j x, xs[j]? = some x → i ≤ j → R a x) : (xs.insertIdx i a).Pairwise R := by
  induction xs generalizing i with
  | nil =>
    cases i with
    | zero => exact List.pairwise_singleton R a
    | succ i => exact .nil
  | cons x rest ih =>
    obtain ⟨first, others⟩ := List.pairwise_cons.1 sorted
    cases i with
    | zero =>
      refine .cons (fun y member => ?_) sorted
      obtain ⟨j, atJ⟩ := List.mem_iff_getElem?.1 member
      exact behind j y atJ (Nat.zero_le j)
    | succ i =>
      have inner := ih (i := i) others
        (fun j y atJ early => before (j + 1) y (by simpa using atJ) (by omega))
        (fun j y atJ late => behind (j + 1) y (by simpa using atJ) (by omega))
      refine .cons (fun y member => ?_) inner
      rcases List.eq_or_mem_of_mem_insertIdx member with rfl | old
      · exact before 0 x rfl (by omega)
      · exact first y old

/-- The place of a segment among the others is found by its base. -/
theorem sorted_insert {segments : List Segment} {t : Segment} {index : Nat}
    (sorted : segments.Pairwise fun s u => s.frame.stop ≤ u.frame.addr)
    (filled : ∀ s ∈ t :: segments, 0 < s.frame.size)
    (apart : ∀ f ∈ segments.map (·.frame), t.frame.Apart f)
    (position : index = Heap.partitionPoint (fun s : Segment => decide (s.base < t.base)) segments) :
    (segments.insertIdx index t).Pairwise (fun s u => s.frame.stop ≤ u.frame.addr) ∧
      (segments.insertIdx index t).Perm (t :: segments) := by
  have falling : segments.Pairwise fun s u =>
      decide (u.base < t.base) = true → decide (s.base < t.base) = true := by
    refine sorted.imp fun {s u} before below => ?_
    have start : s.frame.addr ≤ s.frame.stop := Nat.le_add_right _ _
    have later : u.frame.addr < t.frame.addr := of_decide_eq_true below
    exact decide_eq_true (Nat.lt_of_le_of_lt (Nat.le_trans start before) later)
  obtain ⟨bound, split⟩ := Heap.partitionPoint_spec falling
  rw [← position] at bound split
  obtain ⟨filledHere, filledOthers⟩ := List.forall_mem_cons.1 filled
  refine ⟨pairwise_insertIdx sorted ?_ ?_, List.perm_insertIdx t segments bound⟩
  · intro j s atJ early
    have member := List.mem_of_getElem? atJ
    have below : s.frame.addr < t.frame.addr := of_decide_eq_true ((split j s atJ).2 early)
    have clear := apart s.frame (List.mem_map_of_mem member)
    unfold Span.Apart Span.stop at clear
    unfold Span.stop
    omega
  · intro j s atJ late
    have member := List.mem_of_getElem? atJ
    have above : t.frame.addr ≤ s.frame.addr := by
      by_contra below
      have early := (split j s atJ).1 (decide_eq_true (Nat.not_le.1 below))
      omega
    have clear := apart s.frame (List.mem_map_of_mem member)
    have bytes := filledOthers s member
    unfold Span.Apart Span.stop at clear
    unfold Span.stop
    omega

theorem Ordered.insert {segments : List Segment} {t : Segment} (ordered : Ordered segments)
    (sound : t.Sound) (apart : ∀ f ∈ segments.map (·.frame), t.frame.Apart f) {index : Nat}
    (position : index = Heap.partitionPoint (fun s : Segment => decide (s.base < t.base)) segments) :
    Ordered (segments.insertIdx index t) ∧ (segments.insertIdx index t).Perm (t :: segments) := by
  have whole : ∀ s ∈ t :: segments, s.Sound := List.forall_mem_cons.2 ⟨sound, ordered.sound⟩
  obtain ⟨sorted, perm⟩ := sorted_insert (List.pairwise_map.1 ordered.sorted)
    (fun s member => (whole s member).filled) apart position
  exact ⟨⟨fun s member => whole s (perm.subset member), List.pairwise_map.2 sorted⟩, perm⟩

end Segment

namespace Heap

variable {segments : List Segment} {places : List Span}

theorem Tiles.insert {t : Segment} {extra : List Span} {index : Nat}
    (tiles : Tiles segments places) (sound : t.Sound)
    (apart : ∀ f ∈ segments.map (·.frame), t.frame.Apart f)
    (position : index = partitionPoint (fun s : Segment => decide (s.base < t.base)) segments)
    (inside : ∀ u ∈ extra, 0 < u.size ∧ u.Within t.frame)
    (covered : ∀ x, Span.cover extra x + t.freeCover x = t.frame.hits x) :
    Tiles (segments.insertIdx index t) (extra ++ places) ∧
      ((segments.insertIdx index t).map (·.frame)).Perm (t.frame :: segments.map (·.frame)) := by
  obtain ⟨ordered, perm⟩ := tiles.toOrdered.insert sound apart position
  have frames := perm.map (·.frame)
  refine ⟨⟨ordered, fun u member => ?_, fun x => ?_⟩, frames⟩
  · rcases List.mem_append.1 member with new | old
    · obtain ⟨filled, within⟩ := inside u new
      exact ⟨filled, t.frame, frames.mem_iff.2 (List.mem_cons_self ..), within⟩
    · obtain ⟨filled, f, held, within⟩ := tiles.inside u old
      exact ⟨filled, f, frames.mem_iff.2 (List.mem_cons_of_mem _ held), within⟩
  · have here := covered x
    have others := tiles.covered x
    rw [Span.cover_perm frames, Segment.freeCovers_perm perm, Segment.freeCovers_cons,
      Span.cover_append, List.map_cons, Span.cover_cons]
    omega

theorem freeCovers_unused (unused : ∀ s ∈ segments, s.Sound ∧ s.isUnused = true) (x : Nat) :
    Segment.freeCovers segments x = Span.cover (segments.map (·.frame)) x := by
  induction segments with
  | nil => rfl
  | cons s rest ih =>
    obtain ⟨⟨sound, free⟩, others⟩ := List.forall_mem_cons.1 unused
    rw [Segment.freeCovers_cons, List.map_cons, Span.cover_cons, ih others,
      sound.freeCover_of_isUnused free]

/-- No place lies in an unused segment, so that these can go. -/
theorem Tiles.dropUnused (tiles : Tiles segments places) :
    Tiles (segments.filter (!·.isUnused)) places := by
  have perm : (segments.filter (·.isUnused) ++ segments.filter (!·.isUnused)).Perm segments :=
    List.filter_append_perm _ _
  have subset : (segments.filter (!·.isUnused)).Sublist segments := List.filter_sublist
  have unused : ∀ s ∈ segments.filter (·.isUnused), s.Sound ∧ s.isUnused = true := by
    intro s member
    obtain ⟨held, free⟩ := List.mem_filter.1 member
    exact ⟨tiles.sound s held, free⟩
  refine ⟨⟨fun s member => tiles.sound s (subset.subset member),
    tiles.sorted.sublist (subset.map _)⟩, fun u member => ?_, fun x => ?_⟩
  · obtain ⟨filled, f, held, within⟩ := tiles.inside u member
    refine ⟨filled, f, ?_, within⟩
    obtain ⟨s, inSegments, rfl⟩ := List.mem_map.1 held
    refine List.mem_map.2 ⟨s, List.mem_filter.2 ⟨inSegments, ?_⟩, rfl⟩
    by_contra free
    -- the first byte of the place would be free and in use
    have start : u.hits u.addr = 1 := Span.hits_of_has (Nat.le_refl _) (Nat.lt_add_of_pos_right filled)
    have here := within.hits_le u.addr
    rw [← (tiles.sound s inSegments).freeCover_of_isUnused (by simpa using free)] at here
    have part := Segment.freeCover_le_freeCovers inSegments u.addr
    have part' := Span.hits_le_cover member u.addr
    have total := tiles.covered u.addr
    have once := tiles.toOrdered.cover_le_one u.addr
    omega
  · have total := tiles.covered x
    rw [← Segment.freeCovers_perm perm, ← Span.cover_perm (perm.map _), List.map_append,
      Span.cover_append, Segment.freeCovers_append, freeCovers_unused unused] at total
    omega

end Heap

end PooledMemory
