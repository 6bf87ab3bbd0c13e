import Mathlib.Data.List.Perm.Basic
import PooledMemory.Proofs.Heap.Segments

namespace PooledMemory

def LiveBlock.span (b : LiveBlock) : Span := ⟨b.addr, b.size⟩

def ParkedChunk.span (c : ParkedChunk) : Span := ⟨c.addr, c.size⟩

namespace Heap

/-- Each of the places lies in one segment, and every byte of a segment is in exactly one of the
places and of the free ranges. -/
structure Tiles (segments : List Segment) (places : List Span) : Prop extends
    Segment.Ordered segments where
  inside : ∀ u ∈ places, 0 < u.size ∧ ∃ f ∈ segments.map (·.frame), u.Within f
  covered : ∀ x, Span.cover places x + Segment.freeCovers segments x =
    Span.cover (segments.map (·.frame)) x

variable {segments : List Segment} {places : List Span}

theorem tiles_nil : Tiles [] [] where
  sound := by simp
  sorted := .nil
  inside := by simp
  covered := by simp [Segment.freeCovers]

theorem Tiles.perm {others : List Span} (tiles : Tiles segments places)
    (perm : places.Perm others) : Tiles segments others where
  toOrdered := tiles.toOrdered
  inside := fun u member => tiles.inside u (perm.mem_iff.2 member)
  covered := fun x => Span.cover_perm perm x ▸ tiles.covered x

theorem Tiles.cover_le (tiles : Tiles segments places) (x : Nat) :
    Span.cover places x ≤ Span.cover (segments.map (·.frame)) x :=
  tiles.covered x ▸ Nat.le_add_right _ _

/-- Every byte of a segment is in one place or in one of its own free ranges. -/
theorem Tiles.covered_inside {s : Segment} (tiles : Tiles segments places) (member : s ∈ segments)
    {x : Nat} (lower : s.base ≤ x) (upper : x < s.base + s.length) :
    Span.cover places x + s.freeCover x = 1 := by
  obtain ⟨once, free⟩ := tiles.freeCovers_eq member (Span.hits_of_has lower upper)
  rw [← free, tiles.covered x, once]

/-- A place that has a byte in a segment lies in that segment. -/
theorem Tiles.within {s : Segment} (tiles : Tiles segments places) (member : s ∈ segments) {u : Span}
    (inPlaces : u ∈ places) {x : Address} (inside : s.contains x = true) (has : u.has x = true) :
    u.Within s.frame := by
  obtain ⟨_, f, inFrames, within⟩ := tiles.inside u inPlaces
  obtain ⟨t, inSegments, rfl⟩ := List.mem_map.1 inFrames
  obtain ⟨lower, upper⟩ := Span.has_iff.1 has
  have same : s = t := tiles.toOrdered.eq_of_contains member inSegments inside
    (Segment.contains_iff.2 ⟨Nat.le_trans within.1 lower, Nat.lt_of_lt_of_le upper within.2⟩)
  rwa [same]

/-- Segments may exchange free bytes for places as long as they stay where they are. -/
theorem Tiles.reshape {after : List Segment} {others : List Span} (tiles : Tiles segments places)
    (sound : ∀ s ∈ after, s.Sound) (frames : after.map (·.frame) = segments.map (·.frame))
    (inside : ∀ u ∈ others, 0 < u.size ∧ ∃ f ∈ segments.map (·.frame), u.Within f)
    (covers : ∀ x, Span.cover others x + Segment.freeCovers after x =
      Span.cover places x + Segment.freeCovers segments x) : Tiles after others where
  sound := sound
  sorted := frames ▸ tiles.sorted
  inside := frames ▸ inside
  covered := fun x => by rw [frames, covers x, tiles.covered x]

theorem Tiles.carve {after : List Segment} {chunk align addr : Nat}
    (tiles : Tiles segments places) (filled : 0 < chunk)
    (carved : carveFirst chunk align segments = some (addr, after)) :
    Tiles after (⟨addr, chunk⟩ :: places) ∧
      after.map (·.frame) = segments.map (·.frame) := by
  obtain ⟨sound, frames, inside, covers⟩ := carveFirst_spec tiles.sound filled carved
  refine ⟨tiles.reshape sound frames (List.forall_mem_cons.2 ⟨⟨filled, inside⟩, tiles.inside⟩)
    fun x => ?_, frames⟩
  have taken := covers x
  rw [Span.cover_cons]
  omega

theorem Tiles.giveUp {h : Heap} {addr length : Nat}
    (tiles : Tiles h.segments (⟨addr, length⟩ :: places)) :
    ∃ after, h.returnRange addr length = .ok { h with segments := after } ∧
      Tiles after places ∧ after.map (·.frame) = h.segments.map (·.frame) := by
  obtain ⟨⟨filled, f, member, within⟩, inside⟩ := List.forall_mem_cons.1 tiles.inside
  have clear : ∀ x, (⟨addr, length⟩ : Span).hits x + Segment.freeCovers h.segments x ≤ 1 := by
    intro x
    have total := tiles.covered x
    have once := tiles.toOrdered.cover_le_one x
    rw [Span.cover_cons] at total
    omega
  change 0 < length at filled
  obtain ⟨after, returned, sound, frames, covers⟩ :=
    returnRange_spec tiles.toOrdered filled member within clear
  refine ⟨after, returned, tiles.reshape sound frames inside fun x => ?_, frames⟩
  rw [covers x, Span.cover_cons]
  omega

theorem Tiles.giveUpAll {h : Heap} {chunks : List ParkedChunk}
    (tiles : Tiles h.segments (chunks.map (·.span) ++ places)) :
    ∃ after, h.returnChunks chunks = .ok { h with segments := after } ∧
      Tiles after places ∧ after.map (·.frame) = h.segments.map (·.frame) := by
  induction chunks generalizing h with
  | nil => exact ⟨h.segments, rfl, tiles, rfl⟩
  | cons c rest ih =>
    obtain ⟨middle, returned, tilesMiddle, framesMiddle⟩ := Tiles.giveUp (h := h) tiles
    obtain ⟨after, returnedRest, tilesAfter, frames⟩ :=
      ih (h := { h with segments := middle }) tilesMiddle
    exact ⟨after, by simp only [returnChunks, returned, returnedRest], tilesAfter,
      frames.trans framesMiddle⟩

theorem Tiles.split {addr front back : Nat}
    (tiles : Tiles segments (⟨addr, front + back⟩ :: places)) (filled : 0 < front)
    (filled' : 0 < back) :
    Tiles segments (⟨addr + front, back⟩ :: ⟨addr, front⟩ :: places) := by
  obtain ⟨⟨_, f, member, within⟩, inside⟩ := List.forall_mem_cons.1 tiles.inside
  simp only [Span.Within, Span.stop] at within
  refine tiles.reshape tiles.sound rfl (List.forall_mem_cons.2 ⟨⟨filled', f, member, ?_⟩,
    List.forall_mem_cons.2 ⟨⟨filled, f, member, ?_⟩, inside⟩⟩) fun x => ?_
  · simp only [Span.Within, Span.stop]
    omega
  · simp only [Span.Within, Span.stop]
    omega
  · rw [Span.cover_cons, Span.cover_cons, Span.cover_cons, Span.hits_split]
    omega

/-- A place grows over the free bytes behind it. -/
theorem Tiles.extend {h : Heap} {addr old new i : Nat} {s t : Segment}
    (tiles : Tiles h.segments (⟨addr, old⟩ :: places)) (index : h.segmentIndex? addr = some i)
    (found : h.segments[i]? = some s) (grows : old ≤ new)
    (extended : s.extend (addr - s.base) old new = some t) :
    Tiles (h.segments.set i t) (⟨addr, new⟩ :: places) ∧
      (h.segments.set i t).map (·.frame) = h.segments.map (·.frame) := by
  obtain ⟨⟨filled, _⟩, inside⟩ := List.forall_mem_cons.1 tiles.inside
  have inSegments := List.mem_of_getElem? found
  obtain ⟨s', found', starts⟩ := segmentIndex?_mem index
  cases Option.some.inj (found.symm.trans found')
  obtain ⟨sound, same, fits, covers⟩ := (tiles.sound s inSegments).extend grows extended
  have frames := Segment.frames_set found same
  have lower := (Segment.contains_iff.1 starts).1
  obtain ⟨offset, rfl⟩ : ∃ offset, addr = s.frame.addr + offset :=
    ⟨addr - s.frame.addr, (Nat.add_sub_cancel' lower).symm⟩
  have distance : s.frame.addr + offset - s.base = offset := Nat.add_sub_cancel_left ..
  have end' : offset + new ≤ s.frame.size := distance ▸ fits
  refine ⟨tiles.reshape ?_ frames (List.forall_mem_cons.2 ⟨⟨?_, s.frame,
    List.mem_map_of_mem inSegments, ?_⟩, inside⟩) fun x => ?_, frames⟩
  · intro u member
    rcases List.mem_or_eq_of_mem_set member with before | rfl
    · exact tiles.sound u before
    · exact sound
  · exact Nat.lt_of_lt_of_le filled grows
  · simp only [Span.Within, Span.stop]
    omega
  · have exchanged := Segment.freeCovers_set (t := t) found x
    have taken : t.freeCover x +
        (⟨s.frame.addr + offset + old, new - old⟩ : Span).hits x = s.freeCover x := by
      have here := covers x
      rw [distance, ← Nat.add_assoc] at here
      exact here
    have whole := Span.hits_split (s.frame.addr + offset) old (new - old) x
    rw [Nat.add_sub_cancel' grows] at whole
    rw [Span.cover_cons, Span.cover_cons]
    omega

end Heap

end PooledMemory
