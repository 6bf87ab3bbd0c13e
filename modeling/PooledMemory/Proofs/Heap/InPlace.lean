import PooledMemory.Proofs.Heap.Room

namespace PooledMemory

namespace FreeRange

/-- The range that starts at `old` now starts at `new`, and the other ranges are the same. It ends
where it did. There is no such range where it would be empty. -/
def Slides (old new : Nat) (ranges after : List FreeRange) : Prop :=
  ∃ front back stop, old ≤ stop ∧ new ≤ stop ∧
    ranges = front ++ (ofLength old (stop - old) ++ back) ∧
    after = front ++ (ofLength new (stop - new) ++ back)

variable {bound low start length next needed old new : Nat} {r : FreeRange}
  {rest ranges left merged after : List FreeRange}

theorem ofLength_of_pos (filled : 0 < r.length) : ofLength r.start r.length = [r] := if_pos filled

theorem slides_self (old : Nat) (ranges : List FreeRange) : Slides old old ranges ranges :=
  ⟨ranges, [], old, Nat.le_refl _, Nat.le_refl _, by simp [ofLength], by simp [ofLength]⟩

theorem Slides.cons (slides : Slides old new rest after) (r : FreeRange) :
    Slides old new (r :: rest) (r :: after) := by
  obtain ⟨front, back, stop, lower, lower', rfl, rfl⟩ := slides
  exact ⟨r :: front, back, stop, lower, lower', rfl, rfl⟩

/-- Of the bytes between the two starts, those that are free on one side only are told apart by the
order of the starts. -/
theorem Slides.cover (slides : Slides old new ranges after) (base x : Nat) :
    cover base after x + (⟨base + old, new - old⟩ : Span).hits x =
      cover base ranges x + (⟨base + new, old - new⟩ : Span).hits x := by
  obtain ⟨front, back, stop, lower, lower', rfl, rfl⟩ := slides
  simp only [cover_append, cover_ofLength]
  rcases Nat.le_total old new with le | le
  · obtain ⟨more, rfl⟩ := Nat.exists_eq_add_of_le le
    have whole := Span.hits_split (base + old) more (stop - (old + more)) x
    rw [show more + (stop - (old + more)) = stop - old by omega, Nat.add_assoc] at whole
    rw [Span.hits_of_size_zero (s := ⟨base + (old + more), old - (old + more)⟩) (by simp),
      Nat.add_sub_cancel_left]
    omega
  · obtain ⟨more, rfl⟩ := Nat.exists_eq_add_of_le le
    have whole := Span.hits_split (base + new) more (stop - (new + more)) x
    rw [show more + (stop - (new + more)) = stop - new by omega, Nat.add_assoc] at whole
    rw [Span.hits_of_size_zero (s := ⟨base + (new + more), new - (new + more)⟩) (by simp),
      Nat.add_sub_cancel_left]
    omega

theorem takeFront_slides (spaced : Spaced bound low ranges)
    (taken : takeFront next needed ranges = some left) : Slides next (next + needed) ranges left := by
  induction ranges generalizing low left with
  | nil => cases taken
  | cons r rest ih =>
    obtain ⟨_, filled, _, behind⟩ := spaced
    have stop : r.stop = r.start + r.length := rfl
    simp only [takeFront] at taken
    split at taken
    · rename_i here
      split at taken
      · cases taken
      · cases taken
        refine ⟨[], rest, r.stop, by omega, by omega, ?_, ?_⟩
        · rw [← here, stop, Nat.add_sub_cancel_left, ofLength_of_pos filled]
          rfl
        · rw [List.nil_append, show r.stop - (next + needed) = r.length - needed by omega]
    · obtain ⟨tail, inner, rfl⟩ := Option.map_eq_some_iff.1 taken
      exact (ih behind inner).cons r

/-- A range that begins with the bytes given back. -/
theorem slides_of_cons (filled : 0 < length) (rest : List FreeRange) :
    Slides (start + length) start rest (⟨start, length⟩ :: rest) := by
  refine ⟨[], rest, start + length, Nat.le_refl _, Nat.le_add_right _ _, ?_, ?_⟩
  · simp [ofLength]
  · rw [Nat.add_sub_cancel_left, ofLength, if_pos filled]
    rfl

/-- Bytes that are given back are merged with the range behind them only, as the byte before them is
in use. -/
theorem giveBack_slides (spaced : Spaced bound low ranges) (filled : 0 < length)
    (clear : ∀ r ∈ ranges, r.stop ≠ start)
    (returned : giveBack start length ranges = .ok merged) :
    Slides (start + length) start ranges merged := by
  induction ranges generalizing low merged with
  | nil =>
    cases returned
    exact slides_of_cons filled []
  | cons r rest ih =>
    obtain ⟨_, nonempty, _, behind⟩ := spaced
    obtain ⟨here, others⟩ := List.forall_mem_cons.1 clear
    have stop : r.stop = r.start + r.length := rfl
    simp only [giveBack, if_neg here] at returned
    split at returned
    · split at returned
      · cases returned
      · split at returned
        · rename_i inner
          cases returned
          exact (ih behind others inner).cons r
        · cases returned
    · split at returned
      · rename_i touching
        cases returned
        refine ⟨[], rest, r.stop, by omega, by omega, ?_, ?_⟩
        · rw [← touching, stop, Nat.add_sub_cancel_left, ofLength_of_pos nonempty]
          rfl
        · rw [List.nil_append, show r.stop - start = length + r.length by omega, ofLength,
            if_pos (by omega)]
          rfl
      · cases returned
        exact slides_of_cons filled (r :: rest)

/-- It is enough to look at the one range that starts there. -/
theorem takeFront_isSome_iff (spaced : Spaced bound low ranges) :
    (takeFront next needed ranges).isSome = true ↔
      ∃ r ∈ ranges, r.start = next ∧ needed ≤ r.length := by
  induction ranges generalizing low with
  | nil => simp [takeFront]
  | cons r rest ih =>
    obtain ⟨_, _, _, behind⟩ := spaced
    have stop : r.stop = r.start + r.length := rfl
    simp only [takeFront, List.mem_cons, exists_eq_or_imp]
    by_cases here : r.start = next
    · have others : ¬ ∃ s ∈ rest, s.start = next ∧ needed ≤ s.length := by
        rintro ⟨s, member, starts, _⟩
        have beyond := (behind.mem member).1
        omega
      rw [if_pos here, or_iff_left others]
      by_cases short : r.length < needed
      · rw [if_pos short]
        exact iff_of_false Bool.false_ne_true (by omega)
      · rw [if_neg short]
        exact iff_of_true rfl (by omega)
    · rw [if_neg here, Option.isSome_map, ih behind]
      exact (or_iff_right (by omega)).symm

/-- Where the byte before is in use, bytes are free if and only if a range starts with them. -/
theorem Spaced.starts_iff (spaced : Spaced bound low ranges) (filled : 0 < needed)
    (used : ∀ r ∈ ranges, next ≤ r.start ∨ r.stop < next) :
    (∃ r ∈ ranges, r.start = next ∧ needed ≤ r.length) ↔
      ∀ x, next ≤ x → x < next + needed → Reaches ranges x := by
  constructor
  · rintro ⟨r, member, rfl, enough⟩ x lower upper
    exact ⟨r, member, lower, Nat.lt_of_lt_of_le upper (Nat.add_le_add_left enough r.start)⟩
  · intro reached
    obtain ⟨r, member, first, last⟩ := spaced.run filled reached
    have stop : r.stop = r.start + r.length := rfl
    have here := used r member
    exact ⟨r, member, by omega, by omega⟩

end FreeRange

namespace Segment

variable {s : Segment} {u : Span}

/-- All bytes of the span are free. -/
def AllFree (s : Segment) (u : Span) : Prop := ∀ x, u.has x = true → s.freeCover x = 1

theorem Sound.freeCover_le_one (sound : s.Sound) (x : Nat) : s.freeCover x ≤ 1 :=
  Nat.le_trans (sound.freeCover_le x) (Span.hits_le_one _ _)

theorem Sound.freeCover_eq_one_iff (sound : s.Sound) (offset : Nat) :
    s.freeCover (s.base + offset) = 1 ↔ FreeRange.Reaches s.free offset := by
  have bound := sound.freeCover_le_one (s.base + offset)
  rw [← FreeRange.cover_pos_iff s.base]
  change _ ↔ 0 < s.freeCover (s.base + offset)
  omega

theorem Sound.allFree_iff (sound : s.Sound) (offset length : Nat) :
    s.AllFree ⟨s.frame.addr + offset, length⟩ ↔
      ∀ x, offset ≤ x → x < offset + length → FreeRange.Reaches s.free x := by
  simp only [AllFree, Span.has_iff, Span.stop]
  constructor
  · intro free x first last
    exact (sound.freeCover_eq_one_iff x).1 (free (s.frame.addr + x) ⟨by omega, by omega⟩)
  · rintro reached x ⟨first, last⟩
    obtain ⟨y, rfl⟩ : ∃ y, x = s.frame.addr + y := ⟨x - s.frame.addr, by omega⟩
    exact (sound.freeCover_eq_one_iff y).2 (reached y (by omega) (by omega))

end Segment

namespace Heap

variable {h after : Heap} {system : SystemHeap} {rest : List SystemBlock} {segments : List Segment}
  {places : List Span} {s t : Segment} {u : Span} {b : LiveBlock}
  {i front length chunk size : Nat} {step : HeapStep (Option Resized)}

/-- No range ends where bytes of a place end, and none goes on there. -/
theorem Tiles.clear_end (tiles : Tiles segments places) (member : s ∈ segments)
    (inPlaces : u ∈ places) (starts : s.contains u.addr = true) (filled : 0 < front)
    (le : front ≤ u.size) {r : FreeRange} (inFree : r ∈ s.free) :
    s.frame.addr + r.stop < u.addr + front ∨ u.addr + front ≤ s.frame.addr + r.start := by
  by_contra touching
  obtain ⟨lower, _⟩ := Segment.contains_iff.1 starts
  have upper := ((tiles.sound s member).spaced.mem inFree).2.2
  -- the last of the bytes would be in the range
  obtain ⟨offset, last⟩ : ∃ offset, s.frame.addr + offset = u.addr + front - 1 :=
    ⟨u.addr + front - 1 - s.frame.addr, by omega⟩
  have free : s.freeCover (s.frame.addr + offset) = 1 :=
    ((tiles.sound s member).freeCover_eq_one_iff offset).2 ⟨r, inFree, by omega, by omega⟩
  have used : u.hits (s.frame.addr + offset) = 1 :=
    Span.hits_of_has (by omega) (by simp only [Span.stop]; omega)
  have counted := Span.hits_le_cover inPlaces (s.frame.addr + offset)
  have whole := tiles.covered_inside member (Nat.le_add_right s.frame.addr offset)
    (Nat.add_lt_add_left (by omega) s.frame.addr)
  omega

/-- A place may grow over free bytes only, and one range at its end has all of them. -/
theorem Tiles.range_iff (tiles : Tiles segments places) (member : s ∈ segments)
    (inPlaces : u ∈ places) (starts : s.contains u.addr = true) (filled : 0 < length) :
    (∃ r ∈ s.free, s.frame.addr + r.start = u.addr + u.size ∧ length ≤ r.length) ↔
      s.AllFree ⟨u.addr + u.size, length⟩ := by
  obtain ⟨lower, _⟩ := Segment.contains_iff.1 starts
  obtain ⟨offset, start⟩ : ∃ offset, u.addr = s.frame.addr + offset :=
    ⟨u.addr - s.frame.addr, (Nat.add_sub_cancel' lower).symm⟩
  have sound := tiles.sound s member
  have used : ∀ r ∈ s.free, offset + u.size ≤ r.start ∨ r.stop < offset + u.size := by
    intro r inFree
    have clear := tiles.clear_end member inPlaces starts (tiles.inside u inPlaces).1 (Nat.le_refl _)
      inFree
    omega
  have same : (∃ r ∈ s.free, s.frame.addr + r.start = u.addr + u.size ∧ length ≤ r.length) ↔
      ∃ r ∈ s.free, r.start = offset + u.size ∧ length ≤ r.length :=
    exists_congr fun r => and_congr_right fun _ => and_congr_left fun _ => by omega
  rw [same, sound.spaced.starts_iff filled used, start, Nat.add_assoc s.frame.addr,
    sound.allFree_iff]

/-- A block in the segment has another size where it is. The bytes between its old end and its new
one have left or joined the free ranges of the segment, where one range begins at the end of the
block now and before. Those that have joined are overwritten, and nothing else differs. -/
structure Stretches (h : Heap) (system : SystemHeap) (b : LiveBlock) (i : Nat) (s : Segment)
    (chunk : Nat) (step : HeapStep (Option Resized)) : Prop where
  heap : step.heap = { h with
    segments := step.heap.segments
    live := h.live.map fun c => if c.addr = b.addr then { c with size := chunk } else c
    allocated := step.heap.allocated
    peak := step.heap.peak }
  segment : ∃ t, step.heap.segments = h.segments.set i t ∧ t.frame = s.frame ∧
    FreeRange.Slides (b.addr - s.base + b.size) (b.addr - s.base + chunk) s.free t.free ∧
    ∀ x, t.freeCover x + (⟨b.addr + b.size, chunk - b.size⟩ : Span).hits x =
      s.freeCover x + (⟨b.addr + chunk, b.size - chunk⟩ : Span).hits x
  system : step.system = poison system (b.addr + chunk) (b.size - chunk)

/-- A block that does not shrink gives up no bytes. -/
theorem poison_of_le (le : b.size ≤ chunk) :
    poison system (b.addr + chunk) (b.size - chunk) = system := by
  have nothing : ∀ addr, system.bytes.fill addr 0 poisonByte = system.bytes := fun addr =>
    funext fun x => if_neg fun ⟨lower, upper⟩ => Nat.not_lt.2 lower upper
  rw [Nat.sub_eq_zero_of_le le, poison, nothing]

/-- The free bytes that a block takes or leaves are those between its ends. -/
theorem cover_of_slides (starts : s.contains b.addr = true) (frame : t.frame = s.frame)
    (slides : FreeRange.Slides (b.addr - s.base + b.size) (b.addr - s.base + chunk) s.free t.free)
    (x : Nat) : t.freeCover x + (⟨b.addr + b.size, chunk - b.size⟩ : Span).hits x =
      s.freeCover x + (⟨b.addr + chunk, b.size - chunk⟩ : Span).hits x := by
  have base : t.base = s.base := congrArg Span.addr frame
  have lower : s.base ≤ b.addr := (Segment.contains_iff.1 starts).1
  have covers := slides.cover s.base x
  rw [← Nat.add_assoc, ← Nat.add_assoc, Nat.add_sub_cancel' lower, Nat.add_sub_add_left,
    Nat.add_sub_add_left] at covers
  rw [Segment.freeCover, base]
  exact covers

theorem setSize_stretched (found : h.block? b.addr = some b) (segments : List Segment) (chunk : Nat) :
    let after := ({ h with segments } : Heap).setSize b.addr chunk
    after = { h with
      segments := after.segments
      live := h.live.map fun c => if c.addr = b.addr then { c with size := chunk } else c
      allocated := after.allocated
      peak := after.peak } := by
  have found' : ({ h with segments } : Heap).block? b.addr = some b := found
  simp only [setSize, found']

/-- A block in the segment stretches when its segment is exchanged for one with a slid range. -/
theorem Stretches.of_slides {below : SystemHeap} {r : Resized} (found : h.block? b.addr = some b)
    (starts : s.contains b.addr = true) (frame : t.frame = s.frame)
    (slides : FreeRange.Slides (b.addr - s.base + b.size) (b.addr - s.base + chunk) s.free t.free)
    (poisoned : below = poison system (b.addr + chunk) (b.size - chunk)) :
    h.Stretches system b i s chunk
      ⟨some r, ({ h with segments := h.segments.set i t } : Heap).setSize b.addr chunk, below⟩ where
  heap := setSize_stretched found _ chunk
  segment := ⟨t, (setSize_eq (h := { h with segments := h.segments.set i t }) found chunk).1, frame,
    slides, cover_of_slides starts frame slides⟩
  system := poisoned

theorem Sound.stretches_self (sound : h.Sound system rest []) (found : h.block? b.addr = some b)
    (inSegments : h.segments[i]? = some s) (answer : Option Resized) :
    h.Stretches system b i s b.size ⟨answer, h, system⟩ where
  heap := by
    have same : h.live.map (fun c => if c.addr = b.addr then { c with size := b.size } else c) =
        h.live := by
      refine (List.map_congr_left fun c live => ?_).trans (List.map_id _)
      split
      · rename_i here
        have both := sound.block?_eq live
        rw [here, found] at both
        cases both
        rfl
      · rfl
    simp only [same]
  segment := by
    refine ⟨s, ?_, rfl, FreeRange.slides_self _ _, fun _ => rfl⟩
    obtain ⟨bound, rfl⟩ := List.getElem?_eq_some_iff.1 inSegments
    exact (List.set_getElem_self bound).symm
  system := (poison_of_le (Nat.le_refl _)).symm

theorem extend_slides {offset old new : Nat} (sound : s.Sound) (grows : old ≤ new)
    (extended : s.extend offset old new = some t) :
    FreeRange.Slides (offset + old) (offset + new) s.free t.free := by
  obtain ⟨left, taken, rfl⟩ := Option.map_eq_some_iff.1 extended
  have slides := FreeRange.takeFront_slides sound.spaced taken
  rwa [Nat.add_assoc, Nat.add_sub_cancel' grows] at slides

theorem giveBack_frame {offset : Nat} (returned : s.giveBack offset length = .ok t) :
    FreeRange.giveBack offset length s.free = .ok t.free ∧ t.frame = s.frame := by
  unfold Segment.giveBack at returned
  split at returned
  · cases returned
  · split at returned
    · rename_i merged
      cases returned
      exact ⟨merged, rfl⟩
    · cases returned

/-- The tail of a place is merged with the range behind it. -/
theorem Tiles.giveBack_slides (tiles : Tiles segments places) (member : s ∈ segments)
    (inPlaces : u ∈ places) (starts : s.contains u.addr = true) (filled : 0 < front)
    (smaller : front < u.size)
    (returned : s.giveBack (u.addr - s.base + front) (u.size - front) = .ok t) :
    FreeRange.Slides (u.addr - s.base + u.size) (u.addr - s.base + front) s.free t.free := by
  have sound := tiles.sound s member
  have lower : s.frame.addr ≤ u.addr := (Segment.contains_iff.1 starts).1
  have clear : ∀ r ∈ s.free, r.stop ≠ u.addr - s.frame.addr + front := by
    intro r inFree
    have apart := tiles.clear_end member inPlaces starts filled smaller.le inFree
    have stop : r.stop = r.start + r.length := rfl
    have nonempty := (sound.spaced.mem inFree).2.1
    omega
  have slides := FreeRange.giveBack_slides sound.spaced (Nat.sub_pos_of_lt smaller) clear
    (giveBack_frame returned).1
  rwa [Nat.add_assoc, Nat.add_sub_cancel' smaller.le] at slides

theorem span_mem_places (live : b ∈ h.live) (placed : b.dedicated = false) : b.span ∈ h.places :=
  List.mem_append_left _ (List.mem_map_of_mem (List.mem_filter.2 ⟨live, by simp [placed]⟩))

/-- The segment that a live block lies in. -/
theorem Sound.segment_of_live (sound : h.Sound system rest []) (live : b ∈ h.live)
    (placed : b.dedicated = false) : ∃ (i : Nat) (s : Segment), h.segments[i]? = some s ∧
      s.contains b.addr = true ∧ b.span.Within s.frame := by
  obtain ⟨_, f, inFrames, within⟩ := sound.tiles.inside b.span (span_mem_places live placed)
  obtain ⟨s, inSegments, rfl⟩ := List.mem_map.1 inFrames
  obtain ⟨i, found⟩ := List.mem_iff_getElem?.1 inSegments
  exact ⟨i, s, found, Segment.contains_iff.2
    ⟨within.1, Nat.lt_of_lt_of_le (Nat.lt_add_of_pos_right (sound.filled live)) within.2⟩, within⟩

/-- A block that shrinks gives up its tail. -/
theorem Sound.shrink_stretches (sound : h.Sound system rest []) (found : h.block? b.addr = some b)
    (placed : b.dedicated = false) (inSegments : h.segments[i]? = some s)
    (starts : s.contains b.addr = true) (within : b.span.Within s.frame) (filled : 0 < chunk)
    (smaller : chunk < b.size) (shrunk : h.shrink system b chunk = .ok step) :
    step.answer = some ⟨b.addr, false⟩ ∧ h.Stretches system b i s chunk step := by
  have member := List.mem_of_getElem? inSegments
  have tiles : Tiles h.segments h.places := sound.tiles
  have lower : s.base ≤ b.addr := (Segment.contains_iff.1 starts).1
  have startsTail : s.contains (b.addr + chunk) = true := by
    refine Segment.contains_iff.2 ⟨Nat.le_add_right_of_le lower, ?_⟩
    exact Nat.lt_of_lt_of_le (Nat.add_lt_add_left smaller b.addr) within.2
  have index := segmentIndex?_eq sound.tiles.toOrdered inSegments startsTail
  have offset : b.addr + chunk - s.base = b.addr - s.base + chunk := Nat.sub_add_comm lower
  simp only [Heap.shrink, returnRange, index, inSegments, offset] at shrunk
  split at shrunk
  · cases shrunk
  · rename_i returned
    split at returned
    · rename_i t gaveBack
      cases returned
      cases shrunk
      have slides := tiles.giveBack_slides member (span_mem_places (block?_mem found).1 placed) starts
        filled smaller gaveBack
      exact ⟨rfl, .of_slides found starts (giveBack_frame gaveBack).2 slides rfl⟩
    · cases returned

theorem growInPlace_eq_map (ordered : Segment.Ordered h.segments) (inSegments : h.segments[i]? = some s)
    (starts : s.contains b.addr = true) : h.growInPlace b chunk =
      (s.extend (b.addr - s.base) b.size chunk).map fun t =>
        ({ h with segments := h.segments.set i t } : Heap).setSize b.addr chunk := by
  simp only [Heap.growInPlace, segmentIndex?_eq ordered inSegments starts, inSegments]

/-- A block grows in place if and only if the bytes that it needs are free. -/
theorem Sound.growInPlace_isSome_iff (sound : h.Sound system rest []) (live : b ∈ h.live)
    (placed : b.dedicated = false) (inSegments : h.segments[i]? = some s)
    (starts : s.contains b.addr = true) (grows : b.size < chunk) :
    (h.growInPlace b chunk).isSome = true ↔ s.AllFree ⟨b.addr + b.size, chunk - b.size⟩ := by
  have member := List.mem_of_getElem? inSegments
  have lower : s.frame.addr ≤ b.addr := (Segment.contains_iff.1 starts).1
  have tiles : Tiles h.segments h.places := sound.tiles
  have range := tiles.range_iff member (span_mem_places live placed) starts (Nat.sub_pos_of_lt grows)
  rw [growInPlace_eq_map tiles.toOrdered inSegments starts, Option.isSome_map, Segment.extend,
    Option.isSome_map, FreeRange.takeFront_isSome_iff (tiles.sound s member).spaced]
  refine Iff.trans (exists_congr fun r => and_congr_right fun _ => and_congr_left fun _ => ?_) range
  change r.start = b.addr - s.frame.addr + b.size ↔ s.frame.addr + r.start = b.addr + b.size
  omega

theorem Sound.growInPlace_stretches (sound : h.Sound system rest [])
    (found : h.block? b.addr = some b) (inSegments : h.segments[i]? = some s)
    (starts : s.contains b.addr = true) (grows : b.size ≤ chunk)
    (grown : h.growInPlace b chunk = some after) :
    h.Stretches system b i s chunk ⟨some ⟨b.addr, false⟩, after, system⟩ := by
  rw [growInPlace_eq_map sound.tiles.toOrdered inSegments starts] at grown
  obtain ⟨t, extended, rfl⟩ := Option.map_eq_some_iff.1 grown
  have slides := extend_slides (sound.tiles.sound s (List.mem_of_getElem? inSegments)) grows extended
  obtain ⟨_, _, same⟩ := Option.map_eq_some_iff.1 extended
  have frame : t.frame = s.frame := by
    cases same
    rfl
  exact .of_slides found starts frame slides (poison_of_le grows).symm

/-- A block that grows elsewhere never comes back to where it was, and it fails only if there is no
place for it. -/
theorem Sound.growElsewhere_decides (sound : h.Sound system rest []) (tallied : h.Tallied)
    (live : b ∈ h.live) (filled : 0 < chunk) :
    ∃ step, h.growElsewhere system b chunk = .ok step ∧
      (step.answer = none ↔ h.Lacks system chunk b.align) ∧
      ∀ r, step.answer = some r → r.moved = true ∧ r.addr ≠ b.addr := by
  have aligned := sound.aligned b live
  have positive : 0 < b.align := Nat.lt_of_lt_of_le (by decide) aligned
  obtain ⟨place, placed, lacks, _⟩ := sound.place_decides tallied filled positive
  obtain ⟨_, placed', soundPlaced, _, issued⟩ := sound.place filled aligned
  cases placed.symm.trans placed'
  simp only [Heap.growElsewhere, placed]
  cases answer : place.answer with
  | none => exact ⟨_, rfl, iff_of_true rfl (lacks.1 answer), by simp⟩
  | some addr =>
    obtain ⟨before, books, same⟩ := issued addr answer
    have copied := soundPlaced.withBytes (place.system.bytes.copy b.addr addr b.size)
    obtain ⟨last, released, _⟩ := copied.release b.addr
    simp only [released]
    refine ⟨_, rfl, iff_of_false (by simp) fun short => ?_, fun r resized => ?_⟩
    · exact absurd (answer.symm.trans (lacks.2 short)) (by simp)
    · cases resized
      refine ⟨rfl, fun here => ?_⟩
      have unique := soundPlaced.addr_nodup
      rw [same] at unique
      refine (List.nodup_cons.1 unique).1 (List.mem_map.2 ⟨b, ?_, here.symm⟩)
      exact books.live ▸ live

/-- What becomes of a live block that is to have another size: it stays where it is if and only if it
does not need more bytes or all that it needs are free, which one range tells. Otherwise it moves,
unless there is no place for it. -/
structure StaysOrMoves (h : Heap) (system : SystemHeap) (b : LiveBlock) (i : Nat) (s : Segment)
    (chunk : Nat) (step : HeapStep (Option Resized)) : Prop where
  stays : step.answer = some ⟨b.addr, false⟩ ↔
    chunk ≤ b.size ∨ s.AllFree ⟨b.addr + b.size, chunk - b.size⟩
  range : chunk ≤ b.size ∨ s.AllFree ⟨b.addr + b.size, chunk - b.size⟩ ↔
    chunk ≤ b.size ∨ ∃ r ∈ s.free, s.frame.addr + r.start = b.addr + b.size ∧
      chunk - b.size ≤ r.length
  stretches : step.answer = some ⟨b.addr, false⟩ → h.Stretches system b i s chunk step
  moves : step.answer ≠ some ⟨b.addr, false⟩ →
    (step.answer = none ↔ h.Lacks system chunk b.align) ∧
      ∀ r, step.answer = some r → r.moved = true ∧ r.addr ≠ b.addr

theorem Sound.resize_decides (sound : h.Sound system rest []) (tallied : h.Tallied)
    (live : b ∈ h.live) (placed : b.dedicated = false) (rounded : chunkSize? size = some chunk)
    (fits : b.size < chunk → h.fitsBudget (chunk - b.size) = true) :
    ∃ (i : Nat) (s : Segment) (step : HeapStep (Option Resized)), h.segments[i]? = some s ∧
      s.contains b.addr = true ∧ h.resize system b.addr size = .ok step ∧
      h.StaysOrMoves system b i s chunk step := by
  have found := sound.block?_eq live
  obtain ⟨i, s, inSegments, starts, within⟩ := sound.segment_of_live live placed
  refine ⟨i, s, ?_⟩
  have filled := chunkSize?_pos rounded
  have member := List.mem_of_getElem? inSegments
  have tiles : Tiles h.segments h.places := sound.tiles
  have range : chunk ≤ b.size ∨ s.AllFree ⟨b.addr + b.size, chunk - b.size⟩ ↔
      chunk ≤ b.size ∨ ∃ r ∈ s.free, s.frame.addr + r.start = b.addr + b.size ∧
        chunk - b.size ≤ r.length := by
    by_cases grows : b.size < chunk
    · exact or_congr_right (tiles.range_iff member (span_mem_places live placed) starts
        (Nat.sub_pos_of_lt grows)).symm
    · exact iff_of_true (.inl (Nat.le_of_not_lt grows)) (.inl (Nat.le_of_not_lt grows))
  have inPlace : ∀ step : HeapStep (Option Resized), step.answer = some ⟨b.addr, false⟩ →
      (chunk ≤ b.size ∨ s.AllFree ⟨b.addr + b.size, chunk - b.size⟩) →
      h.Stretches system b i s chunk step → h.StaysOrMoves system b i s chunk step :=
    fun step answer room stretches =>
      ⟨iff_of_true answer room, range, fun _ => stretches, fun other => absurd answer other⟩
  have budget : ¬ (b.size < chunk ∧ ¬ h.fitsBudget (chunk - b.size) = true) :=
    fun excess => excess.2 (fits excess.1)
  simp only [Heap.resize, found, rounded, placed, Bool.false_eq_true, if_false, if_neg budget]
  by_cases same : chunk = b.size
  · subst same
    rw [if_pos rfl]
    exact ⟨_, inSegments, starts, rfl, inPlace _ rfl (.inl (Nat.le_refl _))
      (sound.stretches_self found inSegments _)⟩
  rw [if_neg same]
  by_cases smaller : chunk < b.size
  · rw [if_pos smaller]
    obtain ⟨step, shrunk, _⟩ := sound.shrink found placed filled smaller
    obtain ⟨answer, stretches⟩ :=
      sound.shrink_stretches found placed inSegments starts within filled smaller shrunk
    exact ⟨step, inSegments, starts, shrunk, inPlace step answer (.inl smaller.le) stretches⟩
  rw [if_neg smaller]
  have grows : b.size < chunk := by omega
  have room := sound.growInPlace_isSome_iff live placed inSegments starts grows
  cases grown : h.growInPlace b chunk with
  | some after =>
    have free := room.1 (by rw [grown]; rfl)
    exact ⟨_, inSegments, starts, rfl, inPlace _ rfl (.inr free)
      (sound.growInPlace_stretches found inSegments starts grows.le grown)⟩
  | none =>
    obtain ⟨step, moved, lacks, away⟩ := sound.growElsewhere_decides tallied live filled
    have leaves : step.answer ≠ some ⟨b.addr, false⟩ :=
      fun answer => Bool.false_ne_true (away _ answer).1
    have used : ¬ (chunk ≤ b.size ∨ s.AllFree ⟨b.addr + b.size, chunk - b.size⟩) := by
      rintro (le | free)
      · exact Nat.not_le.2 grows le
      · rw [grown] at room
        exact Bool.false_ne_true (room.2 free)
    exact ⟨step, inSegments, starts, moved, iff_of_false leaves used, range,
      fun answer => absurd answer leaves, fun _ => ⟨lacks, away⟩⟩

end Heap

end PooledMemory
