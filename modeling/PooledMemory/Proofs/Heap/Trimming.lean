import PooledMemory.Proofs.Heap.Canonical
import PooledMemory.Proofs.Heap.Content
import PooledMemory.Proofs.Heap.Extent
import PooledMemory.Proofs.Heap.Returns

namespace PooledMemory

namespace Segment

variable {s : Segment}

theorem Sound.eq_fresh (sound : s.Sound) (free : ∀ x, s.freeCover x = s.frame.hits x) :
    s = fresh s.base segmentBytes := by
  have frame : s.frame = (fresh s.base segmentBytes).frame := by
    rw [frame, sound.whole]
    rfl
  refine sound.unique (fresh_sound s.base) frame fun x => ?_
  rw [free x, frame, fresh_freeCover]

/-- The counter of the free bytes tells whether all bytes are free. -/
theorem Sound.isUnused_iff (sound : s.Sound) :
    s.isUnused = true ↔ ∀ x, s.freeCover x = s.frame.hits x := by
  refine ⟨sound.freeCover_of_isUnused, fun free => ?_⟩
  rw [sound.eq_fresh free]
  exact beq_self_eq_true _

end Segment

namespace Heap

variable {h : Heap} {system : SystemHeap} {rest : List SystemBlock} {hole : List Span}
  {segments : List Segment} {places : List Span} {s : Segment} {step : HeapStep Nat}

/-- Whether no live block starts in the segment. -/
def isIdle (h : Heap) (s : Segment) : Bool := h.live.all fun b => !s.contains b.addr

/-- Whether nothing but parked chunks keeps the segment from being unused. -/
def isHeldBack (h : Heap) (s : Segment) : Bool :=
  h.isIdle s && h.parked.any fun c => s.contains c.addr

/-- A place in a segment starts there. -/
theorem Tiles.contains_start (tiles : Tiles segments places) (member : s ∈ segments) {u : Span}
    (inPlaces : u ∈ places) {x : Address} (inside : s.contains x = true) (has : u.has x = true) :
    s.contains u.addr = true := by
  obtain ⟨filled, _⟩ := tiles.inside u inPlaces
  obtain ⟨lower, upper⟩ := tiles.within member inPlaces inside has
  exact Segment.contains_iff.2 ⟨lower, Nat.lt_of_lt_of_le (Nat.lt_add_of_pos_right filled) upper⟩

/-- A segment is unused if and only if no place starts in it. -/
theorem Tiles.isUnused_iff (tiles : Tiles segments places) (member : s ∈ segments) :
    s.isUnused = true ↔ ∀ u ∈ places, s.contains u.addr = false := by
  have sound := tiles.sound s member
  rw [sound.isUnused_iff]
  constructor
  · intro free u inPlaces
    by_contra starts
    obtain ⟨lower, upper⟩ := Segment.contains_iff.1 (Bool.not_eq_false _ ▸ starts)
    have whole := tiles.covered_inside member lower upper
    have filled := (tiles.inside u inPlaces).1
    have used : u.hits u.addr = 1 :=
      Span.hits_of_has (Nat.le_refl _) (Nat.lt_add_of_pos_right filled)
    have counted := Span.hits_le_cover inPlaces u.addr
    rw [free, Span.hits_of_has lower upper] at whole
    omega
  · intro clear x
    by_cases inside : s.contains x = true
    · obtain ⟨lower, upper⟩ := Segment.contains_iff.1 inside
      have nothing : Span.cover places x = 0 := by
        refine List.countP_eq_zero.2 fun u inPlaces has => ?_
        have starts := tiles.contains_start member inPlaces inside has
        exact Bool.false_ne_true ((clear u inPlaces).symm.trans starts)
      have whole := tiles.covered_inside member lower upper
      rw [nothing, Nat.zero_add] at whole
      rw [whole, Span.hits_of_has lower upper]
    · have outside : s.frame.hits x = 0 := if_neg (mt Segment.contains_iff.2 inside)
      have bound := sound.freeCover_le x
      omega

/-- No dedicated region starts in a segment. -/
theorem Sound.not_contains_region (sound : h.Sound system rest hole) (member : s ∈ h.segments)
    {b : LiveBlock} (live : b ∈ h.live) (own : b.dedicated = true) : s.contains b.addr = false := by
  by_contra starts
  obtain ⟨lower, upper⟩ := Segment.contains_iff.1 (Bool.not_eq_false _ ▸ starts)
  have region : b.region ∈ LiveBlock.regions h.live :=
    List.mem_map_of_mem (List.mem_filter.2 ⟨live, own⟩)
  have filled := sound.filled live
  have once : Span.cover (system.blocks.map (·.span)) b.addr ≤ 1 :=
    Span.cover_le_one (List.pairwise_map.2 sound.below.apart) _
  rw [Span.cover_perm (sound.held.map (·.span)), holdings_eq, List.map_append, List.map_append,
    Span.cover_append, Span.cover_append] at once
  have first := Span.hits_le_cover (List.mem_map_of_mem (f := (·.span))
    (List.mem_map_of_mem (f := (·.frame.segmentBlock)) member)) b.addr
  have second := Span.hits_le_cover (List.mem_map_of_mem (f := (·.span)) region) b.addr
  have inFrame : s.frame.segmentBlock.span.hits b.addr = 1 := Span.hits_of_has lower upper
  have inRegion : b.region.span.hits b.addr = 1 :=
    Span.hits_of_has (Nat.le_refl _) (Nat.lt_add_of_pos_right filled)
  omega

/-- Only the live blocks in segments matter. -/
theorem Sound.isIdle_iff (sound : h.Sound system rest hole) (member : s ∈ h.segments) :
    h.isIdle s = true ↔ ∀ u ∈ LiveBlock.places h.live, s.contains u.addr = false := by
  simp only [isIdle, List.all_eq_true, Bool.not_eq_eq_eq_not, Bool.not_true]
  constructor
  · rintro idle u inPlaces
    obtain ⟨b, placed, rfl⟩ := List.mem_map.1 inPlaces
    exact idle b (List.mem_of_mem_filter placed)
  · intro clear b live
    cases kind : b.dedicated with
    | true => exact sound.not_contains_region member live kind
    | false => exact clear b.span (List.mem_map_of_mem (List.mem_filter.2 ⟨live, by simp [kind]⟩))

/-- A segment is unused if neither a live block nor a parked chunk is in it. -/
theorem Sound.isUnused_eq (sound : h.Sound system rest []) (member : s ∈ h.segments) :
    s.isUnused = (h.isIdle s && !h.isHeldBack s) := by
  rw [Bool.eq_iff_iff, sound.tiles.isUnused_iff member, List.nil_append, Heap.places,
    List.forall_mem_append, ← sound.isIdle_iff member]
  simp only [isHeldBack, Bool.and_eq_true, Bool.not_eq_eq_eq_not, Bool.not_true, Bool.and_eq_false_imp,
    List.any_eq_false, List.forall_mem_map]
  exact and_congr_right fun idle => ⟨fun clear _ c waits => Bool.eq_false_iff.1 (clear c waits),
    fun clear c waits => Bool.eq_false_iff.2 (clear idle c waits)⟩

/-- When all parked chunks are back, the unused segments are the idle ones. -/
theorem Sound.isUnused_of_unparked {h' : Heap} (sound : h'.Sound system rest [])
    (emptied : h'.parked = []) (member : s ∈ h'.segments) : s.isUnused = h'.isIdle s := by
  rw [sound.isUnused_eq member, isHeldBack, emptied]
  simp

/-- What a trim does: exactly the segments without a live block go back to the system heap. -/
structure Trims (h : Heap) (system : SystemHeap) (step : HeapStep Nat) : Prop where
  answer : step.answer = segmentBytes * (h.segments.filter h.isIdle).length
  /-- The parked chunks are gone, and nothing but the segments differs otherwise. -/
  heap : step.heap = { h with segments := step.heap.segments, parked := [] }
  /-- The other segments are kept in order. -/
  kept : step.heap.segments.map (·.frame) =
    (h.segments.filter fun s => !h.isIdle s).map (·.frame)
  /-- What is not live in them is free. -/
  tiles : Tiles step.heap.segments (LiveBlock.places h.live)
  given : system.blocks.Perm
    ((h.segments.filter h.isIdle).map (·.frame.segmentBlock) ++ step.system.blocks)
  strays : step.system.strayReturns = system.strayReturns
  bytes : step.system.bytes = system.bytes
  again : step.heap.trim step.system = .ok ⟨0, step.heap, step.system⟩

/-- Which segments are idle depends on where they lie and on what is live. -/
theorem filter_frames {others : List Segment} {h' : Heap} (which : Bool → Bool)
    (live : h'.live = h.live) (frames : others.map (·.frame) = segments.map (·.frame)) :
    (others.filter fun s => which (h'.isIdle s)).map (·.frame) =
      (segments.filter fun s => which (h.isIdle s)).map (·.frame) := by
  let keep (f : Span) : Bool := which (h.live.all fun b => !f.has b.addr)
  have byFrame : ∀ xs : List Segment,
      (xs.filter fun s => which (h.isIdle s)).map (·.frame) = (xs.map (·.frame)).filter keep :=
    fun xs => (List.filter_map (f := Segment.frame) (p := keep) (l := xs)).symm
  simp only [isIdle, live]
  exact (byFrame others).trans ((congrArg _ frames).trans (byFrame segments).symm)

/-- A heap without parked chunks and unused segments is left alone by a trim. -/
theorem trim_of_used (emptied : h.parked = []) (used : ∀ s ∈ h.segments, s.isUnused = false) :
    h.trim system = .ok ⟨0, h, system⟩ := by
  have none' : h.segments.filter (·.isUnused) = [] :=
    List.filter_eq_nil_iff.2 fun s member => by simp [used s member]
  have all' : h.segments.filter (fun s => !s.isUnused) = h.segments :=
    List.filter_eq_self.2 fun s member => by simp [used s member]
  have returned : h.unpark = .ok h := by
    cases h
    cases emptied
    rfl
  simp only [Heap.trim, returned, none', all', List.foldl_nil, sumBy_nil]

theorem Sound.trim_trims (sound : h.Sound system rest []) :
    ∃ step, h.trim system = .ok step ∧ h.Trims system step := by
  obtain ⟨unparked, returned, emptied, books, after⟩ := sound.unpark
  have frames := unpark_frames returned
  have unused : ∀ which : Bool → Bool, unparked.segments.filter (fun s => which s.isUnused) =
      unparked.segments.filter fun s => which (unparked.isIdle s) := fun which =>
    List.filter_congr fun s member => by rw [after.isUnused_of_unparked emptied member]
  have gone : (unparked.segments.filter (·.isUnused)).map (·.frame) =
      (h.segments.filter h.isIdle).map (·.frame) :=
    (congrArg _ (unused id)).trans (filter_frames id books.live frames)
  have stays : (unparked.segments.filter fun s => !s.isUnused).map (·.frame) =
      (h.segments.filter fun s => !h.isIdle s).map (·.frame) :=
    (congrArg _ (unused not)).trans (filter_frames not books.live frames)
  have tiles : Tiles unparked.segments (LiveBlock.places h.live) := by
    have whole := after.tiles
    rwa [List.nil_append, Heap.places, emptied, books.live, List.map_nil, List.append_nil] at whole
  have split := after.unused_perm
  obtain ⟨_, left⟩ := after.below.releaseEach split
  rw [List.foldl_map] at left
  obtain ⟨step, trimmed, _⟩ := sound.trim
  have strays := sound.trim_strays trimmed
  have bytes := trim_bytes trimmed
  refine ⟨step, trimmed, ?_⟩
  unfold Heap.trim at trimmed
  rw [returned] at trimmed
  cases trimmed
  refine ⟨?_, ?_, stays, tiles.dropUnused, ?_, strays, bytes, trim_of_used emptied fun s member => ?_⟩
  · have count : (unparked.segments.filter (·.isUnused)).length =
        (h.segments.filter h.isIdle).length := by
      simpa using congrArg List.length gone
    rw [← count]
    exact sumBy_length_of_whole fun s member =>
      (tiles.sound s (List.mem_of_mem_filter member)).whole
  · obtain ⟨segments, rfl, _⟩ := unpark_eq returned
    rfl
  · have blocks := congrArg (List.map (·.segmentBlock)) gone
    rw [List.map_map, List.map_map] at blocks
    exact (split.trans (left.symm.append_left _)).trans (.of_eq (congrArg (· ++ _) blocks))
  · simpa using (List.mem_filter.1 member).2

/-- A heap without live blocks in segments keeps none. -/
theorem Sound.segments_of_trims (sound : h.Sound system rest hole) (trims : h.Trims system step)
    (bare : LiveBlock.places h.live = []) : step.heap.segments = [] := by
  have idle : ∀ s ∈ h.segments, h.isIdle s = true := fun s member => by
    rw [sound.isIdle_iff member, bare]
    exact List.forall_mem_nil _
  have kept := trims.kept
  rw [List.filter_eq_nil_iff.2 fun s member => by simp [idle s member]] at kept
  exact List.map_eq_nil_iff.1 kept

/-- What the statistics call returnable leaves out the segments that parked chunks hold back. -/
theorem Sound.answer_eq (sound : h.Sound system rest []) (trims : h.Trims system step) :
    step.answer = h.usage.returnable + segmentBytes * (h.segments.filter h.isHeldBack).length := by
  have perm : ((h.segments.filter h.isIdle).filter (fun s => !h.isHeldBack s) ++
      (h.segments.filter h.isIdle).filter fun s => !!h.isHeldBack s).Perm
      (h.segments.filter h.isIdle) := List.filter_append_perm _ _
  have unused : (h.segments.filter h.isIdle).filter (fun s => !h.isHeldBack s) =
      h.segments.filter (·.isUnused) := by
    rw [List.filter_filter]
    refine List.filter_congr fun s member => ?_
    rw [sound.isUnused_eq member, Bool.and_comm]
  have held : (h.segments.filter h.isIdle).filter (fun s => !!h.isHeldBack s) =
      h.segments.filter h.isHeldBack := by
    rw [List.filter_filter]
    refine List.filter_congr fun s _ => ?_
    rw [Bool.not_not, isHeldBack, Bool.and_right_comm, Bool.and_self]
  have count := perm.length_eq
  rw [unused, held, List.length_append] at count
  have returnable : h.usage.returnable = segmentBytes * (h.segments.filter (·.isUnused)).length :=
    sumBy_length_of_whole fun s member => (sound.tiles.sound s (List.mem_of_mem_filter member)).whole
  rw [trims.answer, returnable, ← count, Nat.mul_add]

/-- The statistics are right if and only if there is a live block wherever a chunk is parked. -/
theorem Sound.answer_eq_returnable_iff (sound : h.Sound system rest [])
    (trims : h.Trims system step) : step.answer = h.usage.returnable ↔
      ∀ s ∈ h.segments, ∀ c ∈ h.parked, s.contains c.addr = true →
        ∃ b ∈ h.live, s.contains b.addr = true := by
  have filled : segmentBytes ≠ 0 := by decide
  rw [sound.answer_eq trims, Nat.add_eq_left, Nat.mul_eq_zero, or_iff_right filled,
    List.length_eq_zero_iff, List.filter_eq_nil_iff]
  refine forall₂_congr fun s _ => ?_
  simp only [isHeldBack, isIdle, Bool.and_eq_true, List.all_eq_true, List.any_eq_true, not_and,
    not_exists, Bool.not_eq_eq_eq_not, Bool.not_true]
  constructor
  · intro used c waits starts
    by_contra none'
    refine used (fun b live => ?_) c waits starts
    exact Bool.eq_false_iff.2 fun inside => none' ⟨b, live, inside⟩
  · rintro used idle c waits starts
    obtain ⟨b, live, inside⟩ := used c waits starts
    exact Bool.false_ne_true ((idle b live).symm.trans inside)

end Heap

end PooledMemory
