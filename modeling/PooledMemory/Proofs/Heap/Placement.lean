import PooledMemory.Proofs.Heap.Soundness

namespace PooledMemory.Heap

/-- Bytes charged for the live blocks, counted without a bound. -/
def spent (h : Heap) : Nat := LiveBlock.bytes h.live + h.live.length * blockOverhead

/-- The live blocks do not cost more than the budget, which is a word. -/
structure InBudget (h : Heap) : Prop where
  limit : h.maxSize < wordSize
  within : h.spent ≤ h.maxSize

/-- Heaps that differ only in how their memory is laid out. -/
structure SameBooks (h after : Heap) : Prop where
  live : after.live = h.live
  allocated : after.allocated = h.allocated
  peak : after.peak = h.peak
  maxSize : after.maxSize = h.maxSize

variable {h : Heap} {system : SystemHeap} {rest : List SystemBlock} {hole : List Span}

theorem SameBooks.refl (h : Heap) : SameBooks h h := ⟨rfl, rfl, rfl, rfl⟩

theorem SameBooks.trans {middle after : Heap} (first : SameBooks h middle)
    (second : SameBooks middle after) : SameBooks h after :=
  ⟨second.live.trans first.live, second.allocated.trans first.allocated,
    second.peak.trans first.peak, second.maxSize.trans first.maxSize⟩

theorem SameBooks.inBudget {after : Heap} (same : SameBooks h after) (budget : h.InBudget) :
    after.InBudget where
  limit := same.maxSize ▸ budget.limit
  within := by
    rw [spent, same.live, same.maxSize]
    exact budget.within

theorem Sound.allocated_eq (sound : h.Sound system rest hole) (budget : h.InBudget) :
    h.allocated = LiveBlock.bytes h.live := by
  obtain ⟨limit, within⟩ := budget
  rw [spent] at within
  rw [sound.counted]
  exact Nat.mod_eq_of_lt (by omega)

theorem Sound.footprint_eq (sound : h.Sound system rest hole) (budget : h.InBudget) :
    h.footprint = h.spent := by
  have allocated := sound.allocated_eq budget
  obtain ⟨limit, within⟩ := budget
  rw [spent] at within
  rw [footprint, allocated, Word.mul_of_lt (by omega), Word.add_of_lt (by omega), spent]

theorem Sound.fitsBudget_iff (sound : h.Sound system rest hole) (budget : h.InBudget)
    (additional : Nat) : h.fitsBudget additional = true ↔ h.spent + additional ≤ h.maxSize := by
  have limit := budget.limit
  rw [fitsBudget, sound.footprint_eq budget, Word.add?]
  by_cases small : h.spent + additional < wordSize
  · simp [small]
  · have excess : ¬ h.spent + additional ≤ h.maxSize := by omega
    simp [small, excess]

theorem Sound.takeParked {after : Heap} {chunk addr : Nat} (sound : h.Sound system rest hole)
    (taken : h.takeParked chunk = some (addr, after)) :
    SameBooks h after ∧ after.Sound system rest (⟨addr, chunk⟩ :: hole) := by
  obtain ⟨c, found, same⟩ := Option.map_eq_some_iff.1 taken
  cases same
  have size : c.size = chunk := by simpa using List.find?_some found
  subst size
  have perm := (List.perm_cons_erase (List.mem_of_find?_eq_some found)).map (·.span)
  refine ⟨⟨rfl, rfl, rfl, rfl⟩, ⟨sound.tiles.perm ?_, sound.aligned, sound.counted⟩, sound.below,
    sound.held⟩
  show (hole ++ (_ ++ h.parked.map (·.span))).Perm (c.span :: (hole ++ (_ ++ _)))
  rw [← List.append_assoc, ← List.append_assoc]
  exact (perm.append_left _).trans List.perm_middle

theorem Sound.carve {after : Heap} {chunk align addr : Nat} (sound : h.Sound system rest hole)
    (filled : 0 < chunk) (carved : h.carve chunk align = some (addr, after)) :
    SameBooks h after ∧ after.Sound system rest (⟨addr, chunk⟩ :: hole) := by
  obtain ⟨⟨found, segments⟩, inner, same⟩ := Option.map_eq_some_iff.1 carved
  cases same
  obtain ⟨tiles, frames⟩ := sound.tiles.carve filled inner
  refine ⟨⟨rfl, rfl, rfl, rfl⟩, ⟨tiles, sound.aligned, sound.counted⟩, sound.below, ?_⟩
  simp only [holdings, frames]
  exact sound.held

theorem Sound.unpark (sound : h.Sound system rest hole) :
    ∃ after, h.unpark = .ok after ∧ after.parked = [] ∧ SameBooks h after ∧
      after.Sound system rest hole := by
  have perm : (hole ++ h.places).Perm
      (h.parked.map (·.span) ++ (hole ++ LiveBlock.places h.live)) := by
    rw [places, ← List.append_assoc]
    exact List.perm_append_comm
  obtain ⟨segments, returned, tiles, frames⟩ :=
    Tiles.giveUpAll (h := { h with parked := [] }) (sound.tiles.perm perm)
  refine ⟨_, returned, rfl, ⟨rfl, rfl, rfl, rfl⟩, ⟨?_, sound.aligned, sound.counted⟩, sound.below,
    ?_⟩
  · simpa [places] using tiles
  · simp only [holdings, frames]
    exact sound.held

theorem takeSegment?_spec {after : SystemHeap} {base : Nat} (below : system.Sound)
    (taken : system.takeSegment? = some (base, after)) :
    after.Sound ∧ after.blocks = (⟨base, segmentBytes⟩ : Span).segmentBlock :: system.blocks :=
  below.take (by decide) taken

/-- The places that an answer stands for. -/
def served (answer : Option Address) (chunk : Nat) : List Span :=
  (answer.map fun addr => (⟨addr, chunk⟩ : Span)).toList

/-- The bytes at the answer, if there is one, are taken out of the segments. -/
structure Reserves (h : Heap) (rest : List SystemBlock) (hole : List Span) (chunk : Nat)
    (step : HeapStep (Option Address)) : Prop where
  books : SameBooks h step.heap
  sound : step.heap.Sound step.system rest (served step.answer chunk ++ hole)

/-- A segment that the system heap hands out overlaps no other. -/
theorem Sound.granted_apart {frame : Span} {after : SystemHeap} (sound : h.Sound system rest hole)
    (below : after.Sound) (blocks : after.blocks = frame.segmentBlock :: system.blocks) :
    ∀ f ∈ h.segments.map (·.frame), frame.Apart f := by
  intro f member
  have own : f.segmentBlock ∈ h.holdings ++ rest :=
    List.mem_append_left _ (List.mem_append_left _ (List.mem_map_of_mem member))
  have first := below.apart
  rw [blocks] at first
  exact (List.pairwise_cons.1 first).1 _ (sound.held.mem_iff.2 own)

/-- A new segment comes with a block of the system heap and does not overlap the others. -/
theorem Sound.addSegment {t : Segment} {after : SystemHeap} (sound : h.Sound system rest hole)
    (extra : List Span) (below : after.Sound)
    (blocks : after.blocks = t.frame.segmentBlock :: system.blocks) (whole : t.Sound)
    (inside : ∀ u ∈ extra, 0 < u.size ∧ u.Within t.frame)
    (covered : ∀ x, Span.cover extra x + t.freeCover x = t.frame.hits x) :
    (h.insertSegment t).Sound after rest (extra ++ hole) := by
  have apart := sound.granted_apart below blocks
  obtain ⟨tiles, frames⟩ := sound.tiles.insert whole apart rfl inside covered
  refine ⟨⟨?_, sound.aligned, sound.counted⟩, below, ?_⟩
  · rw [List.append_assoc]
    exact tiles
  · have bigger : (t.frame.segmentBlock :: h.holdings).Perm
        (h.insertSegment t).holdings :=
      List.Perm.append_right _ (frames.symm.map (·.segmentBlock))
    rw [blocks]
    exact (sound.held.cons _).trans (bigger.append_right rest)

theorem Sound.carveFresh {chunk : Nat} (sound : h.Sound system rest hole)
    (filled : 0 < chunk) (align : Nat) : Reserves h rest hole chunk (h.carveFresh system chunk align) := by
  unfold Heap.carveFresh
  cases taken : system.takeSegment? with
  | none => exact ⟨.refl h, sound⟩
  | some found =>
    obtain ⟨base, after⟩ := found
    obtain ⟨below, blocks⟩ := takeSegment?_spec sound.below taken
    have whole := Segment.fresh_sound base
    cases carved : (Segment.fresh base segmentBytes).carve chunk align with
    | none =>
      simp only [carved]
      refine ⟨⟨rfl, rfl, rfl, rfl⟩, sound.addSegment [] below blocks whole (by simp)
        fun x => ?_⟩
      rw [Segment.fresh_freeCover]
      exact Nat.zero_add _
    | some result =>
      obtain ⟨addr, t⟩ := result
      obtain ⟨soundCarved, frame, inside, covers⟩ := whole.carve filled carved
      simp only [carved]
      refine ⟨⟨rfl, rfl, rfl, rfl⟩, sound.addSegment [⟨addr, chunk⟩] below
        (by rw [frame]; exact blocks) soundCarved ?_ fun x => ?_⟩
      · exact List.forall_mem_singleton.2 ⟨filled, frame ▸ inside⟩
      · have taken := covers x
        rw [Segment.fresh_freeCover, ← frame] at taken
        rw [Span.cover_cons, Span.cover_nil]
        omega

/-- Moving the parked chunks back is no fault, and any source of memory may answer. -/
theorem Sound.placeInSegment {chunk : Nat} (sound : h.Sound system rest hole)
    (filled : 0 < chunk) (align : Nat) :
    ∃ step, h.placeInSegment system chunk align = .ok step ∧ Reserves h rest hole chunk step := by
  have grown : ∃ step, h.carveOrGrow system chunk align = .ok step ∧
      Reserves h rest hole chunk step := by
    unfold carveOrGrow
    cases direct : h.carve chunk align with
    | some found =>
      obtain ⟨books, reserved⟩ := sound.carve filled direct
      exact ⟨_, rfl, books, reserved⟩
    | none =>
      obtain ⟨unparked, returned, _, books, soundUnparked⟩ := sound.unpark
      simp only [returned]
      cases later : unparked.carve chunk align with
      | some found =>
        obtain ⟨booksCarved, reserved⟩ := soundUnparked.carve filled later
        exact ⟨_, rfl, books.trans booksCarved, reserved⟩
      | none =>
        have fresh := soundUnparked.carveFresh filled align
        exact ⟨_, rfl, books.trans fresh.books, fresh.sound⟩
  unfold Heap.placeInSegment
  by_cases plain : align = granule
  · rw [if_pos plain]
    cases waiting : h.takeParked chunk with
    | some found =>
      obtain ⟨books, reserved⟩ := sound.takeParked waiting
      exact ⟨_, rfl, books, reserved⟩
    | none => exact grown
  · rw [if_neg plain]
    exact grown

theorem Sound.placeInRegion {chunk align : Nat} (sound : h.Sound system rest hole)
    (filled : 0 < chunk) (aligned : granule ≤ align) :
    SameBooks h (h.placeInRegion system chunk align).heap ∧
      (h.placeInRegion system chunk align).heap.Sound (h.placeInRegion system chunk align).system
        ((h.placeInRegion system chunk align).answer.toList.map
          (fun addr => (⟨addr, chunk, align⟩ : SystemBlock)) ++ rest) hole := by
  unfold Heap.placeInRegion
  split
  · exact ⟨.refl h, sound⟩
  · rename_i addr after taken
    split at taken
    · obtain ⟨below, blocks⟩ := sound.below.take filled taken
      rw [Nat.max_eq_left aligned] at blocks
      refine ⟨⟨rfl, rfl, rfl, rfl⟩, ⟨sound.tiles, sound.aligned, sound.counted⟩, below, ?_⟩
      rw [blocks]
      exact (sound.held.cons _).trans List.perm_middle.symm
    · cases taken

/-- The block of the answer, if there is one, is live in the heap and nothing else changes. -/
structure Issues (h : Heap) (rest : List SystemBlock) (hole : List Span) (chunk align : Nat)
    (step : HeapStep (Option Address)) : Prop where
  sound : step.heap.Sound step.system rest hole
  refused : step.answer = none → SameBooks h step.heap
  issued : ∀ addr, step.answer = some addr → ∃ before, SameBooks h before ∧
    step.heap = before.addLive ⟨addr, chunk, align, needsRegion chunk align⟩

theorem Sound.place {chunk align : Nat} (sound : h.Sound system rest hole) (filled : 0 < chunk)
    (aligned : granule ≤ align) :
    ∃ step, h.place system chunk align = .ok step ∧ Issues h rest hole chunk align step := by
  unfold Heap.place
  cases kind : needsRegion chunk align with
  | true =>
    obtain ⟨books, reserved⟩ := sound.placeInRegion filled aligned
    revert books reserved
    simp only [if_true]
    generalize h.placeInRegion system chunk align = step
    obtain ⟨answer, heap, after⟩ := step
    intro books reserved
    cases answer with
    | none => exact ⟨_, rfl, reserved, fun _ => books, by simp⟩
    | some addr =>
      refine ⟨_, rfl, reserved.addRegion rfl aligned, by simp, fun other same => ?_⟩
      cases same
      exact ⟨heap, books, by rw [kind]⟩
  | false =>
    obtain ⟨step, placed, books, reserved⟩ := sound.placeInSegment filled align
    simp only [Bool.false_eq_true, if_false, placed]
    obtain ⟨answer, heap, after⟩ := step
    cases answer with
    | none => exact ⟨_, rfl, reserved, fun _ => books, by simp⟩
    | some addr =>
      refine ⟨_, rfl, Sound.addLive rfl aligned reserved, by simp, fun other same => ?_⟩
      cases same
      exact ⟨heap, books, by rw [kind]⟩

end PooledMemory.Heap
