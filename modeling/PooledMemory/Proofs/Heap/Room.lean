import PooledMemory.Proofs.Heap.Balance
import PooledMemory.Proofs.Heap.Canonical

namespace PooledMemory

theorem Word.roundUp_le {n limit step : Nat} (le : n ≤ limit) (positive : 0 < step)
    (multiple : step ∣ limit) : roundUp n step ≤ limit := by
  have next := roundUp_lt (n := n) positive
  by_contra beyond
  have gap : step ∣ roundUp n step - limit := Nat.dvd_sub (dvd_roundUp positive) multiple
  have far := Nat.le_of_dvd (by omega) gap
  omega

/-- The size of a request rounded up to whole granules, whether or not that is a word. -/
def wholeSize (size : Nat) : Nat := Word.roundUp (max size 1) granule

theorem chunkSize?_eq (size : Nat) :
    chunkSize? size = if wholeSize size < wordSize then some (wholeSize size) else none := by
  have positive : 0 < granule := by decide
  rw [chunkSize?, Word.roundUp?, wholeSize]
  exact if_congr (and_iff_right positive) rfl rfl

theorem wholeSize_pos (size : Nat) : 0 < wholeSize size := by
  have above := Word.le_roundUp (max size 1) granule
  unfold wholeSize
  omega

namespace FreeRange

variable {r : FreeRange} {ranges : List FreeRange} {base chunk align : Nat}

/-- Some `chunk` bytes of the range start at a multiple of `align`. -/
def Holds (r : FreeRange) (base chunk align : Nat) : Prop :=
  ∃ offset, r.start ≤ offset ∧ offset + chunk ≤ r.stop ∧ align ∣ base + offset

/-- No word overflows where only bytes below the word size are free. -/
theorem padding?_eq (filled : 0 < chunk) (positive : 0 < align) (word : base + r.stop ≤ wordSize) :
    r.padding? base chunk align =
      if Word.roundUp (base + r.start) align + chunk ≤ base + r.stop then
        some (Word.roundUp (base + r.start) align - (base + r.start))
      else none := by
  have stop : r.stop = r.start + r.length := rfl
  have above := Word.le_roundUp (base + r.start) align
  by_cases start : base + r.start < wordSize
  · simp only [padding?, Word.add?, if_pos start, Word.roundUp?, positive, true_and]
    by_cases small : Word.roundUp (base + r.start) align < wordSize
    · simp only [if_pos small]
      exact if_congr (by omega) rfl rfl
    · simp only [if_neg small]
      exact (if_neg (by omega)).symm
  · simp only [padding?, Word.add?, if_neg start]
    exact (if_neg (by omega)).symm

/-- The least aligned offset is tried, so that a range that is passed over holds no aligned bytes. -/
theorem padding?_isSome_iff (filled : 0 < chunk) (positive : 0 < align)
    (word : base + r.stop ≤ wordSize) :
    (r.padding? base chunk align).isSome = true ↔ r.Holds base chunk align := by
  have above := Word.le_roundUp (base + r.start) align
  rw [padding?_eq filled positive word]
  constructor
  · intro found
    split at found
    · refine ⟨Word.roundUp (base + r.start) align - base, by omega, by omega, ?_⟩
      rw [Nat.add_sub_cancel' (by omega)]
      exact Word.dvd_roundUp positive
    · cases found
  · rintro ⟨offset, lower, upper, aligned⟩
    have least := Word.roundUp_le (Nat.add_le_add_left lower base) positive aligned
    rw [if_pos (by omega)]
    rfl

theorem carve_isSome_iff (filled : 0 < chunk) (positive : 0 < align)
    (word : ∀ r ∈ ranges, base + r.stop ≤ wordSize) :
    (carve base chunk align ranges).isSome = true ↔ ∃ r ∈ ranges, r.Holds base chunk align := by
  induction ranges with
  | nil => simp [carve]
  | cons r rest ih =>
    obtain ⟨first, others⟩ := List.forall_mem_cons.1 word
    have here := padding?_isSome_iff filled positive first
    simp only [List.mem_cons, exists_eq_or_imp, ← here, carve]
    cases r.padding? base chunk align with
    | some padding => simp
    | none => simp [ih others]

theorem length_le_total (member : r ∈ ranges) : r.length ≤ total ranges := by
  induction ranges with
  | nil => cases member
  | cons first rest ih =>
    rw [total_cons]
    rcases List.mem_cons.1 member with rfl | later
    · omega
    · have behind := ih later
      omega

end FreeRange

namespace Segment

variable {s : Segment} {chunk align : Nat}

/-- A segment with fewer free bytes than the chunk is passed over at once, and rightly so. -/
theorem Sound.carve_isSome_iff (sound : s.Sound) (filled : 0 < chunk) (positive : 0 < align)
    (low : s.frame.stop ≤ SystemHeap.firstBlock) :
    (if chunk ≤ s.freeBytes then s.carve chunk align else none).isSome = true ↔
      ∃ r ∈ s.free, r.Holds s.base chunk align := by
  have small : SystemHeap.firstBlock ≤ wordSize := by decide
  have word : ∀ r ∈ s.free, s.base + r.stop ≤ wordSize := by
    intro r member
    have upper := (sound.spaced.mem member).2.2
    exact Nat.le_trans (Nat.add_le_add_left upper s.base) (Nat.le_trans low small)
  have carved := FreeRange.carve_isSome_iff filled positive word
  by_cases enough : chunk ≤ s.freeBytes
  · rw [if_pos enough, Segment.carve, Option.isSome_map, carved]
  · rw [if_neg enough]
    constructor
    · intro found
      cases found
    · rintro ⟨r, member, offset, lower, upper, _⟩
      have part := FreeRange.length_le_total member
      have stop : r.stop = r.start + r.length := rfl
      rw [sound.counted] at enough
      omega

end Segment

namespace Heap

/-- Some free range of the segments holds `chunk` bytes at a multiple of `align`. -/
def HasRoom (segments : List Segment) (chunk align : Nat) : Prop :=
  ∃ s ∈ segments, ∃ r ∈ s.free, r.Holds s.base chunk align

variable {h unparked : Heap} {system : SystemHeap} {rest : List SystemBlock}
  {segments : List Segment} {chunk align size : Nat}

/-- The first fit finds a place wherever there is one. -/
theorem carveFirst_isSome_iff (sound : ∀ s ∈ segments, s.Sound)
    (low : ∀ f ∈ segments.map (·.frame), f.stop ≤ SystemHeap.firstBlock) (filled : 0 < chunk)
    (positive : 0 < align) :
    (carveFirst chunk align segments).isSome = true ↔ HasRoom segments chunk align := by
  induction segments with
  | nil => simp [carveFirst, HasRoom]
  | cons s others ih =>
    obtain ⟨soundHere, soundOthers⟩ := List.forall_mem_cons.1 sound
    obtain ⟨lowHere, lowOthers⟩ := List.forall_mem_cons.1 low
    have here := soundHere.carve_isSome_iff filled positive lowHere
    simp only [HasRoom, List.mem_cons, exists_eq_or_imp, ← here, carveFirst]
    cases (if chunk ≤ s.freeBytes then s.carve chunk align else none) with
    | some found => simp
    | none => simpa [HasRoom] using ih soundOthers lowOthers

theorem Sound.carve_isSome_iff (sound : h.Sound system rest []) (tallied : h.Tallied)
    (filled : 0 < chunk) (positive : 0 < align) :
    (h.carve chunk align).isSome = true ↔ HasRoom h.segments chunk align := by
  rw [Heap.carve, Option.isSome_map,
    carveFirst_isSome_iff sound.tiles.sound tallied.low filled positive]

/-- Memory that the heap holds serves the request: a parked chunk of exactly this size, unless more
than a granule has to be aligned, or a free range, maybe once all parked chunks are merged back. -/
inductive Affords (h : Heap) (chunk align : Nat) : Prop
  | parked {c : ParkedChunk} : align = granule → c ∈ h.parked → c.size = chunk → Affords h chunk align
  | free : HasRoom h.segments chunk align → Affords h chunk align
  | merged {unparked : Heap} : h.unpark = .ok unparked → HasRoom unparked.segments chunk align →
    Affords h chunk align

/-- A heap uses the memory that it holds, whatever is below it, and obtains a segment only if that
does not serve. -/
theorem Sound.placeInSegment_sources (sound : h.Sound system rest []) (tallied : h.Tallied)
    (filled : 0 < chunk) (positive : 0 < align) :
    (h.Affords chunk align ∧ ∃ addr after,
        after.segments.map (·.frame) = h.segments.map (·.frame) ∧
        ∀ other, h.placeInSegment other chunk align = .ok ⟨some addr, after, other⟩) ∨
      (¬ h.Affords chunk align ∧ ∃ unparked, h.unpark = .ok unparked ∧
        ∀ other, h.placeInSegment other chunk align = .ok (unparked.carveFresh other chunk align)) := by
  cases waiting : (if align = granule then h.takeParked chunk else none) with
  | some found =>
    have placed : ∀ other, h.placeInSegment other chunk align = .ok ⟨some found.1, found.2, other⟩ :=
      fun other => by rw [Heap.placeInSegment, waiting]
    split at waiting
    · rename_i plain
      obtain ⟨c, parked, rfl⟩ := Option.map_eq_some_iff.1 waiting
      have affords : h.Affords chunk align :=
        .parked plain (List.mem_of_find?_eq_some parked) (by simpa using List.find?_some parked)
      exact .inl ⟨affords, c.addr, { h with parked := h.parked.erase c }, rfl, placed⟩
    · cases waiting
  | none =>
    have behind : ∀ other, h.placeInSegment other chunk align = h.carveOrGrow other chunk align :=
      fun other => by rw [Heap.placeInSegment, waiting]
    have direct := sound.carve_isSome_iff tallied filled positive
    obtain ⟨unparked, returned, _, _, soundUnparked⟩ := sound.unpark
    have talliedUnparked : unparked.Tallied := by
      obtain ⟨segments, rfl, frames⟩ := unpark_eq returned
      exact tallied.obtains (obtains_nothing frames (List.nil_subset _))
    have later := soundUnparked.carve_isSome_iff talliedUnparked filled positive
    cases first : h.carve chunk align with
    | some found =>
      rw [first] at direct
      exact .inl ⟨.free (direct.1 rfl), found.1, found.2, carve_frames first, fun other => by
        rw [behind, carveOrGrow, first]⟩
    | none =>
      cases second : unparked.carve chunk align with
      | some found =>
        rw [second] at later
        exact .inl ⟨.merged returned (later.1 rfl), found.1, found.2,
          (carve_frames second).trans (unpark_frames returned), fun other => by
            simp only [behind, carveOrGrow, first, returned, second]⟩
      | none =>
        rw [first] at direct
        rw [second] at later
        refine .inr ⟨fun affords => ?_, unparked, returned, fun other => by
          simp only [behind, carveOrGrow, first, returned, second]⟩
        cases affords with
        | @parked c plain waits exact' =>
          rw [if_pos plain, Heap.takeParked, Option.map_eq_none_iff] at waiting
          have other := List.find?_eq_none.1 waiting c waits
          simp [exact'] at other
        | free room => exact nomatch direct.2 room
        | merged returned' room =>
          cases returned.symm.trans returned'
          exact nomatch later.2 room

/-- A segment that is granted serves the request. -/
theorem carveFresh_eq (h : Heap) (system : SystemHeap) (filled : 0 < chunk) (positive : 0 < align)
    (placed : needsRegion chunk align = false) :
    (system.takeSegment? = none ∧ h.carveFresh system chunk align = ⟨none, h, system⟩) ∨
      ∃ base below addr after, system.takeSegment? = some (base, below) ∧
        h.carveFresh system chunk align = ⟨some addr, after, below⟩ ∧
        Span.Within ⟨addr, chunk⟩ ⟨base, segmentBytes⟩ := by
  cases taken : system.takeSegment? with
  | none => exact .inl ⟨rfl, by simp only [Heap.carveFresh, taken]⟩
  | some found =>
    obtain ⟨base, below⟩ := found
    obtain ⟨addr, t, carved⟩ :=
      Segment.fresh_carve (SystemHeap.takeSegment?_low taken) positive placed
    obtain ⟨_, _, within, _⟩ := (Segment.fresh_sound base).carve filled carved
    refine .inr ⟨base, below, addr, (h.carveFresh system chunk align).heap, rfl, ?_, within⟩
    simp only [Heap.carveFresh, taken, carved]

theorem needsRegion_iff :
    needsRegion chunk align = true ↔ largeThreshold ≤ chunk ∨ maxSegmentAlign < align := by
  simp [needsRegion]

/-- Why no place is found for a block: there is no region of its own for it, or neither the memory
that the heap holds nor a new segment serves. -/
inductive Lacks (h : Heap) (system : SystemHeap) (chunk align : Nat) : Prop
  | region : largeThreshold ≤ chunk ∨ maxSegmentAlign < align →
    layoutFits chunk align = false ∨ system.take? chunk align false = none →
    Lacks h system chunk align
  | segment : ¬ (largeThreshold ≤ chunk ∨ maxSegmentAlign < align) → ¬ h.Affords chunk align →
    system.takeSegment? = none → Lacks h system chunk align

/-- The system heap is left alone as long as the memory that the heap holds serves, and a segment
that it grants does. Here `served` is the step on top of any system heap. -/
structure Spares (h : Heap) (system : SystemHeap) (chunk align : Nat)
    (served : SystemHeap → Except Fault (HeapStep (Option Address)))
    (step : HeapStep (Option Address)) : Prop where
  own : ¬ (largeThreshold ≤ chunk ∨ maxSegmentAlign < align) → h.Affords chunk align →
    ∀ other, served other = .ok { step with system := other }
  grown : h.segments.length < step.heap.segments.length → ¬ h.Affords chunk align ∧
    ∃ base addr, system.takeSegment? = some (base, step.system) ∧ step.answer = some addr ∧
      Span.Within ⟨addr, chunk⟩ ⟨base, segmentBytes⟩

/-- No segment is obtained where the old ones stay in place. -/
theorem not_grown {after : Heap} (frames : after.segments.map (·.frame) = h.segments.map (·.frame)) :
    ¬ h.segments.length < after.segments.length := by
  have lengths : after.segments.length = h.segments.length := by
    simpa using congrArg List.length frames
  omega

theorem place_region (own : largeThreshold ≤ chunk ∨ maxSegmentAlign < align) :
    ∃ step, h.place system chunk align = .ok step ∧
      (step.answer = none ↔ h.Lacks system chunk align) ∧
      h.Spares system chunk align (h.place · chunk align) step := by
  have spares : ∀ step : HeapStep (Option Address), step.heap.segments = h.segments →
      h.Spares system chunk align (h.place · chunk align) step := fun step same =>
    ⟨fun placed => absurd own placed, fun more => absurd more (not_grown (by rw [same]))⟩
  have kind := needsRegion_iff.2 own
  cases taken : (if layoutFits chunk align then
      system.take? chunk align false else none) with
  | none =>
    refine ⟨⟨none, h, system⟩, ?_, ⟨fun _ => .region own ?_, fun _ => rfl⟩, spares _ rfl⟩
    · simp only [place, kind, if_true, placeInRegion, taken]
    · split at taken
      · exact .inr taken
      · exact .inl (by simpa using ‹¬ layoutFits chunk align = true›)
  | some found =>
    obtain ⟨addr, below⟩ := found
    obtain ⟨after, served, same⟩ : ∃ after, h.place system chunk align =
        .ok ⟨some addr, after, below⟩ ∧ after.segments = h.segments :=
      ⟨_, by simp only [place, kind, if_true, placeInRegion, taken]; rfl, by rfl⟩
    refine ⟨_, served, ⟨(nomatch ·), fun lacks => ?_⟩, spares _ same⟩
    · cases lacks with
      | region _ refused =>
        rcases refused with unfit | refused
        · simp [unfit] at taken
        · simp [refused] at taken
      | segment placed => exact absurd own placed

theorem Sound.place_segment (sound : h.Sound system rest []) (tallied : h.Tallied)
    (filled : 0 < chunk) (positive : 0 < align)
    (small : ¬ (largeThreshold ≤ chunk ∨ maxSegmentAlign < align)) :
    ∃ step, h.place system chunk align = .ok step ∧
      (step.answer = none ↔ h.Lacks system chunk align) ∧
      h.Spares system chunk align (h.place · chunk align) step := by
  have kind : needsRegion chunk align = false := by
    rw [Bool.eq_false_iff]
    exact mt needsRegion_iff.1 small
  have served : h.Affords chunk align → ¬ h.Lacks system chunk align := by
    rintro affords (⟨own, _⟩ | ⟨_, short, _⟩)
    · exact small own
    · exact short affords
  rcases sound.placeInSegment_sources tallied filled positive with
    ⟨affords, addr, after, frames, placed⟩ | ⟨short, unparked, returned, placed⟩
  · refine ⟨⟨some addr, after.addLive ⟨addr, chunk, align, false⟩, system⟩, ?_,
      ⟨(nomatch ·), fun lacks => absurd lacks (served affords)⟩,
      fun _ _ other => ?_, fun more => absurd more (not_grown frames)⟩
    · simp only [Heap.place, kind, Bool.false_eq_true, if_false, placed]
    · simp only [Heap.place, kind, Bool.false_eq_true, if_false, placed]
  · rcases carveFresh_eq unparked system filled positive kind with
      ⟨refused, same⟩ | ⟨base, below, addr, after, taken, same, within⟩
    · refine ⟨⟨none, unparked, system⟩, ?_, ⟨fun _ => .segment small short refused, fun _ => rfl⟩,
        fun _ affords => absurd affords short,
        fun more => absurd more (not_grown (unpark_frames returned))⟩
      simp only [Heap.place, kind, Bool.false_eq_true, if_false, placed, same]
    · refine ⟨⟨some addr, after.addLive ⟨addr, chunk, align, false⟩, below⟩, ?_,
        ⟨(nomatch ·), fun lacks => ?_⟩, fun _ affords => absurd affords short,
        fun _ => ⟨short, base, addr, taken, rfl, within⟩⟩
      · simp only [Heap.place, kind, Bool.false_eq_true, if_false, placed, same]
      · rcases lacks with ⟨own, _⟩ | ⟨_, _, refused⟩
        · exact absurd own small
        · exact nomatch taken.symm.trans refused

theorem Sound.place_decides (sound : h.Sound system rest []) (tallied : h.Tallied)
    (filled : 0 < chunk) (positive : 0 < align) :
    ∃ step, h.place system chunk align = .ok step ∧
      (step.answer = none ↔ h.Lacks system chunk align) ∧
      h.Spares system chunk align (h.place · chunk align) step := by
  by_cases own : largeThreshold ≤ chunk ∨ maxSegmentAlign < align
  · exact place_region own
  · exact sound.place_segment tallied filled positive own

/-- Why a request is refused: its size cannot be counted, the budget does not allow it, or there is
no place for the block. -/
inductive Refuses (h : Heap) (system : SystemHeap) (size align : Nat) : Prop
  | uncountable : wordSize ≤ wholeSize size ∨ wordSize ≤ wholeSize size + blockOverhead →
    Refuses h system size align
  | overBudget : h.maxSize < h.footprint + wholeSize size + blockOverhead →
    Refuses h system size align
  | noPlace : h.Lacks system (wholeSize size) (max align granule) → Refuses h system size align

/-- A request is refused for these reasons only, and the system heap is spared where it can be. -/
theorem Sound.allocate_decides (sound : h.Sound system rest []) (tallied : h.Tallied)
    (budget : h.InBudget) (size align : Nat) :
    ∃ step, h.allocate system size align = .ok step ∧
      (step.answer = none ↔ h.Refuses system size align) ∧
      h.Spares system (wholeSize size) (max align granule) (h.allocate · size align) step := by
  have refusal : (∀ other, h.allocate other size align = .ok ⟨none, h, other⟩) →
      h.Refuses system size align → ∃ step, h.allocate system size align = .ok step ∧
        (step.answer = none ↔ h.Refuses system size align) ∧
        h.Spares system (wholeSize size) (max align granule) (h.allocate · size align) step :=
    fun answers refuses => ⟨_, answers system, ⟨fun _ => refuses, fun _ => rfl⟩,
      fun _ _ => answers, fun more => absurd more (not_grown rfl)⟩
  by_cases word : wholeSize size < wordSize
  · have rounded : chunkSize? size = some (wholeSize size) := (chunkSize?_eq size).trans (if_pos word)
    by_cases countable : wholeSize size + blockOverhead < wordSize
    · have cost : Word.add? (wholeSize size) blockOverhead = some (wholeSize size + blockOverhead) :=
        if_pos countable
      cases fits : h.fitsBudget (wholeSize size + blockOverhead) with
      | true =>
        have placed : ∀ other, h.allocate other size align =
            h.place other (wholeSize size) (max align granule) := fun other => by
          simp only [Heap.allocate, rounded, cost, fits, if_true]
        have positive : 0 < max align granule :=
          Nat.lt_of_lt_of_le (by decide) (Nat.le_max_right align granule)
        obtain ⟨step, served, lacks, spares⟩ :=
          sound.place_decides tallied (wholeSize_pos size) positive
        simp only [placed]
        refine ⟨step, served, lacks.trans ⟨.noPlace, fun refuses => ?_⟩, spares⟩
        have within := (sound.fitsBudget_iff budget _).1 fits
        rw [← sound.footprint_eq budget] at within
        cases refuses with
        | uncountable large => omega
        | overBudget excess => omega
        | noPlace lacks => exact lacks
      | false =>
        refine refusal (fun other => ?_) (.overBudget ?_)
        · simp only [Heap.allocate, rounded, cost, fits, Bool.false_eq_true, if_false]
        · have excess := mt (sound.fitsBudget_iff budget _).2 (by rw [fits]; decide)
          rw [← sound.footprint_eq budget] at excess
          omega
    · refine refusal (fun other => ?_) (.uncountable (.inr (Nat.le_of_not_lt countable)))
      simp only [Heap.allocate, rounded, Word.add?, if_neg countable]
  · refine refusal (fun other => ?_) (.uncountable (.inl (Nat.le_of_not_lt word)))
    have none' : chunkSize? size = none := (chunkSize?_eq size).trans (if_neg word)
    simp only [Heap.allocate, none']

end Heap

end PooledMemory
