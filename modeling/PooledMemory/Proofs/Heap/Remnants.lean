import PooledMemory.Proofs.Heap.Extent

namespace PooledMemory

namespace SystemHeap

/-- The system heap would hand out a segment with this byte. -/
def Delivers (s : SystemHeap) (x : Address) : Prop :=
  ∃ base after, s.takeSegment? = some (base, after) ∧ (⟨base, segmentBytes⟩ : Span).has x = true

theorem Sound.not_delivers {s : SystemHeap} {x : Address} (sound : s.Sound) (held : s.Holds x) :
    ¬ s.Delivers x := by
  rintro ⟨base, after, taken, has⟩
  exact sound.take_apart taken held.occupies (Span.has_wider (s.size_le_extent base _) has)

end SystemHeap

namespace Heap

def inBlock (h : Heap) (x : Address) : Bool := h.live.any (·.span.has x)

def inSegment (h : Heap) (x : Address) : Bool := (h.segments.map (·.frame)).any (·.has x)

/-- A byte of a segment that is in no block. It is free or parked. -/
structure Idle (h : Heap) (x : Address) : Prop where
  inSegment : h.inSegment x = true
  unused : h.inBlock x = false

/-- What there is in a segment before anybody writes to it. A new one has what it is delivered with. -/
def remains (h : Heap) (system : SystemHeap) (x : Address) : UInt8 :=
  if h.inSegment x then system.bytes x else system.fresh x

/-- An operation overwrites what goes out of use and nothing else, apart from what it fills in blocks
in use. -/
structure Cleans (h : Heap) (system : SystemHeap) (filled : Address → Prop) (after : Heap)
    (system' : SystemHeap) : Prop where
  outside : ∀ x, system.Holds x → h.inBlock x = false → after.inBlock x = false →
    system'.bytes x = system.bytes x
  untouched : ∀ x, after.inSegment x = true → (h.inBlock x = true → after.inBlock x = true) →
    ¬ filled x → system'.bytes x = h.remains system x
  scrubbed : ∀ x, h.inBlock x = true → after.Idle x → system'.bytes x = poisonByte
  obtained : ∀ x, h.inSegment x = false → after.inSegment x = true → system.Delivers x
  filled : ∀ x, filled x → after.inBlock x = true

variable {h after : Heap} {system system' : SystemHeap} {rest : List SystemBlock} {hole : List Span}
  {x : Address} {filled filled' : Address → Prop}

theorem inBlock_iff : h.inBlock x = true ↔ ∃ b ∈ h.live, b.span.has x = true := List.any_eq_true

theorem inBlock_eq_false_iff : h.inBlock x = false ↔ ∀ b ∈ h.live, ¬ b.span.has x = true :=
  List.any_eq_false

theorem inSegment_iff :
    h.inSegment x = true ↔ ∃ f ∈ h.segments.map (·.frame), f.has x = true := List.any_eq_true

theorem inBlock_of_perm {live : List LiveBlock} (perm : h.live.Perm live) :
    h.inBlock x = live.any (·.span.has x) := perm.any_eq

theorem inSegment_of_frames (frames : after.segments.map (·.frame) = h.segments.map (·.frame))
    (x : Address) : after.inSegment x = h.inSegment x := by
  rw [inSegment, frames, inSegment]

theorem Cleans.mono (cleans : h.Cleans system filled after system')
    (fewer : ∀ x, filled x → filled' x) (used : ∀ x, filled' x → after.inBlock x = true) :
    h.Cleans system filled' after system' where
  outside := cleans.outside
  untouched := fun x inside stays unfilled =>
    cleans.untouched x inside stays fun there => unfilled (fewer x there)
  scrubbed := cleans.scrubbed
  obtained := cleans.obtained
  filled := used

/-- An operation that writes nothing may give segments back and forget what was in them. -/
theorem Cleans.of_bytes (bytes : system'.bytes = system.bytes)
    (segments : ∀ x, after.inSegment x = true → h.inSegment x = true)
    (stays : ∀ x, after.inSegment x = true → h.inBlock x = true → after.inBlock x = true) :
    h.Cleans system (fun _ => False) after system' where
  outside := fun x _ _ _ => congrFun bytes x
  untouched := fun x inside _ _ => by rw [bytes, remains, segments x inside, if_pos rfl]
  scrubbed := fun x used idle =>
    nomatch idle.unused.symm.trans (stays x idle.inSegment used)
  obtained := fun x outside inside => nomatch outside.symm.trans (segments x inside)
  filled := nofun

theorem Cleans.refl (h : Heap) (system : SystemHeap) :
    h.Cleans system (fun _ => False) h system :=
  .of_bytes rfl (fun _ inside => inside) fun _ _ used => used

/-- Segments, regions and the memory of all others have no byte in common. -/
theorem Sound.holdings_le_one (sound : h.Sound system rest hole) (x : Address) :
    Span.cover (h.segments.map (·.frame)) x +
      Span.cover ((LiveBlock.regions h.live).map (·.span)) x +
      Span.cover (rest.map (·.span)) x ≤ 1 := by
  have all : Span.cover (system.blocks.map (·.span)) x ≤ 1 :=
    Span.cover_le_one (List.pairwise_map.2 sound.below.apart) x
  have frames : ((h.segments.map (·.frame)).map (·.segmentBlock)).map (·.span) =
      h.segments.map (·.frame) := by
    simp [Function.comp_def, Span.segmentBlock, SystemBlock.span]
  rwa [Span.cover_perm (sound.held.map (·.span)), List.map_append, Span.cover_append, holdings,
    List.map_append, Span.cover_append, frames] at all

theorem cover_of_inSegment (inside : h.inSegment x = true) :
    0 < Span.cover (h.segments.map (·.frame)) x :=
  List.countP_pos_iff.2 (inSegment_iff.1 inside)

theorem Sound.held_of_inSegment (sound : h.Sound system rest hole) (inside : h.inSegment x = true) :
    system.Holds x := by
  obtain ⟨f, member, has⟩ := inSegment_iff.1 inside
  have holding : f.segmentBlock ∈ h.holdings ++ rest :=
    List.mem_append_left _ (List.mem_append_left _ (List.mem_map_of_mem member))
  exact ⟨f.segmentBlock, sound.held.mem_iff.2 holding, has⟩

theorem Sound.holding_of_inBlock (sound : h.Sound system rest hole) (used : h.inBlock x = true) :
    ∃ s ∈ h.holdings, s.span.has x = true := by
  obtain ⟨b, member, has⟩ := inBlock_iff.1 used
  exact sound.holding_of_live member has

/-- A byte of a segment is in no region. -/
theorem Sound.not_dedicated (sound : h.Sound system rest hole) (inside : h.inSegment x = true)
    {b : LiveBlock} (member : b ∈ h.live) (has : b.span.has x = true) : b.dedicated = false := by
  by_contra own
  have region : b.region ∈ LiveBlock.regions h.live :=
    List.mem_map_of_mem (List.mem_filter.2 ⟨member, by simpa using own⟩)
  have here : 0 < Span.cover ((LiveBlock.regions h.live).map (·.span)) x :=
    Span.cover_pos (List.mem_map_of_mem region) has
  have there := cover_of_inSegment inside
  have once := sound.holdings_le_one x
  omega

/-- A byte that others hold is neither in a segment nor in a block. -/
theorem Sound.not_mine (sound : h.Sound system rest hole) {s : SystemBlock} (member : s ∈ rest)
    (has : s.span.has x = true) : h.inSegment x = false ∧ h.inBlock x = false := by
  have others : 0 < Span.cover (rest.map (·.span)) x :=
    Span.cover_pos (List.mem_map_of_mem member) has
  have once := sound.holdings_le_one x
  refine ⟨?_, inBlock_eq_false_iff.2 fun b inLive inside => ?_⟩
  · by_contra inside
    have here := cover_of_inSegment (by simpa using inside)
    omega
  · have own : 0 < Span.cover (h.live.map (·.span)) x :=
      Span.cover_pos (List.mem_map_of_mem inLive) inside
    have placed := sound.tiles.cover_le x
    rw [LiveBlock.cover_spans] at own
    rw [Span.cover_append, places, Span.cover_append] at placed
    omega

/-- Where a heap finds the place for a block: in its segments, in a new region, or in a segment that
the system heap hands out for it. -/
inductive Finds (h : Heap) (system : SystemHeap) (chunk : Nat) (after : Heap) :
    SystemHeap → Prop
  | here : after.segments.map (·.frame) = h.segments.map (·.frame) → Finds h system chunk after system
  | region {addr align : Nat} {system' : SystemHeap} :
    after.segments.map (·.frame) = h.segments.map (·.frame) →
    system.take? chunk align false = some (addr, system') →
    Finds h system chunk after system'
  | segment {base : Address} {system' : SystemHeap} :
    (after.segments.map (·.frame)).Perm (⟨base, segmentBytes⟩ :: h.segments.map (·.frame)) →
    system.takeSegment? = some (base, system') → Finds h system chunk after system'

variable {chunk align : Nat}

/-- Only where segments are matters. -/
theorem Finds.congr {h' after' : Heap} (finds : Finds h system chunk after system')
    (before : h.segments.map (·.frame) = h'.segments.map (·.frame))
    (behind : after'.segments = after.segments) : Finds h' system chunk after' system' := by
  cases finds with
  | here frames => exact .here (behind ▸ frames.trans before)
  | region frames taken => exact .region (behind ▸ frames.trans before) taken
  | segment frames taken => exact .segment (behind ▸ before ▸ frames) taken

theorem carveFresh_finds (h : Heap) (system : SystemHeap) (chunk align : Nat) :
    Finds h system chunk (h.carveFresh system chunk align).heap
      (h.carveFresh system chunk align).system := by
  have added : ∀ {base : Address} {t : Segment}, t.frame = ⟨base, segmentBytes⟩ →
      ((h.insertSegment t).segments.map (·.frame)).Perm
        (⟨base, segmentBytes⟩ :: h.segments.map (·.frame)) := by
    intro base t frame
    rw [← frame]
    exact (List.perm_insertIdx t h.segments (bisect_le (Nat.zero_le _))).map (·.frame)
  unfold carveFresh
  cases taken : system.takeSegment? with
  | none => exact .here rfl
  | some found =>
    obtain ⟨base, after⟩ := found
    cases carved : (Segment.fresh base segmentBytes).carve chunk align with
    | none =>
      simp only [carved]
      exact .segment (added rfl) taken
    | some result =>
      obtain ⟨_, _, same⟩ := Option.map_eq_some_iff.1 carved
      cases same
      simp only [carved]
      exact .segment (added rfl) taken

theorem placeInSegment_finds {step : HeapStep (Option Address)}
    (placed : h.placeInSegment system chunk align = .ok step) :
    Finds h system chunk step.heap step.system := by
  unfold placeInSegment at placed
  split at placed
  · rename_i taken
    cases placed
    split at taken
    · obtain ⟨c, _, same⟩ := Option.map_eq_some_iff.1 taken
      cases same
      exact .here rfl
    · cases taken
  · unfold carveOrGrow at placed
    split at placed
    · rename_i carved
      cases placed
      exact .here (carve_frames carved)
    · split at placed
      · cases placed
      · rename_i unparked
        have frames := unpark_frames unparked
        split at placed
        · rename_i carved
          cases placed
          exact .here ((carve_frames carved).trans frames)
        · cases placed
          exact (carveFresh_finds _ system chunk align).congr frames rfl

theorem placeInRegion_finds (h : Heap) (system : SystemHeap) (chunk align : Nat) :
    Finds h system chunk (h.placeInRegion system chunk align).heap
      (h.placeInRegion system chunk align).system := by
  unfold placeInRegion
  split
  · exact .here rfl
  · rename_i taken
    split at taken
    · exact .region rfl taken
    · cases taken

theorem place_finds {step : HeapStep (Option Address)}
    (placed : h.place system chunk align = .ok step) :
    Finds h system chunk step.heap step.system := by
  have source : ∀ step', (if needsRegion chunk align then .ok (h.placeInRegion system chunk align)
      else h.placeInSegment system chunk align) = Except.ok step' →
      Finds h system chunk step'.heap step'.system := by
    intro step' served
    split at served
    · cases served
      exact placeInRegion_finds h system chunk align
    · exact placeInSegment_finds served
  unfold Heap.place at placed
  simp only at placed
  split at placed
  · cases placed
  · rename_i step' served
    have finds := source step' served
    split at placed
    · cases placed
      exact finds
    · cases placed
      exact finds.congr rfl rfl

/-- Whatever place a heap finds for a block, it writes nothing there. -/
theorem Sound.cleans_of_finds (sound : h.Sound system rest hole)
    (finds : Finds h system chunk after system')
    (kept : ∀ x, h.inBlock x = true → after.inBlock x = true) :
    h.Cleans system (fun _ => False) after system' := by
  have held : ∀ x, system.Holds x → system'.bytes x = system.bytes x := by
    intro x held
    cases finds with
    | here _ => rfl
    | region _ taken => exact sound.below.take_held taken held.occupies
    | segment _ taken => exact sound.below.take_held taken held.occupies
  have obtained : ∀ x, h.inSegment x = false → after.inSegment x = true →
      system.Delivers x ∧ system'.bytes x = system.fresh x := by
    intro x outside inside
    have same : after.segments.map (·.frame) = h.segments.map (·.frame) → False := by
      intro frames
      rw [inSegment_of_frames frames, outside] at inside
      cases inside
    cases finds with
    | here frames => exact absurd frames same
    | region frames _ => exact absurd frames same
    | @segment base _ frames taken =>
      obtain ⟨f, member, has⟩ := inSegment_iff.1 inside
      rcases List.mem_cons.1 (frames.subset member) with rfl | old
      · exact ⟨⟨base, system', taken, has⟩, SystemHeap.take_content taken has⟩
      · rw [inSegment_iff.2 ⟨f, old, has⟩] at outside
        cases outside
  refine ⟨fun x inside _ _ => held x inside, fun x inside _ _ => ?_, fun x used idle => ?_,
    fun x outside inside => (obtained x outside inside).1, nofun⟩
  · unfold remains
    cases old : h.inSegment x with
    | true => exact held x (sound.held_of_inSegment old)
    | false => exact (obtained x old inside).2
  · cases (kept x used).symm.trans idle.unused

theorem inBlock_of_subset (subset : h.live ⊆ after.live) (used : h.inBlock x = true) :
    after.inBlock x = true := by
  obtain ⟨b, member, has⟩ := inBlock_iff.1 used
  exact inBlock_iff.2 ⟨b, subset member, has⟩

theorem Sound.allocate_cleans {size align : Nat} {step : HeapStep (Option Address)}
    (sound : h.Sound system rest hole) (allocated : h.allocate system size align = .ok step) :
    h.Cleans system (fun _ => False) step.heap step.system := by
  obtain ⟨step', allocated', grants⟩ := sound.allocate size align
  cases allocated.symm.trans allocated'
  have more : h.live ⊆ step.heap.live := by
    cases answer : step.answer with
    | none => exact (grants.refused answer).live ▸ List.Subset.refl _
    | some addr =>
      obtain ⟨b, _, _, live, _⟩ := grants.granted answer
      rw [live]
      exact List.subset_cons_self b h.live
  unfold Heap.allocate at allocated
  split at allocated
  · cases allocated
    exact .refl h system
  · rename_i chunk rounded
    split at allocated
    · cases allocated
      exact .refl h system
    · split at allocated
      · exact sound.cleans_of_finds (place_finds allocated)
          fun _ => inBlock_of_subset more
      · cases allocated
        exact .refl h system

theorem poison_of_has {addr length : Nat} (has : (⟨addr, length⟩ : Span).has x = true) :
    (poison system addr length).bytes x = poisonByte :=
  if_pos (Span.has_iff.1 has)

/-- A released block is overwritten if it lies in a segment. -/
theorem release_scrubs {addr : Address} {b : LiveBlock} {step : HeapStep (Option Nat)}
    (found : h.block? addr = some b) (placed : b.dedicated = false)
    (released : h.release system addr = .ok step) (has : b.span.has x = true) :
    step.system.bytes x = poisonByte := by
  rw [release_system found released, if_neg (by simp [placed])]
  exact poison_of_has has

/-- A byte of a block is in none of the others. -/
theorem Sound.not_in_others {b : LiveBlock} {others : List LiveBlock}
    (sound : h.Sound system rest hole) (perm : h.live.Perm (b :: others))
    (has : b.span.has x = true) : others.any (·.span.has x) = false := by
  refine List.any_eq_false.2 fun c member inside => ?_
  have once := sound.cover_le_one x
  have here : b.span.hits x = 1 := Span.hits_of_has (Span.has_iff.1 has).1 (Span.has_iff.1 has).2
  have there : 0 < Span.cover (others.map (·.span)) x :=
    Span.cover_pos (List.mem_map_of_mem member) inside
  rw [Span.cover_perm (perm.map (·.span)), List.map_cons, Span.cover_cons] at once
  omega

theorem Sound.removed_perm (sound : h.Sound system rest hole) {addr : Address} {b : LiveBlock}
    (found : h.block? addr = some b) {others : List LiveBlock}
    (left : others = h.live.filter (·.addr != addr)) : h.live.Perm (b :: others) := by
  obtain ⟨_, rfl⟩ := block?_mem found
  exact left ▸ sound.live_perm found

theorem Sound.release_cleans {addr : Address} {step : HeapStep (Option Nat)}
    (sound : h.Sound system rest hole) (released : h.release system addr = .ok step) :
    h.Cleans system (fun _ => False) step.heap step.system := by
  cases found : h.block? addr with
  | none =>
    rw [release_of_none found] at released
    cases released
    exact .refl h system
  | some b =>
    obtain ⟨step', released', frees⟩ := sound.release addr
    cases released.symm.trans released'
    have frames := inSegment_of_frames (release_frames released)
    have member := (block?_mem found).1
    have perm := sound.removed_perm found frees.live
    have before : ∀ x, h.inBlock x = (b.span.has x || step.heap.inBlock x) :=
      fun _ => inBlock_of_perm perm
    have kept : ∀ x, (h.inBlock x = true → step.heap.inBlock x = true) →
        step.system.bytes x = system.bytes x := by
      intro x stays
      refine release_bytes found released fun has => ?_
      have gone : step.heap.inBlock x = false := sound.not_in_others perm has
      exact nomatch gone.symm.trans (stays (inBlock_iff.2 ⟨b, member, has⟩))
    refine ⟨fun x _ unused _ => kept x (by simp [unused]), fun x inside stays _ => ?_,
      fun x used idle => ?_, fun x outside inside => ?_, nofun⟩
    · rw [remains, ← frames, inside]
      exact kept x stays
    · rw [before, idle.unused, Bool.or_false] at used
      have inside := (frames x).symm.trans idle.inSegment
      exact release_scrubs found (sound.not_dedicated inside member used) released used
    · cases (outside.symm.trans (frames x).symm).trans inside

/-- The part of a resized block that carries the content of the old one. -/
def carried (b : LiveBlock) (chunk : Nat) (answer : Option Resized) (x : Address) : Prop :=
  ∃ r, answer = some r ∧ (⟨r.addr, min b.size chunk⟩ : Span).has x = true

/-- A live block and the others make up what is in blocks. -/
theorem Sound.inBlock_eq {b : LiveBlock} (sound : h.Sound system rest hole)
    (found : h.block? b.addr = some b) (x : Address) :
    h.inBlock x = (b.span.has x || (h.removeLive b).inBlock x) :=
  inBlock_of_perm (sound.live_perm found)

theorem Settles.inBlock_eq {addr : Address} {b : LiveBlock} {r : Resized}
    {step : HeapStep (Option Resized)} (settles : Settles h rest hole addr chunk b step)
    (answer : step.answer = some r) (x : Address) :
    step.heap.inBlock x = ((⟨r.addr, chunk⟩ : Span).has x || (h.removeLive b).inBlock x) := by
  obtain ⟨new, start, size, _, _, left⟩ := settles.resized r answer
  have span : new.span = ⟨r.addr, chunk⟩ := by rw [LiveBlock.span, start, size]
  rw [← span]
  exact inBlock_of_perm left

/-- A block in a segment that is resized where it is. -/
theorem Sound.cleans_of_still {b : LiveBlock} {step : HeapStep (Option Resized)}
    (sound : h.Sound system rest hole) (found : h.block? b.addr = some b)
    (settles : Settles h rest hole b.addr chunk b step) (answer : step.answer = some ⟨b.addr, false⟩)
    (frames : step.heap.segments.map (·.frame) = h.segments.map (·.frame))
    (kept : ∀ x, (b.span.has x = true → (⟨b.addr, chunk⟩ : Span).has x = true) →
      step.system.bytes x = system.bytes x)
    (scrubbed : ∀ x, b.span.has x = true → ¬ (⟨b.addr, chunk⟩ : Span).has x = true →
      step.system.bytes x = poisonByte) :
    h.Cleans system (fun _ => False) step.heap step.system := by
  have behind := settles.inBlock_eq answer
  have stays : ∀ x, (h.inBlock x = true → step.heap.inBlock x = true) →
      step.system.bytes x = system.bytes x := by
    refine fun x stays => kept x fun has => ?_
    have others : (h.removeLive b).inBlock x = false :=
      sound.not_in_others (sound.live_perm found) has
    have used := stays (inBlock_iff.2 ⟨b, (block?_mem found).1, has⟩)
    rwa [behind, others, Bool.or_false] at used
  refine ⟨fun x _ unused _ => stays x (by simp [unused]), fun x inside still _ => ?_,
    fun x used idle => ?_, fun x out inside => ?_, fun _ there => there.elim⟩
  · rw [remains, ← inSegment_of_frames frames, inside]
    exact stays x still
  · have unused := idle.unused
    rw [behind, Bool.or_eq_false_iff] at unused
    rw [sound.inBlock_eq found, unused.2, Bool.or_false] at used
    exact scrubbed x used (by simp [unused.1])
  · rw [inSegment_of_frames frames, out] at inside
    cases inside

theorem setSize_segments (h : Heap) (addr size : Nat) :
    (h.setSize addr size).segments = h.segments := by
  unfold setSize
  split
  · rfl
  · rfl

theorem Sound.shrink_cleans {b : LiveBlock} {step : HeapStep (Option Resized)}
    (sound : h.Sound system rest hole) (found : h.block? b.addr = some b)
    (placed : b.dedicated = false) (filled : 0 < chunk) (smaller : chunk < b.size)
    (shrunk : h.shrink system b chunk = .ok step) :
    h.Cleans system (fun _ => False) step.heap step.system := by
  obtain ⟨step', shrunk', settles⟩ := sound.shrink found placed filled smaller
  cases shrunk.symm.trans shrunk'
  unfold Heap.shrink at shrunk
  simp only at shrunk
  split at shrunk
  · cases shrunk
  · rename_i returned
    cases shrunk
    have tail : ∀ x, (⟨b.addr + chunk, b.size - chunk⟩ : Span).has x = true ↔
        b.span.has x = true ∧ ¬ (⟨b.addr, chunk⟩ : Span).has x = true := by
      intro x
      simp only [Span.has_iff, LiveBlock.span, Span.stop]
      omega
    refine sound.cleans_of_still found settles rfl ?_ (fun x stays => ?_) fun x inside gone => ?_
    · exact (congrArg _ (setSize_segments ..)).trans (returnRange_frames returned)
    · refine Bytes.fill_of_not_has fun there => ?_
      obtain ⟨inside, gone⟩ := (tail x).1 there
      exact gone (stays inside)
    · exact poison_of_has ((tail x).2 ⟨inside, gone⟩)

theorem Sound.growInPlace_cleans {b : LiveBlock} (sound : h.Sound system rest hole)
    (found : h.block? b.addr = some b) (placed : b.dedicated = false) (grows : b.size ≤ chunk)
    (grown : h.growInPlace b chunk = some after) :
    h.Cleans system (fun _ => False) after system := by
  have settles := sound.growInPlace found placed grows grown
  refine sound.cleans_of_still found settles rfl ?_ (fun _ _ => rfl) fun x inside gone =>
    absurd (Span.has_wider grows inside) gone
  unfold Heap.growInPlace at grown
  split at grown
  · cases grown
  · split at grown
    · cases grown
    · rename_i inSegments
      obtain ⟨t, extended, rfl⟩ := Option.map_eq_some_iff.1 grown
      obtain ⟨_, _, rfl⟩ := Option.map_eq_some_iff.1 extended
      exact (congrArg _ (setSize_segments ..)).trans (Segment.frames_set inSegments rfl)

/-- A region that is exchanged for another one is nowhere near the segments. -/
theorem Sound.resizeRegion_cleans {b : LiveBlock} (sound : h.Sound system rest hole)
    (found : h.block? b.addr = some b) (own : b.dedicated = true) :
    h.Cleans system (fun _ => False) (h.resizeRegion system b chunk).heap
      (h.resizeRegion system b chunk).system := by
  have member := (block?_mem found).1
  unfold Heap.resizeRegion
  split
  · exact .refl h system
  · rename_i addr after resized
    split at resized
    · have held : ∀ x, system.Holds x → ¬ b.span.has x = true → after.bytes x = system.bytes x :=
        fun x => sound.exchanged_held member own resized
      refine ⟨fun x inside unused _ => held x inside (inBlock_eq_false_iff.1 unused b member),
        fun x inside _ _ => ?_, fun x used idle => ?_, fun x outside inside => ?_, nofun⟩
      · have old : h.inSegment x = true := inside
        rw [remains, old]
        refine held x (sound.held_of_inSegment old) fun has => ?_
        exact nomatch own.symm.trans (sound.not_dedicated old member has)
      · have others : (h.removeLive b).inBlock x = false :=
          inBlock_eq_false_iff.2 fun c stays =>
            inBlock_eq_false_iff.1 idle.unused c (List.mem_cons_of_mem _ stays)
        rw [sound.inBlock_eq found, others, Bool.or_false] at used
        exact nomatch own.symm.trans (sound.not_dedicated idle.inSegment member used)
      · cases outside.symm.trans inside
    · cases resized

/-- A block that has got a second place leaves no byte of its first one in use. -/
theorem Sound.vacated {middle : Heap} {others : List SystemBlock} {hole' : List Span}
    {b new : LiveBlock} (sound : h.Sound system rest hole) (found : h.block? b.addr = some b)
    (placed : middle.Sound system' others hole') (live : middle.live = new :: h.live)
    (behind : after.inBlock x = (new.span.has x || (h.removeLive b).inBlock x))
    (has : b.span.has x = true) : after.inBlock x = false := by
  have left : (h.removeLive b).inBlock x = false := sound.not_in_others (sound.live_perm found) has
  have used : h.inBlock x = true := inBlock_iff.2 ⟨b, (block?_mem found).1, has⟩
  have apart : new.span.has x = false := by
    by_contra there
    have unused : h.inBlock x = false := placed.not_in_others (.of_eq live) (by simpa using there)
    exact Bool.false_ne_true (unused.symm.trans used)
  rw [behind, apart, left, Bool.or_false]

/-- The content of a block is copied to its second place, and the first one is overwritten. -/
theorem Sound.moved_cleans {middle : Heap} {others : List SystemBlock} {hole' : List Span}
    {b new : LiveBlock} {last : HeapStep (Option Nat)} (sound : h.Sound system rest hole)
    (found : h.block? b.addr = some b) (own : b.dedicated = false)
    (placed : middle.Sound system' others hole') (live : middle.live = new :: h.live)
    (cleans : h.Cleans system (fun _ => False) middle system')
    (released : middle.release
      { system' with bytes := system'.bytes.copy b.addr new.addr b.size } b.addr = .ok last)
    (behind : ∀ x, last.heap.inBlock x = (new.span.has x || (h.removeLive b).inBlock x))
    (fits : b.size ≤ new.size)
    (outside : ∀ x, system.Holds x → ¬ b.span.has x = true → ¬ new.span.has x = true →
      last.system.bytes x = system.bytes x) :
    h.Cleans system ((⟨new.addr, b.size⟩ : Span).has · = true) last.heap last.system := by
  have member := (block?_mem found).1
  have more : h.live ⊆ middle.live := live ▸ List.subset_cons_self _ _
  have old := placed.block?_eq (more member)
  have frames := inSegment_of_frames (release_frames released)
  have apart : ∀ x, (h.inBlock x = true → last.heap.inBlock x = true) →
      ¬ b.span.has x = true := by
    intro x stays has
    have gone := sound.vacated found placed live (behind x) has
    exact Bool.false_ne_true (gone.symm.trans (stays (inBlock_iff.2 ⟨b, member, has⟩)))
  refine ⟨fun x held unused unused' => ?_, fun x inside stays uncopied => ?_,
    fun x used idle => ?_, fun x before inside => ?_, fun x has => ?_⟩
  · rw [behind, Bool.or_eq_false_iff] at unused'
    exact outside x held (apart x (by simp [unused])) (by simp [unused'.1])
  · have kept := cleans.untouched x ((frames x).symm.trans inside)
      (fun used => inBlock_of_subset more used) not_false
    exact ((release_bytes old released (apart x stays)).trans
      (Bytes.copy_of_not_has uncopied)).trans kept
  · have unused := idle.unused
    rw [behind, Bool.or_eq_false_iff] at unused
    rw [sound.inBlock_eq found, unused.2, Bool.or_false] at used
    exact release_scrubs old own released used
  · exact cleans.obtained x before ((frames x).symm.trans inside)
  · have within : new.span.has x = true := Span.has_wider fits has
    rw [behind, within, Bool.true_or]

/-- A block that grows elsewhere finds its new place as it is. -/
theorem Sound.growElsewhere_cleans {b : LiveBlock} {step : HeapStep (Option Resized)}
    (sound : h.Sound system rest hole) (found : h.block? b.addr = some b)
    (placed : b.dedicated = false) (filled : 0 < chunk) (grows : b.size ≤ chunk)
    (grown : h.growElsewhere system b chunk = .ok step) :
    h.Cleans system (carried b chunk step.answer) step.heap step.system := by
  have carries := sound.growElsewhere_carries found filled grows grown
  obtain ⟨step', grown', settles⟩ := sound.growElsewhere found filled
  cases grown.symm.trans grown'
  obtain ⟨place, placed', soundPlaced, refused, issued⟩ :=
    sound.place filled (sound.aligned b (block?_mem found).1)
  have cleans := sound.cleans_of_finds (place_finds placed')
  unfold Heap.growElsewhere at grown
  simp only [placed'] at grown
  cases answer : place.answer with
  | none =>
    simp only [answer] at grown
    cases grown
    have same := (refused answer).live
    refine (cleans fun x used => ?_).mono (fun _ there => there.elim) ?_
    · exact inBlock_of_subset (same ▸ List.Subset.refl _) used
    · rintro x ⟨r, ⟨⟩, _⟩
  | some addr =>
    obtain ⟨before, books, same⟩ := issued addr answer
    let new : LiveBlock := ⟨addr, chunk, b.align, needsRegion chunk b.align⟩
    have live : place.heap.live = new :: h.live := by
      rw [same, ← books.live]
      rfl
    have cleans := cleans fun _ => inBlock_of_subset (live ▸ List.subset_cons_self _ _)
    simp only [answer] at grown
    split at grown
    · cases grown
    · rename_i last released
      cases grown
      have moved := sound.moved_cleans found placed soundPlaced live cleans released
        (settles.inBlock_eq (r := ⟨addr, true⟩) rfl) grows (carries.outside ⟨addr, true⟩ rfl)
      refine moved.mono (fun x has => ⟨_, rfl, ?_⟩) ?_
      · rwa [Nat.min_eq_left grows]
      · rintro x ⟨r, ⟨⟩, has⟩
        rw [Nat.min_eq_left grows] at has
        exact moved.filled x has

/-- Resizing a block overwrites what it gives up and writes to nothing that it gains but the content
of the old block. -/
theorem Sound.resize_cleans {b : LiveBlock} {addr size : Nat} {step : HeapStep (Option Resized)}
    (sound : h.Sound system rest hole) (found : h.block? addr = some b)
    (rounded : chunkSize? size = some chunk) (resized : h.resize system addr size = .ok step) :
    h.Cleans system (carried b chunk step.answer) step.heap step.system := by
  obtain ⟨_, rfl⟩ := block?_mem found
  have filled := chunkSize?_pos rounded
  obtain ⟨step', resized', settles, _⟩ := sound.resize found rounded
  cases resized.symm.trans resized'
  have used : ∀ x, carried b chunk step.answer x → step.heap.inBlock x = true := by
    rintro x ⟨r, answer, has⟩
    rw [settles.inBlock_eq answer, Span.has_wider (Nat.min_le_right ..) has, Bool.true_or]
  have nothing : h.Cleans system (fun _ => False) step.heap step.system →
      h.Cleans system (carried b chunk step.answer) step.heap step.system :=
    fun cleans => cleans.mono (fun _ there => there.elim) used
  unfold Heap.resize at resized
  simp only [found, rounded] at resized
  split at resized
  · cases resized
    exact nothing (.refl h system)
  split at resized
  · cases resized
    exact nothing (.refl h system)
  split at resized
  · rename_i own
    cases resized
    exact nothing (sound.resizeRegion_cleans found own)
  rename_i placed
  have placed : b.dedicated = false := by simpa using placed
  split at resized
  · rename_i smaller
    exact nothing (sound.shrink_cleans found placed filled smaller resized)
  · rename_i larger
    split at resized
    · rename_i grown
      cases resized
      exact nothing (sound.growInPlace_cleans found placed (Nat.not_lt.1 larger) grown)
    · exact sound.growElsewhere_cleans found placed filled (Nat.not_lt.1 larger) resized

theorem Sound.trim_cleans {step : HeapStep Nat} (sound : h.Sound system rest hole)
    (trimmed : h.trim system = .ok step) :
    h.Cleans system (fun _ => False) step.heap step.system ∧
      (∀ x, step.heap.inSegment x = true → h.inSegment x = true) ∧ step.heap.live = h.live := by
  obtain ⟨step', trimmed', books, _⟩ := sound.trim
  cases trimmed.symm.trans trimmed'
  have segments : ∀ x, step.heap.inSegment x = true → h.inSegment x = true := by
    intro x inside
    obtain ⟨unparked, returned, _⟩ := sound.unpark
    have frames := inSegment_of_frames (unpark_frames returned) x
    unfold Heap.trim at trimmed
    simp only [returned] at trimmed
    cases trimmed
    obtain ⟨f, member, has⟩ := inSegment_iff.1 inside
    rw [← frames]
    exact inSegment_iff.2 ⟨f, List.map_subset _ (List.filter_subset_self _) member, has⟩
  refine ⟨.of_bytes (trim_bytes trimmed) segments fun x _ used => ?_, segments, books.live⟩
  rwa [inBlock, books.live]

theorem Sound.releaseAll_cleans (sound : h.Sound system rest hole) :
    h.Cleans system (fun _ => False) (h.releaseAll system).1 (h.releaseAll system).2 := by
  obtain ⟨_, _, segments, _⟩ := sound.releaseAll
  have nothing : ∀ x, ¬ (h.releaseAll system).1.inSegment x = true := fun x inside => by
    rw [inSegment, segments] at inside
    cases inside
  exact .of_bytes (releaseAll_bytes h system) (fun x inside => absurd inside (nothing x))
    fun x inside => absurd inside (nothing x)

end Heap

end PooledMemory
