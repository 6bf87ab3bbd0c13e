import PooledMemory.Proofs.Heap.Resize

namespace PooledMemory

namespace Bytes

variable {bytes : Bytes} {start source len x : Nat}

theorem write_of_not_has {content : Nat → UInt8} (outside : ¬ (⟨start, len⟩ : Span).has x = true) :
    bytes.write start len content x = bytes x := by
  rw [Span.has_iff] at outside
  exact if_neg outside

theorem fill_of_not_has {value : UInt8} (outside : ¬ (⟨start, len⟩ : Span).has x = true) :
    bytes.fill start len value x = bytes x :=
  write_of_not_has outside

theorem copy_of_not_has (outside : ¬ (⟨start, len⟩ : Span).has x = true) :
    bytes.copy source start len x = bytes x :=
  write_of_not_has outside

theorem copy_at {i : Nat} (inside : i < len) :
    bytes.copy source start len (start + i) = bytes (source + i) := by
  rw [copy, write_of_mem (by omega) (by omega), Nat.add_sub_cancel_left]

end Bytes

namespace Span

theorem has_add {s : Span} {i : Nat} (inside : i < s.size) : s.has (s.addr + i) = true :=
  has_iff.2 ⟨Nat.le_add_right _ _, Nat.add_lt_add_left inside _⟩

theorem Apart.not_has {s t : Span} (apart : s.Apart t) {x : Nat} (inside : s.has x = true) :
    ¬ t.has x = true := by
  unfold Apart at apart
  rw [has_iff] at inside ⊢
  omega

theorem has_wider {addr size wide x : Nat} (le : size ≤ wide)
    (inside : (⟨addr, size⟩ : Span).has x = true) : (⟨addr, wide⟩ : Span).has x = true :=
  has_iff.2 ⟨(has_iff.1 inside).1,
    Nat.lt_of_lt_of_le (has_iff.1 inside).2 (Nat.add_le_add_left le _)⟩

theorem Within.has {s t : Span} (within : s.Within t) {x : Nat} (inside : s.has x = true) :
    t.has x = true := by
  unfold Within at within
  rw [has_iff] at inside ⊢
  omega

end Span

namespace SystemHeap

/-- A block that is handed out contains the byte. -/
def Holds (s : SystemHeap) (x : Address) : Prop := ∃ b ∈ s.blocks, b.span.has x = true

/-- A block that is handed out contains the byte, if only as a spare one. -/
def Occupies (s : SystemHeap) (x : Address) : Prop := ∃ b ∈ s.blocks, (s.reach b).has x = true

variable {s after : SystemHeap} {size align addr moved x : Nat} {zeroed : Bool}

theorem Holds.occupies (held : s.Holds x) : s.Occupies x :=
  held.imp fun b inside => ⟨inside.1, (s.span_within_reach b).has inside.2⟩

theorem size_le_promised (s : SystemHeap) (b : SystemBlock) : b.size ≤ s.promised b := by
  unfold promised
  split
  · exact s.size_le_extent b.addr b.size
  · exact Nat.le_refl _

theorem promised_le_extent (s : SystemHeap) (b : SystemBlock) :
    s.promised b ≤ s.extent b.addr b.size := by
  unfold promised
  split
  · exact Nat.le_refl _
  · exact s.size_le_extent b.addr b.size

theorem delivered_of_not_has (outside : ¬ (⟨addr, s.extent addr size⟩ : Span).has x = true) :
    s.delivered addr size zeroed x = s.bytes x :=
  Bytes.write_of_not_has outside

/-- Memory that has just been handed out is as the heap delivers it, or zero if it is to be. -/
theorem delivered_of_has (inside : (⟨addr, size⟩ : Span).has x = true) :
    s.delivered addr size zeroed x = if zeroed then 0 else s.fresh x := by
  obtain ⟨lower, upper⟩ : addr ≤ x ∧ x < addr + size := Span.has_iff.1 inside
  have within : x < addr + s.extent addr size :=
    Nat.lt_of_lt_of_le upper (Nat.add_le_add_left (s.size_le_extent addr size) _)
  have asked : x - addr < size := by omega
  rw [delivered, Bytes.write_of_mem lower within, decide_eq_true asked, Bool.and_true,
    Nat.add_sub_cancel' lower]

theorem take_content (taken : s.take? size align zeroed = some (addr, after))
    (inside : (⟨addr, size⟩ : Span).has x = true) :
    after.bytes x = if zeroed then 0 else s.fresh x := by
  unfold take? at taken
  split at taken
  · cases taken
  · obtain ⟨found, _, same⟩ := Option.map_eq_some_iff.1 taken
    cases same
    exact delivered_of_has inside

theorem take_bytes (taken : s.take? size align zeroed = some (addr, after))
    (outside : ¬ (⟨addr, s.extent addr size⟩ : Span).has x = true) : after.bytes x = s.bytes x := by
  unfold take? at taken
  split at taken
  · cases taken
  · obtain ⟨found, _, same⟩ := Option.map_eq_some_iff.1 taken
    cases same
    exact delivered_of_not_has outside

theorem Sound.take_apart (sound : s.Sound) (taken : s.take? size align zeroed = some (addr, after))
    (occupied : s.Occupies x) : ¬ (⟨addr, s.extent addr size⟩ : Span).has x = true := by
  obtain ⟨b, member, inside⟩ := occupied
  unfold take? at taken
  split at taken
  · cases taken
  · obtain ⟨found, address, same⟩ := Option.map_eq_some_iff.1 taken
    cases same
    exact fun both => ((sound.address_place address).apart b member).not_has both inside

/-- Only fresh memory is filled when a block is handed out. -/
theorem Sound.take_held (sound : s.Sound) (taken : s.take? size align zeroed = some (addr, after))
    (occupied : s.Occupies x) : after.bytes x = s.bytes x :=
  take_bytes taken (sound.take_apart taken occupied)

theorem Sound.eq_of_addr (sound : s.Sound) {b c : SystemBlock} (first : b ∈ s.blocks)
    (second : c ∈ s.blocks) (same : b.addr = c.addr) : b = c :=
  List.inj_on_of_nodup_map sound.addr_nodup first second same

theorem Sound.block?_eq (sound : s.Sound) {b : SystemBlock} (member : b ∈ s.blocks) :
    s.block? b.addr = some b := by
  obtain ⟨c, found⟩ : ∃ c, s.block? b.addr = some c :=
    Option.isSome_iff_exists.1 (List.find?_isSome.2 ⟨b, member, by simp⟩)
  have same : c.addr = b.addr := by simpa using List.find?_some found
  have inBlocks := List.mem_of_find?_eq_some found
  rw [found, sound.eq_of_addr inBlocks member same]

/-- What was handed out before an exchange is not overwritten by it, except for the block itself. -/
theorem Sound.resize_held (sound : s.Sound)
    (resized : s.resize? addr size align = some (moved, after)) (held : s.Holds x)
    (outside : ∀ b ∈ s.blocks, b.addr = addr → ¬ b.span.has x = true) :
    after.bytes x = s.bytes x := by
  obtain ⟨b, member, inside⟩ := held
  unfold resize? at resized
  split at resized
  · cases resized
  · obtain ⟨place, found, same⟩ := Option.map_eq_some_iff.1 resized
    cases same
    have other : b ∈ s.blocks.filter (·.addr != addr) :=
      List.mem_filter.2 ⟨member, by simpa using fun here => outside b member here inside⟩
    have apart : ¬ (⟨moved, s.extent moved size⟩ : Span).has x = true := fun both =>
      ((sound.newPlace found).apart b other).not_has both ((s.span_within_reach b).has inside)
    have fits := Nat.le_trans (Nat.min_le_right (((s.block? addr).map s.promised).getD 0) size)
      (s.size_le_extent moved size)
    dsimp only
    exact (Bytes.write_of_not_has fun copied => apart (Span.has_wider fits copied)).trans
      (delivered_of_not_has apart)

/-- As much of the content as may be counted on and the new size allow is in the block that comes of an
exchange. -/
theorem Sound.resize_content (sound : s.Sound) {b : SystemBlock} (member : b ∈ s.blocks)
    (resized : s.resize? b.addr size align = some (moved, after)) {i : Nat}
    (inOld : i < s.promised b) (inNew : i < size) :
    after.bytes (moved + i) = s.bytes (b.addr + i) := by
  unfold resize? at resized
  split at resized
  · cases resized
  · obtain ⟨place, _, same⟩ := Option.map_eq_some_iff.1 resized
    cases same
    have kept : i < min (((s.block? b.addr).map s.promised).getD 0) size := by
      rw [sound.block?_eq member]
      exact Nat.lt_min.2 ⟨inOld, inNew⟩
    dsimp only
    rw [Bytes.write_of_mem (Nat.le_add_right moved i) (Nat.add_lt_add_left kept moved),
      Nat.add_sub_cancel_left]

theorem bytes_releaseEach {α : Type} (start : α → Address) (given : List α) (s : SystemHeap) :
    (given.foldl (fun system x => system.release (start x)) s).bytes = s.bytes := by
  induction given generalizing s with
  | nil => rfl
  | cons x rest ih => exact ih (s.release (start x))

end SystemHeap

namespace Heap

variable {h : Heap} {system : SystemHeap} {rest : List SystemBlock} {hole : List Span}

theorem carveFresh_held {chunk align : Nat} (below : system.Sound) {x : Address}
    (held : system.Occupies x) :
    (h.carveFresh system chunk align).system.bytes x = system.bytes x := by
  unfold Heap.carveFresh
  cases taken : system.takeSegment? with
  | none => rfl
  | some found =>
    obtain ⟨base, after⟩ := found
    have same := below.take_held taken held
    cases carved : (Segment.fresh base segmentBytes).carve chunk align with
    | none =>
      simp only [carved]
      exact same
    | some result =>
      simp only [carved]
      exact same

theorem placeInSegment_held {chunk align : Nat} {step : HeapStep (Option Address)}
    (below : system.Sound) (placed : h.placeInSegment system chunk align = .ok step) {x : Address}
    (held : system.Occupies x) : step.system.bytes x = system.bytes x := by
  unfold placeInSegment at placed
  split at placed
  · cases placed
    rfl
  · unfold carveOrGrow at placed
    split at placed
    · cases placed
      rfl
    · split at placed
      · cases placed
      · split at placed
        · cases placed
          rfl
        · cases placed
          exact carveFresh_held below held

theorem placeInRegion_held {chunk align : Nat} (below : system.Sound) {x : Address}
    (held : system.Occupies x) :
    (h.placeInRegion system chunk align).system.bytes x = system.bytes x := by
  unfold placeInRegion
  split
  · rfl
  · rename_i addr after taken
    split at taken
    · exact below.take_held taken held
    · cases taken

/-- Placing a block writes to no byte that is handed out, to this heap or to anyone else. -/
theorem place_held {chunk align : Nat} {step : HeapStep (Option Address)} (below : system.Sound)
    (placed : h.place system chunk align = .ok step) {x : Address} (held : system.Occupies x) :
    step.system.bytes x = system.bytes x := by
  have source : ∀ step', (if needsRegion chunk align then .ok (h.placeInRegion system chunk align)
      else h.placeInSegment system chunk align) = Except.ok step' →
      step'.system.bytes x = system.bytes x := by
    intro step' served
    split at served
    · cases served
      exact placeInRegion_held below held
    · exact placeInSegment_held below served held
  unfold Heap.place at placed
  simp only at placed
  split at placed
  · cases placed
  · rename_i step' served
    have same := source step' served
    split at placed
    · cases placed
      exact same
    · cases placed
      exact same

theorem allocate_held {size align : Nat} {step : HeapStep (Option Address)} (below : system.Sound)
    (allocated : h.allocate system size align = .ok step) {x : Address}
    (held : system.Occupies x) : step.system.bytes x = system.bytes x := by
  unfold Heap.allocate at allocated
  split at allocated
  · cases allocated
    rfl
  · rename_i chunk rounded
    split at allocated
    · cases allocated
      rfl
    · split at allocated
      · exact place_held below allocated held
      · cases allocated
        rfl

/-- Releasing a block writes to no other byte than its own. -/
theorem release_bytes {addr : Address} {b : LiveBlock} {step : HeapStep (Option Nat)}
    (found : h.block? addr = some b) (released : h.release system addr = .ok step) {x : Address}
    (outside : ¬ b.span.has x = true) : step.system.bytes x = system.bytes x := by
  unfold Heap.release at released
  simp only [found] at released
  split at released
  · cases released
    rfl
  · split at released
    · cases released
      exact Bytes.fill_of_not_has outside
    · split at released
      · cases released
      · cases released
        exact Bytes.fill_of_not_has outside

theorem trim_bytes {step : HeapStep Nat} (trimmed : h.trim system = .ok step) :
    step.system.bytes = system.bytes := by
  unfold Heap.trim at trimmed
  split at trimmed
  · cases trimmed
  · cases trimmed
    exact SystemHeap.bytes_releaseEach Segment.base _ _

theorem releaseAll_bytes (h : Heap) (system : SystemHeap) :
    (h.releaseAll system).2.bytes = system.bytes := by
  obtain ⟨regions, regionBytes, folded⟩ :=
    foldl_releaseRegion h system (h.live.filter (·.dedicated))
  unfold Heap.releaseAll
  rw [folded]
  exact (SystemHeap.bytes_releaseEach Segment.base _ _).trans
    (SystemHeap.bytes_releaseEach SystemBlock.addr _ _)

theorem Sound.holding_of_live (sound : h.Sound system rest hole) {b : LiveBlock}
    (member : b ∈ h.live) {x : Address} (inside : b.span.has x = true) :
    ∃ c ∈ h.holdings, c.span.has x = true := by
  obtain ⟨lower, upper⟩ := Span.has_iff.1 inside
  have hit : b.span.hits x = 1 := Span.hits_of_has lower upper
  have own := Span.hits_le_cover (List.mem_map_of_mem (f := (·.span)) member) x
  have below := sound.cover_le x
  have positive : 0 < Span.cover (h.holdings.map (·.span)) x := by omega
  obtain ⟨s, inHoldings, has⟩ := List.countP_pos_iff.1 positive
  obtain ⟨c, holding, rfl⟩ := List.mem_map.1 inHoldings
  exact ⟨c, holding, has⟩

theorem Sound.held_of_live (sound : h.Sound system rest hole) {b : LiveBlock} (member : b ∈ h.live)
    {x : Address} (inside : b.span.has x = true) : system.Holds x := by
  obtain ⟨c, holding, has⟩ := sound.holding_of_live member inside
  exact ⟨c, sound.held.mem_iff.2 (List.mem_append_left _ holding), has⟩

/-- What others hold, with the spare bytes, has no byte in common with the blocks of a heap. -/
theorem Sound.clear_of_others (sound : h.Sound system rest hole) {b : LiveBlock}
    (member : b ∈ h.live) {s : SystemBlock} (other : s ∈ rest) {x : Address}
    (has : (system.reach s).has x = true) : ¬ b.span.has x = true := by
  intro inside
  obtain ⟨c, holding, there⟩ := sound.holding_of_live member inside
  have separate : (h.holdings ++ rest).Pairwise fun b c => (system.reach b).Apart (system.reach c) :=
    (sound.held.pairwise_iff fun apart => apart.symm).1 sound.below.separate
  have apart := (List.pairwise_append.1 separate).2.2 c holding s other
  exact apart.not_has ((system.span_within_reach c).has there) has

/-- Resizing a block writes to nothing that is handed out but the block as it was and as it is, and
the common prefix of the two has the same content. -/
structure Carries (system : SystemHeap) (b : LiveBlock) (chunk : Nat)
    (step : HeapStep (Option Resized)) : Prop where
  refused : step.answer = none → ∀ x, system.Holds x → step.system.bytes x = system.bytes x
  outside : ∀ r, step.answer = some r → ∀ x, system.Holds x → ¬ b.span.has x = true →
    ¬ (⟨r.addr, chunk⟩ : Span).has x = true → step.system.bytes x = system.bytes x
  content : ∀ r, step.answer = some r → ∀ i, i < b.size → i < chunk →
    step.system.bytes (r.addr + i) = system.bytes (b.addr + i)

theorem Carries.ofSame {b : LiveBlock} {chunk : Nat} {step : HeapStep (Option Resized)}
    (same : step.system.bytes = system.bytes)
    (still : ∀ r, step.answer = some r → r.addr = b.addr) : Carries system b chunk step where
  refused := fun _ x _ => congrFun same x
  outside := fun _ _ x _ _ _ => congrFun same x
  content := fun r answer i _ _ => by rw [same, still r answer]

theorem Sound.region_mem (sound : h.Sound system rest hole) {b : LiveBlock} (member : b ∈ h.live)
    (own : b.dedicated = true) : b.region ∈ system.blocks := by
  have region : b.region ∈ LiveBlock.regions h.live :=
    List.mem_map_of_mem (List.mem_filter.2 ⟨member, own⟩)
  exact sound.held.mem_iff.2 (List.mem_append_left _ (List.mem_append_right _ region))

/-- Exchanging a region writes to nothing else that is handed out. -/
theorem Sound.exchanged_held {b : LiveBlock} {chunk align moved : Nat} {after : SystemHeap}
    (sound : h.Sound system rest hole) (member : b ∈ h.live) (own : b.dedicated = true)
    (resized : system.resize? b.addr chunk align = some (moved, after)) {x : Address}
    (held : system.Holds x) (outside : ¬ b.span.has x = true) : after.bytes x = system.bytes x := by
  refine sound.below.resize_held resized held fun c stored start => ?_
  obtain rfl := sound.below.eq_of_addr stored (sound.region_mem member own) start
  exact outside

theorem Sound.resizeRegion_carries {b : LiveBlock} {chunk : Nat} (sound : h.Sound system rest hole)
    (found : h.block? b.addr = some b) (own : b.dedicated = true) :
    Carries system b chunk (h.resizeRegion system b chunk) := by
  have member := (block?_mem found).1
  unfold Heap.resizeRegion
  split
  · exact .ofSame rfl (by simp)
  · rename_i addr after resized
    split at resized
    · refine ⟨by simp, fun _ _ x held outside _ => ?_, fun r answer i inOld inNew => ?_⟩
      · exact sound.exchanged_held member own resized held outside
      · cases answer
        have counted := Nat.lt_of_lt_of_le inOld (system.size_le_promised b.region)
        exact sound.below.resize_content (sound.region_mem member own) resized counted inNew
    · cases resized

theorem shrink_carries {b : LiveBlock} {chunk : Nat} {step : HeapStep (Option Resized)}
    (smaller : chunk < b.size) (shrunk : h.shrink system b chunk = .ok step) :
    Carries system b chunk step := by
  unfold Heap.shrink at shrunk
  simp only at shrunk
  split at shrunk
  · cases shrunk
  · cases shrunk
    refine ⟨by simp, fun r _ x _ outside _ => ?_, fun r answer i _ inNew => ?_⟩
    · refine Bytes.fill_of_not_has fun tail => outside ?_
      refine Span.Within.has ⟨Nat.le_add_right _ _, ?_⟩ tail
      simp only [Span.stop, LiveBlock.span]
      omega
    · cases answer
      refine Bytes.fill_of_not_has fun tail => ?_
      exact Nat.not_le.2 (Nat.add_lt_add_left inNew b.addr) (Span.has_iff.1 tail).1

theorem Sound.growElsewhere_carries {b : LiveBlock} {chunk : Nat} {step : HeapStep (Option Resized)}
    (sound : h.Sound system rest hole) (found : h.block? b.addr = some b) (filled : 0 < chunk)
    (grows : b.size ≤ chunk) (grown : h.growElsewhere system b chunk = .ok step) :
    Carries system b chunk step := by
  have member := (block?_mem found).1
  obtain ⟨place, placed, soundPlaced, _, issued⟩ := sound.place filled (sound.aligned b member)
  have held : ∀ x, system.Holds x → place.system.bytes x = system.bytes x :=
    fun x held => place_held sound.below placed held.occupies
  unfold Heap.growElsewhere at grown
  simp only [placed] at grown
  cases answer : place.answer with
  | none =>
    simp only [answer] at grown
    cases grown
    exact ⟨fun _ => held, by simp, by simp⟩
  | some addr =>
    obtain ⟨before, books, same⟩ := issued addr answer
    have live : place.heap.live =
        ⟨addr, chunk, b.align, needsRegion chunk b.align⟩ :: h.live := by
      rw [same, ← books.live]
      rfl
    have stillLive : b ∈ place.heap.live := by
      rw [live]
      exact List.mem_cons_of_mem _ member
    have apart : (⟨addr, chunk⟩ : Span).Apart b.span := by
      have all := soundPlaced.apart
      rw [live, List.map_cons] at all
      exact (List.pairwise_cons.1 all).1 _ (List.mem_map_of_mem member)
    have old := soundPlaced.block?_eq stillLive
    simp only [answer] at grown
    split at grown
    · cases grown
    · rename_i last released
      cases grown
      refine ⟨by simp, fun r resized x heldBefore outside outside' => ?_,
        fun r resized i inOld inNew => ?_⟩
      · cases resized
        refine (release_bytes old released outside).trans (Eq.trans ?_ (held x heldBefore))
        exact Bytes.copy_of_not_has fun copied => outside' (Span.has_wider grows copied)
      · cases resized
        have inside : (⟨addr, chunk⟩ : Span).has (addr + i) = true :=
          Span.has_add (s := ⟨addr, chunk⟩) inNew
        have source := sound.held_of_live member (Span.has_add (s := b.span) inOld)
        refine (release_bytes old released (apart.not_has inside)).trans ?_
        exact Eq.trans (Bytes.copy_at inOld) (held _ source)

theorem Sound.resize_carries {b : LiveBlock} {addr size chunk : Nat}
    {step : HeapStep (Option Resized)} (sound : h.Sound system rest hole)
    (found : h.block? addr = some b) (rounded : chunkSize? size = some chunk)
    (resized : h.resize system addr size = .ok step) : Carries system b chunk step := by
  obtain ⟨_, rfl⟩ := block?_mem found
  have filled := chunkSize?_pos rounded
  unfold Heap.resize at resized
  simp only [found, rounded] at resized
  split at resized
  · cases resized
    exact .ofSame rfl (by simp)
  split at resized
  · cases resized
    exact .ofSame rfl (by simp)
  split at resized
  · rename_i own
    cases resized
    exact sound.resizeRegion_carries found own
  split at resized
  · rename_i smaller
    exact shrink_carries smaller resized
  · rename_i larger
    split at resized
    · cases resized
      exact .ofSame rfl (by simp)
    · exact sound.growElsewhere_carries found filled (Nat.not_lt.1 larger) resized

/-- Where a block cannot be resized, nothing that is handed out is written to. -/
theorem Sound.resize_refused {b : LiveBlock} {addr size : Nat} {step : HeapStep (Option Resized)}
    (sound : h.Sound system rest hole) (found : h.block? addr = some b)
    (resized : h.resize system addr size = .ok step) (answer : step.answer = none) (x : Address)
    (held : system.Holds x) : step.system.bytes x = system.bytes x := by
  cases rounded : chunkSize? size with
  | none =>
    rw [resize_of_none (.inr rounded)] at resized
    cases resized
    rfl
  | some chunk => exact (sound.resize_carries found rounded resized).refused answer x held

end Heap

end PooledMemory
