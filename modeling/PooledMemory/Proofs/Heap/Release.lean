import PooledMemory.Proofs.Heap.Placement

namespace PooledMemory.Heap

variable {h : Heap} {system : SystemHeap} {rest : List SystemBlock} {hole : List Span}

theorem spent_addLive (b : LiveBlock) : (h.addLive b).spent = h.spent + (b.size + blockOverhead) := by
  show LiveBlock.bytes (b :: h.live) + (h.live.length + 1) * blockOverhead = _
  rw [LiveBlock.bytes_cons, Nat.add_mul, spent]
  omega

/-- A request is refused, or its block becomes live and was within the budget. -/
structure Grants (h : Heap) (rest : List SystemBlock) (hole : List Span) (size align : Nat)
    (step : HeapStep (Option Address)) : Prop where
  sound : step.heap.Sound step.system rest hole
  refused : step.answer = none → SameBooks h step.heap
  issued : ∀ addr, step.answer = some addr → ∃ chunk before, chunkSize? size = some chunk ∧
    h.fitsBudget (chunk + blockOverhead) = true ∧ SameBooks h before ∧
    step.heap = before.addLive ⟨addr, chunk, align, needsRegion chunk align⟩

theorem chunkSize?_pos {size chunk : Nat} (found : chunkSize? size = some chunk) : 0 < chunk := by
  obtain ⟨_, lower, _⟩ := chunkSize?_eq_some_iff.1 found
  omega

theorem Sound.allocate (sound : h.Sound system rest hole) (size align : Nat) :
    ∃ step, h.allocate system size align = .ok step ∧
      Grants h rest hole size (max align granule) step := by
  have refusal : Grants h rest hole size (max align granule) ⟨none, h, system⟩ :=
    ⟨sound, fun _ => .refl h, by simp⟩
  unfold Heap.allocate
  cases rounded : chunkSize? size with
  | none => exact ⟨_, rfl, refusal⟩
  | some chunk =>
    by_cases small : chunk + blockOverhead < wordSize
    · simp only [Word.add?, if_pos small]
      cases fits : h.fitsBudget (chunk + blockOverhead) with
      | false => exact ⟨_, rfl, refusal⟩
      | true =>
        obtain ⟨step, placed, after, refused, issued⟩ :=
          sound.place (chunkSize?_pos rounded) (Nat.le_max_right align granule)
        refine ⟨step, placed, after, refused, fun addr answer => ?_⟩
        obtain ⟨before, books, live⟩ := issued addr answer
        exact ⟨chunk, before, rounded, fits, books, live⟩
    · simp only [Word.add?, if_neg small]
      exact ⟨_, rfl, refusal⟩

/-- A block that is found for a request comes before all others, and it is large enough. -/
theorem Grants.granted {size align addr : Nat} {step : HeapStep (Option Address)}
    (grants : Grants h rest hole size align step) (answer : step.answer = some addr) :
    ∃ b : LiveBlock, b.addr = addr ∧ size ≤ b.size ∧ step.heap.live = b :: h.live ∧
      step.heap.maxSize = h.maxSize ∧ step.heap.peak = max h.peak step.heap.footprint := by
  obtain ⟨chunk, before, rounded, _, books, issued⟩ := grants.issued addr answer
  have fits : size ≤ chunk :=
    Nat.le_trans (Nat.le_max_left _ _) (chunkSize?_eq_some_iff.1 rounded).2.1
  refine ⟨⟨addr, chunk, align, needsRegion chunk align⟩, rfl, fits, ?_, ?_, ?_⟩
  · rw [issued, ← books.live]
    rfl
  · rw [issued, ← books.maxSize]
    rfl
  · rw [issued, ← books.peak]
    rfl

theorem Grants.inBudget {size align : Nat} {step : HeapStep (Option Address)}
    (sound : h.Sound system rest hole) (grants : Grants h rest hole size align step)
    (budget : h.InBudget) : step.heap.InBudget := by
  cases answer : step.answer with
  | none => exact (grants.refused answer).inBudget budget
  | some addr =>
    obtain ⟨chunk, before, _, fits, books, live⟩ := grants.issued addr answer
    have within := (sound.fitsBudget_iff budget _).1 fits
    have limit : step.heap.maxSize = h.maxSize := by
      rw [live]
      exact books.maxSize
    have before' : before.spent = h.spent := by
      rw [spent, books.live]
      rfl
    refine ⟨limit ▸ budget.limit, ?_⟩
    rw [limit, live, spent_addLive, before']
    exact within

theorem Sound.returnBlock {b : SystemBlock} (sound : h.Sound system (b :: rest) hole) :
    h.Sound (system.release b.addr) rest hole where
  toOrderly := sound.toOrderly
  below := sound.below.release b.addr
  held := sound.below.filter_perm (sound.held.trans List.perm_middle)

/-- Exactly the block at the address, if there is one, is live no more. -/
structure Frees (h : Heap) (rest : List SystemBlock) (hole : List Span) (addr : Address)
    (step : HeapStep (Option Nat)) : Prop where
  sound : step.heap.Sound step.system rest hole
  answer : step.answer = h.sizeOf? addr
  live : step.heap.live = h.live.filter (·.addr != addr)
  maxSize : step.heap.maxSize = h.maxSize

/-- A block whose release leaves nothing live was the only one. -/
theorem Frees.last {b : LiveBlock} {rest' : List SystemBlock} {hole' : List Span}
    {step : HeapStep (Option Nat)} (frees : Frees h rest' hole' b.addr step)
    (sound : h.Sound system rest hole) (found : h.block? b.addr = some b)
    (nothing : step.heap.live = []) : h.live = [b] := by
  have before := sound.live_perm found
  rw [← show step.heap.live = (h.removeLive b).live from frees.live, nothing] at before
  exact List.perm_singleton.1 before

theorem filter_of_block?_eq_none {addr : Address} (missing : h.block? addr = none) :
    h.live.filter (·.addr != addr) = h.live := by
  refine List.filter_eq_self.2 fun b member => ?_
  have other := List.find?_eq_none.1 missing b member
  simpa using other

theorem release_of_none {addr : Address} (missing : h.block? addr = none) :
    h.release system addr = .ok ⟨none, h, system⟩ := by
  unfold Heap.release
  rw [missing]

theorem Sound.release (sound : h.Sound system rest hole) (addr : Address) :
    ∃ step, h.release system addr = .ok step ∧ Frees h rest hole addr step := by
  cases found : h.block? addr with
  | none =>
    refine ⟨_, release_of_none found, sound, ?_, (filter_of_block?_eq_none found).symm, rfl⟩
    rw [sizeOf?, found]
    rfl
  | some b =>
    obtain ⟨_, here⟩ := block?_mem found
    have size : h.sizeOf? addr = some b.size := by
      rw [sizeOf?, found]
      rfl
    have live : (h.removeLive b).live = h.live.filter (·.addr != addr) := by
      rw [← here]
      rfl
    unfold Heap.release
    simp only [found]
    cases kind : b.dedicated with
    | true =>
      have returned := (sound.removeRegion found kind).returnBlock
      exact ⟨_, rfl, returned.congr rfl rfl (.refl _) rfl, size.symm, live, rfl⟩
    | false =>
      have left := (sound.removeLive found kind).withBytes
        (system.bytes.fill b.addr b.size poisonByte)
      by_cases small : b.align = granule ∧ b.size ≤ maxParkedSize
      · simp only [Bool.false_eq_true, if_false, if_pos small]
        exact ⟨_, rfl, Sound.park (c := ⟨b.addr, b.size⟩) left, size.symm, live, rfl⟩
      · obtain ⟨segments, returned, after⟩ := left.giveUp
        simp only [Bool.false_eq_true, if_false, if_neg small, returned]
        exact ⟨_, rfl, after, size.symm, live, rfl⟩

theorem Frees.inBudget {addr : Address} {step : HeapStep (Option Nat)}
    (frees : Frees h rest hole addr step) (budget : h.InBudget) : step.heap.InBudget where
  limit := frees.maxSize ▸ budget.limit
  within := by
    have fewer : step.heap.live.Sublist h.live := frees.live ▸ List.filter_sublist
    have bytes : LiveBlock.bytes step.heap.live ≤ LiveBlock.bytes h.live := LiveBlock.bytes_le fewer
    have count := Nat.mul_le_mul_right blockOverhead fewer.length_le
    have within := budget.within
    rw [frees.maxSize]
    rw [spent] at within ⊢
    omega

/-- The unused segments are blocks of the system heap apart from what else the heap holds. -/
theorem Sound.unused_perm (sound : h.Sound system rest hole) :
    system.blocks.Perm ((h.segments.filter (·.isUnused)).map (·.frame.segmentBlock) ++
      (({ h with segments := h.segments.filter (!·.isUnused) } : Heap).holdings ++ rest)) := by
  have perm : (h.segments.filter (·.isUnused) ++ h.segments.filter (!·.isUnused)).Perm h.segments :=
    List.filter_append_perm _ _
  have split := (perm.map (fun s => s.frame.segmentBlock)).symm
  rw [List.map_append] at split
  refine sound.held.trans ?_
  rw [holdings, holdings, List.map_map, List.map_map, ← List.append_assoc, ← List.append_assoc]
  exact (split.append_right _).append_right _

/-- Segments without a live block or a parked chunk go back to the system heap. -/
theorem Sound.trim (sound : h.Sound system rest hole) :
    ∃ step, h.trim system = .ok step ∧ SameBooks h step.heap ∧
      step.heap.Sound step.system rest hole := by
  obtain ⟨unparked, returned, _, books, soundUnparked⟩ := sound.unpark
  obtain ⟨below, held⟩ := soundUnparked.below.releaseEach soundUnparked.unused_perm
  rw [List.foldl_map] at below held
  unfold Heap.trim
  rw [returned]
  exact ⟨_, rfl, ⟨books.live, books.allocated, books.peak, books.maxSize⟩,
    ⟨soundUnparked.tiles.dropUnused, soundUnparked.aligned, soundUnparked.counted⟩, below, held⟩

theorem foldl_releaseRegion (h : Heap) (system : SystemHeap) (blocks : List LiveBlock) :
    ∃ regions regionBytes, blocks.foldl (fun (acc : Heap × SystemHeap) b =>
        acc.1.releaseRegion acc.2 b) (h, system) =
      ({ h with regions, regionBytes },
        (blocks.map (·.region)).foldl (fun system b => system.release b.addr) system) := by
  induction blocks generalizing h system with
  | nil => exact ⟨h.regions, h.regionBytes, rfl⟩
  | cons b others ih =>
    obtain ⟨regions, regionBytes, folded⟩ :=
      ih { h with
        regions := Word.sub h.regions 1
        regionBytes := Word.sub h.regionBytes b.size } (system.release b.addr)
    refine ⟨regions, regionBytes, ?_⟩
    rw [List.foldl_cons, releaseRegion, List.map_cons, List.foldl_cons]
    exact folded

theorem Sound.releaseAll (sound : h.Sound system rest hole) :
    (h.releaseAll system).1.Sound (h.releaseAll system).2 rest [] ∧
      (h.releaseAll system).1.live = [] ∧ (h.releaseAll system).1.segments = [] ∧
      (h.releaseAll system).1.parked = [] ∧ (h.releaseAll system).1.maxSize = h.maxSize := by
  obtain ⟨regions, regionBytes, folded⟩ :=
    foldl_releaseRegion h system (h.live.filter (·.dedicated))
  have order : system.blocks.Perm (LiveBlock.regions h.live ++
      ((h.segments.map (·.frame)).map (·.segmentBlock) ++ rest)) := by
    refine sound.held.trans ?_
    rw [holdings, ← List.append_assoc]
    exact List.Perm.append_right _ List.perm_append_comm
  obtain ⟨below, held⟩ := sound.below.releaseEach order
  obtain ⟨below', held'⟩ := below.releaseEach held
  rw [List.map_map, List.foldl_map] at below' held'
  unfold Heap.releaseAll
  rw [folded]
  exact ⟨⟨⟨tiles_nil, by simp, rfl⟩, below', held'⟩, rfl, rfl, rfl, rfl⟩

end PooledMemory.Heap
