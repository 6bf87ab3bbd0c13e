import PooledMemory.Proofs.Heap.Resize

namespace PooledMemory.Heap

variable {h : Heap} {system : SystemHeap} {rest : List SystemBlock} {hole : List Span}

/-- The footprint is what the live blocks cost, as far as a word can count it. -/
theorem Sound.footprint_mod (sound : h.Sound system rest hole) :
    h.footprint = h.spent % wordSize := by
  rw [footprint, sound.counted, Word.add, Word.mul, ← Nat.add_mod, spent]

theorem returnRange_books {after : Heap} {addr length : Nat}
    (returned : h.returnRange addr length = .ok after) : SameBooks h after := by
  unfold returnRange at returned
  split at returned
  · cases returned
  · split at returned
    · cases returned
    · split at returned
      · cases returned
        exact ⟨rfl, rfl, rfl, rfl⟩
      · cases returned

theorem release_peak {addr : Address} {step : HeapStep (Option Nat)}
    (released : h.release system addr = .ok step) : step.heap.peak = h.peak := by
  unfold Heap.release at released
  split at released
  · cases released
    rfl
  · simp only at released
    split at released
    · cases released
      rfl
    · split at released
      · cases released
        rfl
      · split at released
        · cases released
        · rename_i returned
          cases released
          exact (returnRange_books returned).peak

theorem releaseAll_peak (h : Heap) (system : SystemHeap) :
    (h.releaseAll system).1.peak = h.peak := by
  obtain ⟨regions, regionBytes, folded⟩ :=
    foldl_releaseRegion h system (h.live.filter (·.dedicated))
  unfold Heap.releaseAll
  rw [folded]

theorem setSize_peak (h : Heap) (addr : Address) (size : Nat) :
    (h.setSize addr size).peak = max h.peak (h.setSize addr size).footprint := by
  unfold setSize
  split
  · rfl
  · rfl

/-- How the peak follows a block that is resized. -/
inductive Paces (h : Heap) (b : LiveBlock) (chunk : Nat) (r : Resized) (after : Heap) : Prop
  | unchanged : after = h → r.addr = b.addr → Paces h b chunk r after
  /-- The old size no longer counts when the peak is taken. -/
  | settled : after.peak = max h.peak after.footprint → r.addr = b.addr ∨ b.dedicated = true →
    Paces h b chunk r after
  /-- The block leaves its place in a segment, and the peak is taken while both places count. -/
  | doubled : after.peak = max h.peak ((h.spent + (chunk + blockOverhead)) % wordSize) →
    b.dedicated = false → r.addr ≠ b.addr → Paces h b chunk r after

variable {b : LiveBlock} {chunk : Nat} {r : Resized} {step : HeapStep (Option Resized)}

theorem resizeRegion_paces (own : b.dedicated = true)
    (answer : (h.resizeRegion system b chunk).answer = some r) :
    Paces h b chunk r (h.resizeRegion system b chunk).heap := by
  unfold resizeRegion at answer ⊢
  split at answer
  · cases answer
  · exact .settled rfl (.inr own)

theorem shrink_paces (shrunk : h.shrink system b chunk = .ok step) (answer : step.answer = some r) :
    Paces h b chunk r step.heap := by
  unfold shrink at shrunk
  simp only at shrunk
  split at shrunk
  · cases shrunk
  · rename_i returned
    cases shrunk
    cases answer
    refine .settled ?_ (.inl rfl)
    rw [← (returnRange_books returned).peak]
    exact setSize_peak _ _ _

theorem growInPlace_peak {after : Heap} (grown : h.growInPlace b chunk = some after) :
    after.peak = max h.peak after.footprint := by
  unfold growInPlace at grown
  split at grown
  · cases grown
  · split at grown
    · cases grown
    · obtain ⟨t, _, rfl⟩ := Option.map_eq_some_iff.1 grown
      exact setSize_peak _ _ _

theorem Sound.growElsewhere_paces (sound : h.Sound system rest hole)
    (found : h.block? b.addr = some b) (placedBefore : b.dedicated = false) (filled : 0 < chunk)
    (grown : h.growElsewhere system b chunk = .ok step) (answer : step.answer = some r) :
    Paces h b chunk r step.heap := by
  have member := (block?_mem found).1
  obtain ⟨place, placed, soundPlaced, _, issued⟩ := sound.place filled (sound.aligned b member)
  unfold Heap.growElsewhere at grown
  simp only [placed] at grown
  split at grown
  · cases grown
    cases answer
  · rename_i addr given
    obtain ⟨before, books, same⟩ := issued addr given
    split at grown
    · cases grown
    · rename_i last released
      cases grown
      cases answer
      have spent : place.heap.spent = h.spent + (chunk + blockOverhead) := by
        rw [same, spent_addLive, Heap.spent, books.live, Heap.spent]
      have peak : place.heap.peak = max h.peak place.heap.footprint := by
        rw [same, ← books.peak]
        rfl
      refine .doubled ?_ placedBefore fun here => ?_
      · rw [release_peak released, peak, soundPlaced.footprint_mod, spent]
      · have unique := soundPlaced.addr_nodup
        have live : place.heap.live =
            ⟨addr, chunk, b.align, needsRegion chunk b.align⟩ :: h.live := by
          rw [same, ← books.live]
          rfl
        rw [live] at unique
        exact (List.nodup_cons.1 unique).1 (List.mem_map.2 ⟨b, member, here.symm⟩)

theorem Sound.resize_paces {addr size : Nat} (sound : h.Sound system rest hole)
    (found : h.block? addr = some b) (rounded : chunkSize? size = some chunk)
    (resized : h.resize system addr size = .ok step) (answer : step.answer = some r) :
    Paces h b chunk r step.heap := by
  obtain ⟨_, rfl⟩ := block?_mem found
  unfold Heap.resize at resized
  simp only [found, rounded] at resized
  split at resized
  · cases resized
    cases answer
    exact .unchanged rfl rfl
  split at resized
  · cases resized
    cases answer
  split at resized
  · rename_i own
    cases resized
    exact resizeRegion_paces own answer
  rename_i placed
  split at resized
  · exact shrink_paces resized answer
  · split at resized
    · rename_i grown
      cases resized
      cases answer
      exact .settled (growInPlace_peak grown) (.inl rfl)
    · exact sound.growElsewhere_paces found (by simpa using placed) (chunkSize?_pos rounded) resized
        answer

end PooledMemory.Heap
