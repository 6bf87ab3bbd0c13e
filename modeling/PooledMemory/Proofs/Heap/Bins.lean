import PooledMemory.Proofs.Heap.Order

namespace PooledMemory

namespace ParkedChunk

/-- What a request takes from the parked chunks: nothing, the chunk of its size that was parked last,
or all of them, which are moved back. -/
inductive Draws (old : List ParkedChunk) : List ParkedChunk → Prop
  | nothing : Draws old old
  | last {size : Nat} {c : ParkedChunk} : old.find? (·.size == size) = some c →
    Draws old (old.erase c)
  | all : Draws old []

/-- What a release adds to the parked chunks: nothing, or a chunk that is not among them. -/
inductive Parks (old : List ParkedChunk) : List ParkedChunk → Prop
  | nothing : Parks old old
  | chunk {c : ParkedChunk} : c ∉ old → Parks old (c :: old)

/-- Of the chunks of one size, those in front have been parked for a shorter time. -/
def Stacked (age : ParkedChunk → Nat) (chunks : List ParkedChunk) : Prop :=
  chunks.Pairwise fun c d => c.size = d.size → age c < age d

variable {age later : ParkedChunk → Nat} {old left new : List ParkedChunk} {c : ParkedChunk}
  {size : Nat}

theorem Draws.sublist (draws : Draws old left) : left.Sublist old := by
  cases draws with
  | nothing => exact .refl _
  | last _ => exact List.erase_sublist
  | all => exact List.nil_sublist _

/-- The chunk that a request takes is the youngest of its size. -/
theorem Stacked.age_lt (stacked : Stacked age old) (found : old.find? (·.size == size) = some c) :
    ∀ d ∈ old.erase c, d.size = size → age c < age d := by
  obtain ⟨exact', front, behind, rfl, others⟩ := List.find?_eq_some_iff_append.1 found
  have same : c.size = size := by simpa using exact'
  have absent : c ∉ front := fun member => by simpa [same] using others c member
  rw [List.erase_append_right _ absent, List.erase_cons_head]
  intro d member size'
  rcases List.mem_append.1 member with inFront | inBehind
  · simpa [size'] using others d inFront
  · obtain ⟨_, tail, _⟩ := List.pairwise_append.1 stacked
    exact (List.pairwise_cons.1 tail).1 d inBehind (same.trans size'.symm)

/-- The chunks of one size stay stacked while all of them grow older and new ones are put on top. -/
theorem Stacked.turn (stacked : Stacked age old) (draws : Draws old left) (parks : Parks left new)
    (grow : ∀ c ∈ old, later c = age c + 1) (fresh : ∀ c, c ∉ old → later c = 0) :
    Stacked later new := by
  have inOld := draws.sublist.subset
  have rest : Stacked later left := by
    refine (stacked.sublist draws.sublist).imp_of_mem fun {c d} first second young size => ?_
    rw [grow c (inOld first), grow d (inOld second)]
    exact Nat.succ_lt_succ (young size)
  cases parks with
  | nothing => exact rest
  | @chunk c absent =>
    refine List.pairwise_cons.2 ⟨fun d member size => ?_, rest⟩
    rw [grow d (inOld member)]
    by_cases again : c ∈ old
    · rw [grow c again]
      -- a chunk that is put back was taken before, so that it was the youngest
      cases draws with
      | nothing => exact absurd again absent
      | @last size' e found =>
        obtain rfl : c = e := by
          by_contra other
          exact absent ((List.mem_erase_of_ne other).2 again)
        have same : c.size = size' := by simpa using List.find?_some found
        exact Nat.succ_lt_succ (stacked.age_lt found d member (size.symm.trans same))
      | all => cases member
    · rw [fresh c again]
      exact Nat.succ_pos _

end ParkedChunk

namespace Heap

open ParkedChunk (Draws Parks)

variable {h after : Heap} {system : SystemHeap} {rest : List SystemBlock} {b : LiveBlock}
  {addr : Address} {chunk align size : Nat}

theorem carve_parked (carved : h.carve chunk align = some (addr, after)) :
    after.parked = h.parked := by
  obtain ⟨_, _, same⟩ := Option.map_eq_some_iff.1 carved
  cases same
  rfl

theorem carveFresh_parked (h : Heap) (system : SystemHeap) (chunk align : Nat) :
    (h.carveFresh system chunk align).heap.parked = h.parked := by
  unfold Heap.carveFresh
  split
  · rfl
  · dsimp only
    split <;> rfl

theorem unpark_parked (unparked : h.unpark = .ok after) : after.parked = [] := by
  obtain ⟨_, rfl, _⟩ := unpark_eq unparked
  rfl

theorem placeInSegment_draws {step : HeapStep (Option Address)}
    (placed : h.placeInSegment system chunk align = .ok step) : Draws h.parked step.heap.parked := by
  unfold Heap.placeInSegment at placed
  split at placed
  · rename_i waiting
    cases placed
    split at waiting
    · obtain ⟨c, found, same⟩ := Option.map_eq_some_iff.1 waiting
      cases same
      exact .last found
    · cases waiting
  unfold Heap.carveOrGrow at placed
  split at placed
  · rename_i carved
    cases placed
    rw [carve_parked carved]
    exact .nothing
  split at placed
  · cases placed
  rename_i unparked returned
  have emptied : unparked.parked = [] := unpark_parked returned
  split at placed
  · rename_i carved
    cases placed
    rw [carve_parked carved, emptied]
    exact .all
  · cases placed
    rw [carveFresh_parked, emptied]
    exact .all

theorem place_draws {step : HeapStep (Option Address)}
    (placed : h.place system chunk align = .ok step) : Draws h.parked step.heap.parked := by
  unfold Heap.place at placed
  dsimp only at placed
  split at placed
  · cases placed
  rename_i source served
  have draws : Draws h.parked source.heap.parked := by
    split at served
    · cases served
      unfold Heap.placeInRegion
      split <;> exact .nothing
    · exact placeInSegment_draws served
  split at placed
  · cases placed
    exact draws
  · cases placed
    exact draws

theorem allocate_draws {step : HeapStep (Option Address)}
    (allocated : h.allocate system size align = .ok step) : Draws h.parked step.heap.parked := by
  unfold Heap.allocate at allocated
  split at allocated
  · cases allocated
    exact .nothing
  split at allocated
  · cases allocated
    exact .nothing
  split at allocated
  · exact place_draws allocated
  · cases allocated
    exact .nothing

/-- A live block does not wait for a request. -/
theorem Sound.chunk_not_parked (sound : h.Sound system rest []) (live : b ∈ h.live)
    (placed : b.dedicated = false) : b.chunk ∉ h.parked := by
  intro waits
  have filled : 0 < b.span.size := sound.filled live
  have inLive : b.span ∈ LiveBlock.places h.live :=
    List.mem_map_of_mem (List.mem_filter.2 ⟨live, by simp [placed]⟩)
  have inParked : b.span ∈ h.parked.map (·.span) := List.mem_map_of_mem (f := (·.span)) waits
  have first : b.span.has b.addr = true :=
    Span.has_iff.2 ⟨Nat.le_refl _, Nat.lt_add_of_pos_right filled⟩
  have once : Span.cover h.places b.addr ≤ 1 :=
    Nat.le_trans (sound.tiles.cover_le b.addr) (sound.tiles.toOrdered.cover_le_one b.addr)
  rw [Heap.places, Span.cover_append] at once
  have inUse := Span.cover_pos inLive first
  have waiting := Span.cover_pos inParked first
  omega

theorem Sound.release_parks {step : HeapStep (Option Nat)} (sound : h.Sound system rest [])
    (released : h.release system addr = .ok step) : Parks h.parked step.heap.parked := by
  cases found : h.block? addr with
  | none =>
    rw [release_of_none found] at released
    cases released
    exact .nothing
  | some b =>
    obtain ⟨live, rfl⟩ := block?_mem found
    rw [release_parked found released]
    split
    · rename_i parks
      simp only [LiveBlock.parks, Bool.and_eq_true, Bool.not_eq_true'] at parks
      exact .chunk (sound.chunk_not_parked live parks.1.1)
    · exact .nothing

theorem Sound.resize_parks {step : HeapStep (Option Resized)} (sound : h.Sound system rest [])
    (resized : h.resize system addr size = .ok step) :
    ∃ left, Draws h.parked left ∧ Parks left step.heap.parked := by
  obtain same | ⟨b, chunk, found, rounded, refits⟩ := resize_refits resized
  · rw [same]
    exact ⟨_, .nothing, .nothing⟩
  generalize step.heap = after at refits
  cases refits with
  | region _ =>
    unfold Heap.resizeRegion
    split <;> exact ⟨_, .nothing, .nothing⟩
  | @settled segments _ _ =>
    rw [(setSize_eq (h := { h with segments }) found chunk).2.1]
    exact ⟨_, .nothing, .nothing⟩
  | elsewhere grown =>
    obtain ⟨place, placed, outcome⟩ := growElsewhere_eq grown
    have aligned := sound.aligned b (block?_mem found).1
    obtain ⟨_, placed', issues⟩ := sound.place (chunkSize?_pos rounded) aligned
    cases placed.symm.trans placed'
    refine ⟨place.heap.parked, place_draws placed, ?_⟩
    rcases outcome with same | ⟨_, released, gone, same⟩
    · rw [same]
      exact .nothing
    · rw [same]
      exact (issues.sound.withBytes _).release_parks gone

theorem trim_parked {step : HeapStep Nat} (trimmed : h.trim system = .ok step) :
    step.heap.parked = [] := by
  unfold Heap.trim at trimmed
  split at trimmed
  · cases trimmed
  · rename_i unparked returned
    have emptied : unparked.parked = [] := unpark_parked returned
    cases trimmed
    exact emptied

end Heap

end PooledMemory
