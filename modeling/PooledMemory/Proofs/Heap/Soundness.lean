import PooledMemory.Proofs.Heap.Supply
import PooledMemory.Proofs.Keyed
import PooledMemory.Proofs.SystemHeap

namespace PooledMemory

namespace LiveBlock

/-- The block of the system heap that the region of a dedicated block is. -/
def region (b : LiveBlock) : SystemBlock := ⟨b.addr, b.size, b.align⟩

/-- The bytes of the blocks in segments. -/
def places (live : List LiveBlock) : List Span := (live.filter (!·.dedicated)).map (·.span)

def regions (live : List LiveBlock) : List SystemBlock := (live.filter (·.dedicated)).map (·.region)

def bytes (live : List LiveBlock) : Nat := sumBy (·.size) live

theorem places_cons_of_false {b : LiveBlock} {rest : List LiveBlock} (placed : b.dedicated = false) :
    places (b :: rest) = b.span :: places rest := by
  simp [places, placed]

theorem places_cons_of_true {b : LiveBlock} {rest : List LiveBlock} (own : b.dedicated = true) :
    places (b :: rest) = places rest := by
  simp [places, own]

theorem regions_cons_of_false {b : LiveBlock} {rest : List LiveBlock}
    (placed : b.dedicated = false) : regions (b :: rest) = regions rest := by
  simp [regions, placed]

theorem regions_cons_of_true {b : LiveBlock} {rest : List LiveBlock} (own : b.dedicated = true) :
    regions (b :: rest) = b.region :: regions rest := by
  simp [regions, own]

theorem bytes_cons (b : LiveBlock) (rest : List LiveBlock) :
    bytes (b :: rest) = b.size + bytes rest := by
  simp [bytes]

theorem bytes_le {fewer live : List LiveBlock} (sublist : fewer.Sublist live) :
    bytes fewer ≤ bytes live := by
  induction sublist with
  | slnil => exact Nat.le_refl _
  | cons b _ ih =>
    rw [bytes_cons]
    omega
  | cons_cons b _ ih =>
    rw [bytes_cons, bytes_cons]
    omega

theorem places_perm {live others : List LiveBlock} (perm : live.Perm others) :
    (places live).Perm (places others) :=
  (perm.filter _).map _

theorem regions_perm {live others : List LiveBlock} (perm : live.Perm others) :
    (regions live).Perm (regions others) :=
  (perm.filter _).map _

theorem bytes_perm {live others : List LiveBlock} (perm : live.Perm others) :
    bytes live = bytes others :=
  sumBy_perm _ perm

theorem cover_spans (live : List LiveBlock) (x : Nat) :
    Span.cover (live.map (·.span)) x =
      Span.cover (places live) x + Span.cover ((regions live).map (·.span)) x := by
  induction live with
  | nil => rfl
  | cons b rest ih =>
    have same : b.region.span = b.span := rfl
    rw [List.map_cons, Span.cover_cons, ih]
    cases kind : b.dedicated with
    | true =>
      rw [places_cons_of_true kind, regions_cons_of_true kind, List.map_cons, Span.cover_cons, same]
      omega
    | false =>
      rw [places_cons_of_false kind, regions_cons_of_false kind, Span.cover_cons]
      omega

end LiveBlock

/-- The block of the system heap that a segment at these bytes is. -/
def Span.segmentBlock (f : Span) : SystemBlock := ⟨f.addr, f.size, maxSegmentAlign⟩

namespace Heap

/-- The bytes of segments that are in use or parked. -/
def places (h : Heap) : List Span := LiveBlock.places h.live ++ h.parked.map (·.span)

/-- The blocks of the system heap that a heap holds. -/
def holdings (h : Heap) : List SystemBlock :=
  (h.segments.map (·.frame)).map (·.segmentBlock) ++ LiveBlock.regions h.live

theorem holdings_eq (h : Heap) :
    h.holdings = h.segments.map (·.frame.segmentBlock) ++ LiveBlock.regions h.live := by
  rw [holdings, List.map_map]
  rfl

/-- The segments are divided without gap or overlap among live blocks, parked chunks, free ranges
and the places in `hole`, and the sizes are counted as words. -/
structure Orderly (h : Heap) (hole : List Span) : Prop where
  tiles : Tiles h.segments (hole ++ h.places)
  aligned : ∀ b ∈ h.live, granule ≤ b.align
  counted : h.allocated = LiveBlock.bytes h.live % wordSize

/-- An orderly heap on top of a system heap whose other blocks are those in `rest`. -/
structure Sound (h : Heap) (system : SystemHeap) (rest : List SystemBlock) (hole : List Span) :
    Prop extends Orderly h hole where
  below : system.Sound
  held : system.blocks.Perm (h.holdings ++ rest)

variable {h : Heap} {system : SystemHeap} {rest : List SystemBlock} {hole : List Span}

theorem empty_orderly (maxSize : Nat) : (empty maxSize).Orderly [] where
  tiles := tiles_nil
  aligned := by simp [empty]
  counted := rfl

/-- Only the segments, the parked chunks, the sum and what is live, in any order, matter. -/
theorem Sound.congr {after : Heap} (sound : h.Sound system rest hole)
    (segments : after.segments = h.segments) (parked : after.parked = h.parked)
    (live : after.live.Perm h.live) (allocated : after.allocated = h.allocated) :
    after.Sound system rest hole where
  tiles := by
    rw [segments]
    refine sound.tiles.perm (List.Perm.append_left _ ?_)
    rw [places, places, parked]
    exact (LiveBlock.places_perm live.symm).append_right _
  below := sound.below
  held := by
    refine sound.held.trans (List.Perm.append_right _ ?_)
    rw [holdings, holdings, segments]
    exact (LiveBlock.regions_perm live.symm).append_left _
  aligned := fun b member => sound.aligned b (live.subset member)
  counted := by rw [allocated, sound.counted, LiveBlock.bytes_perm live]

theorem Sound.withSystem {other : SystemHeap} (sound : h.Sound system rest hole)
    (below : other.Sound) (same : other.blocks = system.blocks) : h.Sound other rest hole where
  toOrderly := sound.toOrderly
  below := below
  held := same ▸ sound.held

theorem Sound.withBytes (sound : h.Sound system rest hole) (bytes : Bytes) :
    h.Sound { system with bytes } rest hole :=
  sound.withSystem (sound.below.restrict (.refl _) rfl rfl) rfl

/-- Live blocks cover nothing but what the heap holds. -/
theorem Sound.cover_le (sound : h.Sound system rest hole) (x : Nat) :
    Span.cover (h.live.map (·.span)) x ≤ Span.cover (h.holdings.map (·.span)) x := by
  have inSegments := sound.tiles.cover_le x
  have frames : ((h.segments.map (·.frame)).map (·.segmentBlock)).map (·.span) =
      h.segments.map (·.frame) := by
    simp [Function.comp_def, Span.segmentBlock, SystemBlock.span]
  rw [Span.cover_append, places, Span.cover_append] at inSegments
  rw [holdings, List.map_append, Span.cover_append, frames, LiveBlock.cover_spans]
  omega

theorem Sound.cover_le_one (sound : h.Sound system rest hole) (x : Nat) :
    Span.cover (h.live.map (·.span)) x ≤ 1 := by
  have own := sound.cover_le x
  have all : Span.cover (system.blocks.map (·.span)) x ≤ 1 :=
    Span.cover_le_one (List.pairwise_map.2 sound.below.apart) x
  rw [Span.cover_perm (sound.held.map (·.span)), List.map_append, Span.cover_append] at all
  omega

theorem Sound.filled (sound : h.Sound system rest hole) {b : LiveBlock} (member : b ∈ h.live) :
    0 < b.size := by
  cases kind : b.dedicated with
  | true =>
    have own : b.region ∈ LiveBlock.regions h.live :=
      List.mem_map_of_mem (List.mem_filter.2 ⟨member, kind⟩)
    have held : b.region ∈ system.blocks := sound.held.mem_iff.2 (by simp [holdings, own])
    exact sound.below.filled b.region held
  | false =>
    have place : b.span ∈ LiveBlock.places h.live :=
      List.mem_map_of_mem (List.mem_filter.2 ⟨member, by simp [kind]⟩)
    exact (sound.tiles.inside b.span (by simp [places, place])).1

theorem Sound.apart (sound : h.Sound system rest hole) :
    (h.live.map (·.span)).Pairwise Span.Apart := by
  refine Span.pairwise_apart (fun s member => ?_) sound.cover_le_one
  obtain ⟨b, inLive, rfl⟩ := List.mem_map.1 member
  exact sound.filled inLive

theorem Sound.addr_nodup (sound : h.Sound system rest hole) : (h.live.map (·.addr)).Nodup := by
  have filled : ∀ b ∈ h.live, 0 < b.span.size := fun b member => sound.filled member
  have starts := Span.starts_nodup sound.apart (List.forall_mem_map.2 filled)
  rwa [List.map_map] at starts

theorem block?_mem {addr : Address} {b : LiveBlock} (found : h.block? addr = some b) :
    b ∈ h.live ∧ b.addr = addr :=
  ⟨List.mem_of_find?_eq_some found, by simpa using List.find?_some found⟩

theorem Sound.block?_eq (sound : h.Sound system rest hole) {b : LiveBlock} (member : b ∈ h.live) :
    h.block? b.addr = some b := by
  have perm := Keyed.perm_cons_filter LiveBlock.addr sound.addr_nodup member
  obtain ⟨c, found⟩ : ∃ c, h.block? b.addr = some c := by
    refine Option.isSome_iff_exists.1 (List.find?_isSome.2 ⟨b, member, by simp⟩)
  obtain ⟨inLive, same⟩ := block?_mem found
  rcases List.mem_cons.1 (perm.subset inLive) with rfl | other
  · exact found
  · exact absurd same (by simpa using (List.mem_filter.1 other).2)

theorem Sound.live_perm (sound : h.Sound system rest hole) {addr : Address} {b : LiveBlock}
    (found : h.block? addr = some b) : h.live.Perm (b :: (h.removeLive b).live) :=
  Keyed.perm_cons_filter LiveBlock.addr sound.addr_nodup (block?_mem found).1

/-- A block that occupies a place left out so far may be counted among the live ones. -/
theorem Sound.addLive {b : LiveBlock} (placed : b.dedicated = false) (aligned : granule ≤ b.align)
    (sound : h.Sound system rest (b.span :: hole)) : (h.addLive b).Sound system rest hole where
  tiles := by
    refine sound.tiles.perm ?_
    show (b.span :: (hole ++ h.places)).Perm (hole ++ (LiveBlock.places (b :: h.live) ++ _))
    rw [LiveBlock.places_cons_of_false placed]
    exact List.perm_middle.symm
  below := sound.below
  held := by
    refine sound.held.trans (List.Perm.append_right _ (List.Perm.append_left _ ?_))
    show (LiveBlock.regions h.live).Perm (LiveBlock.regions (b :: h.live))
    rw [LiveBlock.regions_cons_of_false placed]
  aligned := List.forall_mem_cons.2 ⟨aligned, sound.aligned⟩
  counted := by
    show Word.add h.allocated b.size = LiveBlock.bytes (b :: h.live) % wordSize
    rw [LiveBlock.bytes_cons, sound.counted, Word.add, Nat.mod_add_mod, Nat.add_comm]

theorem Sound.addRegion {b : LiveBlock} (own : b.dedicated = true) (aligned : granule ≤ b.align)
    (sound : h.Sound system (b.region :: rest) hole) : (h.addLive b).Sound system rest hole where
  tiles := by
    show Tiles h.segments (hole ++ (LiveBlock.places (b :: h.live) ++ _))
    rw [LiveBlock.places_cons_of_true own]
    exact sound.tiles
  below := sound.below
  held := by
    refine sound.held.trans (List.perm_middle.trans ?_)
    show List.Perm _ ((_ ++ LiveBlock.regions (b :: h.live)) ++ rest)
    rw [LiveBlock.regions_cons_of_true own]
    exact List.Perm.append_right _ List.perm_middle.symm
  aligned := List.forall_mem_cons.2 ⟨aligned, sound.aligned⟩
  counted := by
    show Word.add h.allocated b.size = LiveBlock.bytes (b :: h.live) % wordSize
    rw [LiveBlock.bytes_cons, sound.counted, Word.add, Nat.mod_add_mod, Nat.add_comm]

theorem sub_mod (size others : Nat) : Word.sub ((size + others) % wordSize) size = others % wordSize := by
  unfold Word.sub wordSize
  omega

theorem Sound.counted_removeLive (sound : h.Sound system rest hole) {addr : Address} {b : LiveBlock}
    (found : h.block? addr = some b) :
    (h.removeLive b).allocated = LiveBlock.bytes (h.removeLive b).live % wordSize := by
  show Word.sub h.allocated b.size = _
  rw [sound.counted, LiveBlock.bytes_perm (sound.live_perm found), LiveBlock.bytes_cons, sub_mod]

/-- A block that is no longer counted leaves its place behind. -/
theorem Sound.removeLive (sound : h.Sound system rest hole) {addr : Address} {b : LiveBlock}
    (found : h.block? addr = some b) (placed : b.dedicated = false) :
    (h.removeLive b).Sound system rest (b.span :: hole) := by
  have perm := sound.live_perm found
  have counted := sound.counted_removeLive found
  have places := LiveBlock.places_perm perm
  have regions := LiveBlock.regions_perm perm
  rw [LiveBlock.places_cons_of_false placed] at places
  rw [LiveBlock.regions_cons_of_false placed] at regions
  refine ⟨⟨sound.tiles.perm ?_, fun c member => ?_, counted⟩, sound.below, ?_⟩
  · exact ((places.append_right _).append_left hole).trans List.perm_middle
  · exact sound.aligned c (List.mem_of_mem_filter member)
  · exact sound.held.trans ((regions.append_left _).append_right rest)

theorem Sound.removeRegion (sound : h.Sound system rest hole) {addr : Address} {b : LiveBlock}
    (found : h.block? addr = some b) (own : b.dedicated = true) :
    (h.removeLive b).Sound system (b.region :: rest) hole := by
  have perm := sound.live_perm found
  have counted := sound.counted_removeLive found
  have places := LiveBlock.places_perm perm
  have regions := LiveBlock.regions_perm perm
  rw [LiveBlock.places_cons_of_true own] at places
  rw [LiveBlock.regions_cons_of_true own] at regions
  refine ⟨⟨sound.tiles.perm ?_, fun c member => ?_, counted⟩, sound.below, ?_⟩
  · exact (places.append_right _).append_left hole
  · exact sound.aligned c (List.mem_of_mem_filter member)
  · have front : h.holdings.Perm (b.region :: (h.removeLive b).holdings) :=
      (regions.append_left _).trans List.perm_middle
    exact (sound.held.trans (front.append_right rest)).trans List.perm_middle.symm

/-- A place that is left out becomes free without a fault. -/
theorem Sound.giveUp {addr length : Nat} (sound : h.Sound system rest (⟨addr, length⟩ :: hole)) :
    ∃ segments, h.returnRange addr length = .ok { h with segments } ∧
      { h with segments }.Sound system rest hole := by
  obtain ⟨after, returned, tiles, frames⟩ := Tiles.giveUp (h := h) sound.tiles
  refine ⟨after, returned, ⟨tiles, sound.aligned, sound.counted⟩, sound.below, ?_⟩
  rw [holdings, frames]
  exact sound.held

/-- A place that is left out may be parked. -/
theorem Sound.park {c : ParkedChunk} (sound : h.Sound system rest (c.span :: hole)) :
    { h with parked := c :: h.parked }.Sound system rest hole where
  tiles := by
    refine sound.tiles.perm ?_
    show (c.span :: (hole ++ (_ ++ _))).Perm (hole ++ (_ ++ c.span :: _))
    rw [← List.append_assoc, ← List.append_assoc]
    exact List.perm_middle.symm
  below := sound.below
  held := sound.held
  aligned := sound.aligned
  counted := sound.counted

end Heap

end PooledMemory
