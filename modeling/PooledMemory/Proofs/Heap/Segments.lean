import PooledMemory.Heap.Resize
import PooledMemory.Proofs.Segment

namespace PooledMemory

namespace Segment

def freeCovers (segments : List Segment) (x : Nat) : Nat := sumBy (·.freeCover x) segments

theorem freeCovers_cons (s : Segment) (rest : List Segment) (x : Nat) :
    freeCovers (s :: rest) x = s.freeCover x + freeCovers rest x := by
  simp [freeCovers]

theorem freeCovers_append (segments more : List Segment) (x : Nat) :
    freeCovers (segments ++ more) x = freeCovers segments x + freeCovers more x := by
  simp [freeCovers]

theorem freeCover_le_freeCovers {s : Segment} {segments : List Segment} (member : s ∈ segments)
    (x : Nat) : s.freeCover x ≤ freeCovers segments x := by
  induction segments with
  | nil => simp at member
  | cons first rest ih =>
    rw [freeCovers_cons]
    rcases List.mem_cons.1 member with rfl | later
    · omega
    · have behind := ih later
      omega

theorem freeCovers_perm {segments others : List Segment} (perm : segments.Perm others) (x : Nat) :
    freeCovers segments x = freeCovers others x :=
  sumBy_perm _ perm

/-- Every segment is sound, and each one ends before the next begins. -/
structure Ordered (segments : List Segment) : Prop where
  sound : ∀ s ∈ segments, s.Sound
  sorted : (segments.map (·.frame)).Pairwise fun f g => f.stop ≤ g.addr

theorem Ordered.cover_le_one {segments : List Segment} (ordered : Ordered segments) (x : Nat) :
    Span.cover (segments.map (·.frame)) x ≤ 1 :=
  Span.cover_le_one (ordered.sorted.imp Or.inl) x

theorem freeCovers_le {segments : List Segment} (sound : ∀ s ∈ segments, s.Sound) (x : Nat) :
    freeCovers segments x ≤ Span.cover (segments.map (·.frame)) x := by
  induction segments with
  | nil => exact Nat.le_refl _
  | cons s rest ih =>
    obtain ⟨first, others⟩ := List.forall_mem_cons.1 sound
    have behind := ih others
    have own := first.freeCover_le x
    rw [freeCovers_cons, List.map_cons, Span.cover_cons]
    omega

/-- In a segment, only its own free ranges count. -/
theorem Ordered.freeCovers_eq {segments : List Segment} {s : Segment} (ordered : Ordered segments)
    (member : s ∈ segments) {x : Nat} (inside : s.frame.hits x = 1) :
    Span.cover (segments.map (·.frame)) x = 1 ∧ freeCovers segments x = s.freeCover x := by
  have perm := List.perm_cons_erase member
  have once := ordered.cover_le_one x
  have sound : ∀ t ∈ segments.erase s, t.Sound := fun t inRest =>
    ordered.sound t (List.mem_of_mem_erase inRest)
  have others := freeCovers_le sound x
  rw [Span.cover_perm (perm.map _), List.map_cons, Span.cover_cons] at once ⊢
  rw [freeCovers_perm perm, freeCovers_cons]
  omega

/-- An address lies in at most one segment. -/
theorem Ordered.eq_of_contains {segments : List Segment} {s t : Segment} (ordered : Ordered segments)
    (inSegments : s ∈ segments) (inSegments' : t ∈ segments) {x : Address}
    (inside : s.contains x = true) (inside' : t.contains x = true) : s = t := by
  by_contra differs
  have perm := List.perm_cons_erase inSegments
  have other : t ∈ segments.erase s := (List.mem_erase_of_ne (Ne.symm differs)).2 inSegments'
  have once := ordered.cover_le_one x
  rw [Span.cover_perm (perm.map _), List.map_cons, Span.cover_cons] at once
  have first : s.frame.hits x = 1 := if_pos (contains_iff.1 inside)
  have second : t.frame.hits x = 1 := if_pos (contains_iff.1 inside')
  have counted := Span.hits_le_cover (List.mem_map_of_mem (f := (·.frame)) other) x
  omega

theorem freeCovers_set {segments : List Segment} {i : Nat} {s t : Segment}
    (found : segments[i]? = some s) (x : Nat) :
    freeCovers (segments.set i t) x + s.freeCover x =
      freeCovers segments x + t.freeCover x := by
  induction segments generalizing i with
  | nil => simp at found
  | cons first rest ih =>
    cases i with
    | zero =>
      cases Option.some.inj found
      rw [List.set_cons_zero, freeCovers_cons, freeCovers_cons]
      omega
    | succ i =>
      have behind := ih (i := i) (by simpa using found)
      rw [List.set_cons_succ, freeCovers_cons, freeCovers_cons]
      omega

theorem frames_set {segments : List Segment} {i : Nat} {s t : Segment}
    (found : segments[i]? = some s) (same : t.frame = s.frame) :
    (segments.set i t).map (·.frame) = segments.map (·.frame) := by
  induction segments generalizing i with
  | nil => simp at found
  | cons first rest ih =>
    cases i with
    | zero =>
      cases Option.some.inj found
      rw [List.set_cons_zero, List.map_cons, List.map_cons, same]
    | succ i =>
      have behind := ih (i := i) (by simpa using found)
      rw [List.set_cons_succ, List.map_cons, List.map_cons, behind]

end Segment

namespace Heap

/-- Bisection splits a list whose satisfying elements come first behind the last of them. -/
theorem bisect_spec {α : Type} {p : α → Bool} {xs : List α}
    (falling : xs.Pairwise fun a b => p b = true → p a = true) {steps low high : Nat}
    (le : low ≤ high) (bound : high ≤ xs.length) (enough : high ≤ low + steps)
    (below : ∀ i x, i < low → xs[i]? = some x → p x = true)
    (above : ∀ i x, high ≤ i → xs[i]? = some x → p x = false) :
    bisect p xs steps low high ≤ xs.length ∧
      ∀ i x, xs[i]? = some x → (p x = true ↔ i < bisect p xs steps low high) := by
  have ordered : ∀ (i j : Nat) (x y : α), i ≤ j → xs[i]? = some x → xs[j]? = some y →
      p y = true → p x = true := by
    intro i j x y before atI atJ satisfied
    obtain ⟨boundI, rfl⟩ := List.getElem?_eq_some_iff.1 atI
    obtain ⟨boundJ, rfl⟩ := List.getElem?_eq_some_iff.1 atJ
    rcases Nat.eq_or_lt_of_le before with rfl | earlier
    · exact satisfied
    · exact List.pairwise_iff_getElem.1 falling i j boundI boundJ earlier satisfied
  have settled : ∀ low high : Nat, low = high →
      (∀ i x, i < low → xs[i]? = some x → p x = true) →
      (∀ i x, high ≤ i → xs[i]? = some x → p x = false) →
      ∀ i x, xs[i]? = some x → (p x = true ↔ i < low) := by
    rintro low _ rfl below above i x atI
    constructor
    · intro satisfied
      by_contra behind
      rw [above i x (by omega) atI] at satisfied
      cases satisfied
    · intro before
      exact below i x before atI
  induction steps generalizing low high with
  | zero =>
    have same : low = high := by omega
    exact ⟨by rw [bisect]; omega, settled low high same below above⟩
  | succ steps ih =>
    rw [bisect]
    by_cases open' : low < high
    · obtain ⟨x, atMiddle⟩ : ∃ x, xs[(low + high) / 2]? = some x :=
        ⟨_, List.getElem?_eq_getElem (by omega)⟩
      simp only [if_pos open', atMiddle]
      by_cases satisfied : p x = true
      · rw [if_pos satisfied]
        exact ih (by omega) bound (by omega)
          (fun i y before atI => ordered i _ y x (by omega) atI atMiddle satisfied) above
      · rw [if_neg satisfied]
        refine ih (by omega) (by omega) (by omega) below fun i y behind atI => ?_
        by_contra holds
        exact satisfied (ordered _ i x y (by omega) atMiddle atI (by simpa using holds))
    · rw [if_neg open']
      exact ⟨by omega, settled low high (by omega) below above⟩

theorem partitionPoint_spec {α : Type} {p : α → Bool} {xs : List α}
    (falling : xs.Pairwise fun a b => p b = true → p a = true) :
    partitionPoint p xs ≤ xs.length ∧
      ∀ i x, xs[i]? = some x → (p x = true ↔ i < partitionPoint p xs) := by
  refine bisect_spec falling (Nat.zero_le _) (Nat.le_refl _) (by omega) ?_ ?_
  · intro i x before
    omega
  · intro i x behind atI
    rw [List.getElem?_eq_none behind] at atI
    cases atI

theorem segmentIndex?_mem {h : Heap} {addr i : Nat}
    (index : h.segmentIndex? addr = some i) :
    ∃ s, h.segments[i]? = some s ∧ s.contains addr = true := by
  unfold segmentIndex? at index
  split at index
  · cases index
  · split at index
    · rename_i s found
      split at index
      · cases index
        exact ⟨s, found, by assumption⟩
      · cases index
    · cases index

/-- The search finds the segment that an address lies in as long as each segment ends before the next
begins. -/
theorem segmentIndex?_of_sorted {h : Heap}
    (sorted : h.segments.Pairwise fun s t => s.frame.stop ≤ t.frame.addr) {addr i : Nat} {s : Segment}
    (found : h.segments[i]? = some s) (inside : s.contains addr = true) :
    h.segmentIndex? addr = some i := by
  obtain ⟨lower, upper⟩ := Segment.contains_iff.1 inside
  have falling : h.segments.Pairwise fun s t =>
      decide (t.base ≤ addr) = true → decide (s.base ≤ addr) = true := by
    refine sorted.imp fun {s t} before reached => ?_
    have later : t.frame.addr ≤ addr := of_decide_eq_true reached
    have start : s.frame.addr ≤ s.frame.stop := Nat.le_add_right _ _
    exact decide_eq_true (Nat.le_trans (Nat.le_trans start before) later)
  obtain ⟨bound, split⟩ := partitionPoint_spec falling
  have reached := (split i s found).1 (decide_eq_true lower)
  have last : partitionPoint (fun s : Segment => decide (s.base ≤ addr)) h.segments = i + 1 := by
    by_contra further
    have next : i + 1 < h.segments.length := by omega
    have beyond := of_decide_eq_true
      ((split (i + 1) _ (List.getElem?_eq_getElem next)).2 (by omega))
    obtain ⟨here, rfl⟩ := List.getElem?_eq_some_iff.1 found
    have before := List.pairwise_iff_getElem.1 sorted i (i + 1) here next (by omega)
    exact absurd (Nat.le_trans before beyond) (Nat.not_le.2 upper)
  simp only [segmentIndex?, last, found, inside, if_true]

theorem segmentIndex?_eq {h : Heap} (ordered : Segment.Ordered h.segments) {addr i : Nat}
    {s : Segment} (found : h.segments[i]? = some s) (inside : s.contains addr = true) :
    h.segmentIndex? addr = some i :=
  segmentIndex?_of_sorted (List.pairwise_map.1 ordered.sorted) found inside

theorem carveFirst_spec {segments after : List Segment} {chunk align addr : Nat}
    (sound : ∀ s ∈ segments, s.Sound) (filled : 0 < chunk)
    (carved : carveFirst chunk align segments = some (addr, after)) :
    (∀ s ∈ after, s.Sound) ∧ after.map (·.frame) = segments.map (·.frame) ∧
      (∃ f ∈ segments.map (·.frame), Span.Within ⟨addr, chunk⟩ f) ∧
      ∀ x, Segment.freeCovers after x + (⟨addr, chunk⟩ : Span).hits x =
        Segment.freeCovers segments x := by
  induction segments generalizing after with
  | nil => cases carved
  | cons s rest ih =>
    obtain ⟨soundHere, soundRest⟩ := List.forall_mem_cons.1 sound
    simp only [carveFirst] at carved
    split at carved
    · rename_i found taken
      cases carved
      split at taken
      · obtain ⟨soundTaken, same, inside, covers⟩ := soundHere.carve filled taken
        refine ⟨List.forall_mem_cons.2 ⟨soundTaken, soundRest⟩, by rw [List.map_cons, same]; rfl,
          ⟨s.frame, List.mem_cons_self .., inside⟩, fun x => ?_⟩
        have here := covers x
        rw [Segment.freeCovers_cons, Segment.freeCovers_cons]
        omega
      · cases taken
    · obtain ⟨⟨later, tail⟩, inner, same⟩ := Option.map_eq_some_iff.1 carved
      obtain ⟨rfl, rfl⟩ : later = addr ∧ s :: tail = after := by simpa using same
      obtain ⟨soundTail, frames, ⟨f, member, inside⟩, covers⟩ := ih soundRest inner
      refine ⟨List.forall_mem_cons.2 ⟨soundHere, soundTail⟩, by rw [List.map_cons, frames]; rfl,
        ⟨f, List.mem_cons_of_mem _ member, inside⟩, fun x => ?_⟩
      have behind := covers x
      rw [Segment.freeCovers_cons, Segment.freeCovers_cons]
      omega

/-- Bytes of a segment that are not free yet are returned to it without a fault. -/
theorem returnRange_spec {h : Heap} (ordered : Segment.Ordered h.segments) {addr length : Nat}
    {f : Span} (filled : 0 < length) (member : f ∈ h.segments.map (·.frame))
    (inside : Span.Within ⟨addr, length⟩ f)
    (clear : ∀ x, (⟨addr, length⟩ : Span).hits x + Segment.freeCovers h.segments x ≤ 1) :
    ∃ segments, h.returnRange addr length = .ok { h with segments } ∧
      (∀ s ∈ segments, s.Sound) ∧ segments.map (·.frame) = h.segments.map (·.frame) ∧
      ∀ x, Segment.freeCovers segments x =
        Segment.freeCovers h.segments x + (⟨addr, length⟩ : Span).hits x := by
  obtain ⟨s, inSegments, rfl⟩ := List.mem_map.1 member
  obtain ⟨i, found⟩ := List.mem_iff_getElem?.1 inSegments
  obtain ⟨lower, upper⟩ := inside
  obtain ⟨offset, rfl⟩ : ∃ offset, addr = s.frame.addr + offset :=
    ⟨addr - s.frame.addr, (Nat.add_sub_cancel' lower).symm⟩
  simp only [Span.stop] at upper
  have starts : s.contains (s.frame.addr + offset) = true := by
    refine Segment.contains_iff.2 ⟨Nat.le_add_right _ _, ?_⟩
    simp only [Span.stop]
    omega
  have fits : offset + length ≤ s.length := by
    change offset + length ≤ s.frame.size
    omega
  have clearHere : ∀ x, (⟨s.frame.addr + offset, length⟩ : Span).hits x + s.freeCover x ≤ 1 := by
    intro x
    have total := clear x
    have part := Segment.freeCover_le_freeCovers inSegments x
    omega
  obtain ⟨after, returned, sound, same, covers⟩ :=
    (ordered.sound s inSegments).giveBack filled fits clearHere
  have distance : s.frame.addr + offset - s.base = offset := Nat.add_sub_cancel_left ..
  refine ⟨h.segments.set i after, ?_, ?_, Segment.frames_set found same, fun x => ?_⟩
  · simp only [returnRange, segmentIndex?_eq ordered found starts, found, distance, returned]
  · intro t inAfter
    rcases List.mem_or_eq_of_mem_set inAfter with before | rfl
    · exact ordered.sound t before
    · exact sound
  · have exchanged := Segment.freeCovers_set (t := after) found x
    have here : after.freeCover x =
      s.freeCover x + (⟨s.frame.addr + offset, length⟩ : Span).hits x := covers x
    omega

end Heap

end PooledMemory
