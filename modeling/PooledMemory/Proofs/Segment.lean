import PooledMemory.Proofs.Span
import PooledMemory.Segment

namespace PooledMemory

namespace FreeRange

def span (base : Nat) (r : FreeRange) : Span := ⟨base + r.start, r.length⟩

@[simp] theorem span_mk (base start length : Nat) :
    span base ⟨start, length⟩ = ⟨base + start, length⟩ := rfl

/-- How many of the ranges an address lies in. -/
def cover (base : Nat) (ranges : List FreeRange) (x : Nat) : Nat :=
  Span.cover (ranges.map (·.span base)) x

/-- Nonempty ranges by ascending offset between `low` and `bound`, with bytes in use between
any two of them. -/
def Spaced (bound : Nat) : Nat → List FreeRange → Prop
  | _, [] => True
  | low, r :: rest =>
    low ≤ r.start ∧ 0 < r.length ∧ r.stop ≤ bound ∧ Spaced bound (r.stop + 1) rest

theorem Spaced.mono {bound low high : Nat} {ranges : List FreeRange}
    (spaced : Spaced bound high ranges) (le : low ≤ high) : Spaced bound low ranges := by
  cases ranges with
  | nil => trivial
  | cons r rest => exact ⟨Nat.le_trans le spaced.1, spaced.2⟩

theorem Spaced.mem {bound low : Nat} {ranges : List FreeRange} (spaced : Spaced bound low ranges)
    {r : FreeRange} (member : r ∈ ranges) : low ≤ r.start ∧ 0 < r.length ∧ r.stop ≤ bound := by
  induction ranges generalizing low with
  | nil => simp at member
  | cons first rest ih =>
    rcases List.mem_cons.1 member with rfl | later
    · exact ⟨spaced.1, spaced.2.1, spaced.2.2.1⟩
    · obtain ⟨lower, filled, upper⟩ := ih spaced.2.2.2 later
      have start := spaced.1
      have stop : first.stop = first.start + first.length := rfl
      exact ⟨by omega, filled, upper⟩

@[simp] theorem cover_nil (base x : Nat) : cover base [] x = 0 := rfl

@[simp] theorem cover_cons (base : Nat) (r : FreeRange) (rest : List FreeRange) (x : Nat) :
    cover base (r :: rest) x = (r.span base).hits x + cover base rest x :=
  Span.cover_cons _ _ _

@[simp] theorem cover_append (base : Nat) (ranges more : List FreeRange) (x : Nat) :
    cover base (ranges ++ more) x = cover base ranges x + cover base more x := by
  rw [cover, List.map_append, Span.cover_append]
  rfl

/-- Ranges that are spaced lie in their bounds and cover no byte twice. -/
theorem Spaced.cover_le {bound low : Nat} {ranges : List FreeRange} (base : Nat)
    (spaced : Spaced bound low ranges) (within : low ≤ bound) (x : Nat) :
    cover base ranges x ≤ (⟨base + low, bound - low⟩ : Span).hits x := by
  induction ranges generalizing low with
  | nil => simp
  | cons r rest ih =>
    obtain ⟨lower, filled, upper, behind⟩ := spaced
    have stop : r.stop = r.start + r.length := rfl
    rw [cover_cons]
    by_cases last : r.stop + 1 ≤ bound
    · have later := ih behind last
      simp only [Span.hits, Span.stop, span] at later ⊢
      grind
    · have nothing : rest = [] := by
        cases rest with
        | nil => rfl
        | cons next more =>
          have start := behind.1
          have within := behind.2.2.1
          have length : next.stop = next.start + next.length := rfl
          have filled := behind.2.1
          omega
      subst nothing
      rw [cover_nil, Nat.add_zero]
      refine Span.Within.hits_le ⟨?_, ?_⟩ x <;> simp only [Span.stop, span] <;> omega

theorem cover_ofLength (base start length x : Nat) :
    cover base (ofLength start length) x = (⟨base + start, length⟩ : Span).hits x := by
  unfold ofLength
  split
  · simp [span]
  · exact (Span.hits_of_size_zero (by simp only; omega) x).symm

theorem Spaced.ofLength_append {bound low start length : Nat} {rest : List FreeRange}
    (lower : low ≤ start) (upper : start + length ≤ bound) (behind : Spaced bound low rest)
    (later : 0 < length → Spaced bound (start + length + 1) rest) :
    Spaced bound low (ofLength start length ++ rest) := by
  unfold ofLength
  split
  · rename_i filled
    exact ⟨lower, filled, upper, later filled⟩
  · exact behind

theorem cover_without {r : FreeRange} {padding chunk : Nat} (fits : padding + chunk ≤ r.length)
    (base x : Nat) :
    cover base (r.without padding chunk) x +
        (⟨base + (r.start + padding), chunk⟩ : Span).hits x =
      (r.span base).hits x := by
  have whole : r.span base = ⟨base + r.start, padding + (chunk + (r.length - (padding + chunk)))⟩ := by
    unfold span
    congr 1
    omega
  rw [whole, Span.hits_split, Span.hits_split, without, cover_append, cover_ofLength, cover_ofLength]
  simp only [Nat.add_assoc]
  omega

theorem Spaced.without_append {bound low padding chunk : Nat} {r : FreeRange}
    {rest : List FreeRange} (spaced : Spaced bound low (r :: rest))
    (fits : padding + chunk ≤ r.length) (filled : 0 < chunk) :
    Spaced bound low (r.without padding chunk ++ rest) := by
  obtain ⟨lower, _, upper, behind⟩ := spaced
  have stop : r.stop = r.start + r.length := rfl
  have tail : ∀ from' ≤ r.start + padding + chunk, Spaced bound from'
      (ofLength (r.start + padding + chunk) (r.length - (padding + chunk)) ++ rest) := by
    intro from' le
    refine .ofLength_append le (by omega) (behind.mono (by omega)) fun _ => behind.mono (by omega)
  rw [without, List.append_assoc]
  exact .ofLength_append lower (by omega) (tail low (by omega)) fun _ => tail _ (by omega)

theorem cover_carve {base chunk align offset : Nat} {ranges left : List FreeRange}
    (carved : carve base chunk align ranges = some (offset, left)) (x : Nat) :
    cover base left x + (⟨base + offset, chunk⟩ : Span).hits x = cover base ranges x := by
  induction ranges generalizing left with
  | nil => cases carved
  | cons r rest ih =>
    simp only [carve] at carved
    split at carved
    · rename_i padding fits
      cases carved
      have parts := cover_without (padding_add_le fits) base x
      rw [cover_append, cover_cons]
      omega
    · obtain ⟨⟨later, tail⟩, inner, same⟩ := Option.map_eq_some_iff.1 carved
      cases same
      have behind := ih inner
      change cover base (r :: tail) x + _ = _
      rw [cover_cons, cover_cons]
      omega

theorem Spaced.carve {base chunk align offset bound low : Nat} {ranges left : List FreeRange}
    (spaced : Spaced bound low ranges) (filled : 0 < chunk)
    (carved : FreeRange.carve base chunk align ranges = some (offset, left)) :
    Spaced bound low left ∧ low ≤ offset ∧ offset + chunk ≤ bound := by
  induction ranges generalizing left low with
  | nil => cases carved
  | cons r rest ih =>
    have stop : r.stop = r.start + r.length := rfl
    simp only [FreeRange.carve] at carved
    split at carved
    · rename_i padding found
      cases carved
      have fits := padding_add_le found
      obtain ⟨lower, _, upper, _⟩ := id spaced
      exact ⟨spaced.without_append fits filled, by omega, by omega⟩
    · obtain ⟨⟨later, tail⟩, inner, same⟩ := Option.map_eq_some_iff.1 carved
      cases same
      obtain ⟨lower, nonempty, upper, behind⟩ := spaced
      obtain ⟨spacedTail, lowerTail, upperTail⟩ := ih behind inner
      exact ⟨⟨lower, nonempty, upper, spacedTail⟩, by omega, upperTail⟩

theorem cover_takeFront {next needed : Nat} {ranges left : List FreeRange}
    (taken : takeFront next needed ranges = some left) (base x : Nat) :
    cover base left x + (⟨base + next, needed⟩ : Span).hits x = cover base ranges x := by
  induction ranges generalizing left with
  | nil => cases taken
  | cons r rest ih =>
    simp only [takeFront] at taken
    split at taken
    · rename_i here
      split at taken
      · cases taken
      · cases taken
        have whole : r.span base = ⟨base + next, needed + (r.length - needed)⟩ := by
          unfold span
          rw [here]
          congr 1
          omega
        rw [cover_append, cover_ofLength, cover_cons, whole, Span.hits_split, Nat.add_assoc base]
        omega
    · obtain ⟨tail, inner, rfl⟩ := Option.map_eq_some_iff.1 taken
      have behind := ih inner
      rw [cover_cons, cover_cons]
      omega

theorem Spaced.takeFront {next needed bound low : Nat} {ranges left : List FreeRange}
    (spaced : Spaced bound low ranges)
    (taken : FreeRange.takeFront next needed ranges = some left) :
    Spaced bound low left ∧ next + needed ≤ bound := by
  induction ranges generalizing left low with
  | nil => cases taken
  | cons r rest ih =>
    have stop : r.stop = r.start + r.length := rfl
    obtain ⟨lower, nonempty, upper, behind⟩ := spaced
    simp only [FreeRange.takeFront] at taken
    split at taken
    · split at taken
      · cases taken
      · cases taken
        refine ⟨.ofLength_append (by omega) (by omega) (behind.mono (by omega))
          fun _ => behind.mono (by omega), by omega⟩
    · obtain ⟨tail, inner, rfl⟩ := Option.map_eq_some_iff.1 taken
      obtain ⟨spacedTail, upperTail⟩ := ih behind inner
      exact ⟨⟨lower, nonempty, upper, spacedTail⟩, upperTail⟩

theorem cover_giveBack {start length : Nat} {ranges merged : List FreeRange}
    (returned : giveBack start length ranges = .ok merged) (base x : Nat) :
    cover base merged x = cover base ranges x + (⟨base + start, length⟩ : Span).hits x := by
  induction ranges generalizing start length merged with
  | nil =>
    cases returned
    simp [span]
  | cons r rest ih =>
    have stop : r.stop = r.start + r.length := rfl
    simp only [giveBack] at returned
    split at returned
    · split at returned
      · cases returned
      · split at returned
        · rename_i touching
          have joined := ih returned
          have next : base + start = base + r.start + r.length := by omega
          rw [joined, cover_cons, Span.hits_split, next]
          change _ = (⟨base + r.start, r.length⟩ : Span).hits x + _ + _
          omega
        · split at returned
          · rename_i tail inner
            cases returned
            have behind := ih inner
            rw [cover_cons, cover_cons]
            omega
          · cases returned
    · split at returned
      · rename_i touching
        cases returned
        have next : base + start + length = base + r.start := by omega
        rw [cover_cons, cover_cons, span_mk, Span.hits_split, next, span]
        omega
      · cases returned
        rw [cover_cons, cover_cons, span_mk]
        omega

/-- A range between spaced ones is taken back without a fault, and they stay spaced. -/
theorem Spaced.giveBack {start length bound low : Nat} {ranges : List FreeRange}
    (spaced : Spaced bound low ranges) (filled : 0 < length) (lower : low ≤ start)
    (upper : start + length ≤ bound)
    (clear : ∀ r ∈ ranges, r.stop ≤ start ∨ start + length ≤ r.start) :
    ∃ merged, FreeRange.giveBack start length ranges = .ok merged ∧ Spaced bound low merged := by
  induction ranges generalizing start length low with
  | nil => exact ⟨_, rfl, lower, filled, upper, trivial⟩
  | cons r rest ih =>
    have stop : r.stop = r.start + r.length := rfl
    obtain ⟨first, nonempty, last, behind⟩ := spaced
    have here := clear r (List.mem_cons_self ..)
    simp only [FreeRange.giveBack]
    by_cases before : r.start < start
    · have free : ¬ start < r.stop := by omega
      simp only [if_pos before, if_neg free]
      by_cases touching : r.stop = start
      · simp only [if_pos touching]
        refine ih (behind.mono (by omega)) (by omega) first (by omega) fun next member => ?_
        have nextLower := (behind.mem member).1
        have nextClear := clear next (List.mem_cons_of_mem _ member)
        have nextStop : next.stop = next.start + next.length := rfl
        omega
      · simp only [if_neg touching]
        obtain ⟨merged, returned, mergedSpaced⟩ := ih behind filled (by omega) upper
          fun next member => clear next (List.mem_cons_of_mem _ member)
        rw [returned]
        exact ⟨_, rfl, first, nonempty, last, mergedSpaced⟩
    · simp only [if_neg before]
      by_cases touching : r.start = start + length
      · simp only [if_pos touching]
        have whole : start + (length + r.length) = r.stop := by omega
        exact ⟨_, rfl, lower, by simp only; omega, by simp only [FreeRange.stop]; omega,
          by simpa only [FreeRange.stop, whole] using behind⟩
      · simp only [if_neg touching]
        exact ⟨_, rfl, lower, filled, upper, by simp only [FreeRange.stop]; omega, nonempty, last,
          behind⟩

end FreeRange

namespace Segment

def frame (s : Segment) : Span := ⟨s.base, s.length⟩

def freeCover (s : Segment) (x : Nat) : Nat := FreeRange.cover s.base s.free x

/-- The free ranges of a segment of the usual length are in order and counted. -/
structure Sound (s : Segment) : Prop where
  whole : s.length = segmentBytes
  spaced : FreeRange.Spaced s.length 0 s.free
  counted : s.freeBytes = FreeRange.total s.free

theorem Sound.filled {s : Segment} (sound : s.Sound) : 0 < s.frame.size := by
  change 0 < s.length
  rw [sound.whole]
  decide

theorem contains_iff {s : Segment} {addr : Nat} :
    s.contains addr = true ↔ s.frame.addr ≤ addr ∧ addr < s.frame.stop := by
  simp [contains, frame, Span.stop]

theorem fresh_sound (base : Address) : (fresh base segmentBytes).Sound where
  whole := rfl
  spaced := by simp [fresh, FreeRange.Spaced, FreeRange.stop, segmentBytes]
  counted := by simp [fresh, FreeRange.total]

theorem fresh_freeCover (base : Address) (x : Nat) :
    (fresh base segmentBytes).freeCover x = (fresh base segmentBytes).frame.hits x := by
  simp [freeCover, fresh, frame]

theorem Sound.freeCover_le {s : Segment} (sound : s.Sound) (x : Nat) :
    s.freeCover x ≤ s.frame.hits x :=
  sound.spaced.cover_le s.base (Nat.zero_le _) x

theorem Sound.carve {s after : Segment} {chunk align addr : Nat} (sound : s.Sound)
    (filled : 0 < chunk) (carved : s.carve chunk align = some (addr, after)) :
    after.Sound ∧ after.frame = s.frame ∧ Span.Within ⟨addr, chunk⟩ s.frame ∧
      ∀ x, after.freeCover x + (⟨addr, chunk⟩ : Span).hits x = s.freeCover x := by
  obtain ⟨⟨offset, left⟩, inner, same⟩ := Option.map_eq_some_iff.1 carved
  cases same
  obtain ⟨spaced, _, upper⟩ := sound.spaced.carve filled inner
  have total := FreeRange.total_carve inner
  refine ⟨⟨sound.whole, spaced, ?_⟩, rfl, ⟨?_, ?_⟩, FreeRange.cover_carve inner⟩
  · simp only [sound.counted]
    omega
  · exact Nat.le_add_right _ _
  · simp only [Span.stop, frame]
    omega

theorem Sound.extend {s after : Segment} {offset old new : Nat} (sound : s.Sound)
    (grows : old ≤ new) (extended : s.extend offset old new = some after) :
    after.Sound ∧ after.frame = s.frame ∧ offset + new ≤ s.length ∧
      ∀ x, after.freeCover x + (⟨s.base + (offset + old), new - old⟩ : Span).hits x =
        s.freeCover x := by
  obtain ⟨left, inner, rfl⟩ := Option.map_eq_some_iff.1 extended
  obtain ⟨spaced, upper⟩ := sound.spaced.takeFront inner
  have total := FreeRange.total_takeFront inner
  refine ⟨⟨sound.whole, spaced, ?_⟩, rfl, by omega, FreeRange.cover_takeFront inner s.base⟩
  simp only [sound.counted]
  omega

/-- Bytes of the segment that are not free yet are taken back without a fault. -/
theorem Sound.giveBack {s : Segment} {offset length : Nat} (sound : s.Sound)
    (filled : 0 < length) (fits : offset + length ≤ s.length)
    (clear : ∀ x, (⟨s.base + offset, length⟩ : Span).hits x + s.freeCover x ≤ 1) :
    ∃ after, s.giveBack offset length = .ok after ∧ after.Sound ∧ after.frame = s.frame ∧
      ∀ x, after.freeCover x = s.freeCover x + (⟨s.base + offset, length⟩ : Span).hits x := by
  have between : ∀ r ∈ s.free, r.stop ≤ offset ∨ offset + length ≤ r.start := by
    intro r member
    have apart := Span.apart_of_uncovered (List.mem_map_of_mem member) filled
      (sound.spaced.mem member).2.1 clear
    simp only [Span.Apart, Span.stop, FreeRange.span] at apart
    have stop : r.stop = r.start + r.length := rfl
    omega
  obtain ⟨merged, returned, spaced⟩ :=
    sound.spaced.giveBack filled (Nat.zero_le _) fits between
  have total := FreeRange.total_giveBack returned
  refine ⟨{ s with free := merged, freeBytes := s.freeBytes + length }, ?_,
    ⟨sound.whole, spaced, ?_⟩, rfl, FreeRange.cover_giveBack returned s.base⟩
  · simp only [Segment.giveBack, if_neg (Nat.not_lt.2 fits), returned]
  · simp only [sound.counted, total]

end Segment

end PooledMemory
