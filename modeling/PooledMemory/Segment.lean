import PooledMemory.Fault

namespace PooledMemory

/-- A range of free bytes, by its offset from the base of its segment. -/
structure FreeRange where
  start : Nat
  length : Nat
  deriving DecidableEq, Repr

namespace FreeRange

def stop (r : FreeRange) : Nat := r.start + r.length

/-- A range of this length, or nothing if it is empty. -/
def ofLength (start length : Nat) : List FreeRange :=
  if 0 < length then [⟨start, length⟩] else []

def total (ranges : List FreeRange) : Nat := sumBy (·.length) ranges

theorem total_cons (r : FreeRange) (rest : List FreeRange) :
    total (r :: rest) = r.length + total rest := by
  simp [total]

theorem total_append (ranges more : List FreeRange) :
    total (ranges ++ more) = total ranges + total more := by
  simp [total]

theorem total_ofLength (start length : Nat) : total (ofLength start length) = length := by
  unfold ofLength
  split
  · simp [total]
  · rw [total, sumBy_nil]
    omega

/-- How many bytes are left out at the front of the range so that `chunk` bytes behind them are
aligned, if that many are there. -/
def padding? (r : FreeRange) (base chunk align : Nat) : Option Nat :=
  match Word.add? base r.start with
  | none => none
  | some start =>
    match Word.roundUp? start align with
    | none => none
    | some aligned => if aligned - start + chunk ≤ r.length then some (aligned - start) else none

theorem padding_add_le {r : FreeRange} {base chunk align padding : Nat}
    (fits : r.padding? base chunk align = some padding) : padding + chunk ≤ r.length := by
  unfold padding? at fits
  split at fits
  · cases fits
  · split at fits
    · cases fits
    · split at fits
      · cases fits
        assumption
      · cases fits

/-- What is left of a range when `chunk` bytes behind `padding` others are taken out. -/
def without (r : FreeRange) (padding chunk : Nat) : List FreeRange :=
  ofLength r.start padding ++
    ofLength (r.start + padding + chunk) (r.length - (padding + chunk))

theorem total_without {r : FreeRange} {padding chunk : Nat} (fits : padding + chunk ≤ r.length) :
    total (r.without padding chunk) + chunk = r.length := by
  rw [without, total_append, total_ofLength, total_ofLength]
  omega

/-- Takes `chunk` aligned bytes out of the first range that has them, and answers their offset. -/
def carve (base chunk align : Nat) : List FreeRange → Option (Nat × List FreeRange)
  | [] => none
  | r :: rest =>
    match r.padding? base chunk align with
    | some padding => some (r.start + padding, r.without padding chunk ++ rest)
    | none => (carve base chunk align rest).map fun (offset, left) => (offset, r :: left)

theorem total_carve {base chunk align offset : Nat} {ranges left : List FreeRange}
    (carved : carve base chunk align ranges = some (offset, left)) :
    total left + chunk = total ranges := by
  induction ranges generalizing left with
  | nil => cases carved
  | cons r rest ih =>
    simp only [carve] at carved
    split at carved
    · rename_i padding fits
      cases carved
      have parts := total_without (padding_add_le fits)
      rw [total_append, total_cons]
      omega
    · obtain ⟨⟨later, tail⟩, inner, same⟩ := Option.map_eq_some_iff.1 carved
      cases same
      have behind := ih inner
      change total (r :: tail) + chunk = _
      rw [total_cons, total_cons]
      omega

/-- Takes `needed` bytes off the front of the range that starts at `next`. -/
def takeFront (next needed : Nat) : List FreeRange → Option (List FreeRange)
  | [] => none
  | r :: rest =>
    if r.start = next then
      if r.length < needed then none else some (ofLength (next + needed) (r.length - needed) ++ rest)
    else (takeFront next needed rest).map (r :: ·)

theorem total_takeFront {next needed : Nat} {ranges left : List FreeRange}
    (taken : takeFront next needed ranges = some left) : total left + needed = total ranges := by
  induction ranges generalizing left with
  | nil => cases taken
  | cons r rest ih =>
    simp only [takeFront] at taken
    split at taken
    · split at taken
      · cases taken
      · cases taken
        rw [total_append, total_ofLength, total_cons]
        omega
    · obtain ⟨tail, inner, rfl⟩ := Option.map_eq_some_iff.1 taken
      have behind := ih inner
      rw [total_cons, total_cons]
      omega

/-- Adds a range and merges it with the ranges that touch it. -/
def giveBack (start length : Nat) : List FreeRange → Except Fault (List FreeRange)
  | [] => .ok [⟨start, length⟩]
  | r :: rest =>
    if r.start < start then
      if start < r.stop then .error (.rangeAlreadyFree start)
      else if r.stop = start then giveBack r.start (r.length + length) rest
      else
        match giveBack start length rest with
        | .ok merged => .ok (r :: merged)
        | .error fault => .error fault
    else if r.start = start + length then .ok (⟨start, length + r.length⟩ :: rest)
    else .ok (⟨start, length⟩ :: r :: rest)

theorem total_giveBack {start length : Nat} {ranges merged : List FreeRange}
    (returned : giveBack start length ranges = .ok merged) :
    total merged = total ranges + length := by
  induction ranges generalizing start length merged with
  | nil =>
    cases returned
    simp [total]
  | cons r rest ih =>
    simp only [giveBack] at returned
    split at returned
    · split at returned
      · cases returned
      · split at returned
        · have joined := ih returned
          rw [total_cons]
          omega
        · split at returned
          · rename_i tail inner
            cases returned
            have behind := ih inner
            rw [total_cons, total_cons]
            omega
          · cases returned
    · split at returned
      · cases returned
        simp only [total_cons]
        omega
      · cases returned
        simp only [total_cons]
        omega

end FreeRange

/-- A granule of address space obtained from the system heap. -/
structure Segment where
  base : Address
  length : Nat
  /-- The free ranges by ascending offset. Ranges that touch are merged. -/
  free : List FreeRange
  /-- The number of bytes in the free ranges. -/
  freeBytes : Nat
  deriving DecidableEq, Repr

namespace Segment

def fresh (base length : Nat) : Segment := ⟨base, length, [⟨0, length⟩], length⟩

def contains (s : Segment) (addr : Address) : Bool :=
  decide (s.base ≤ addr) && decide (addr < s.base + s.length)

def isUnused (s : Segment) : Bool := s.freeBytes == s.length

/-- Takes `chunk` bytes aligned to `align` from the first free range that can hold them. -/
def carve (s : Segment) (chunk align : Nat) : Option (Address × Segment) :=
  (FreeRange.carve s.base chunk align s.free).map fun (offset, free) =>
    (s.base + offset, { s with free, freeBytes := s.freeBytes - chunk })

def extend (s : Segment) (offset old new : Nat) : Option Segment :=
  (FreeRange.takeFront (offset + old) (new - old) s.free).map fun free =>
    { s with free, freeBytes := s.freeBytes - (new - old) }

/-- Makes the `length` bytes from `offset` on free again. -/
def giveBack (s : Segment) (offset length : Nat) : Except Fault Segment :=
  if s.length < offset + length then .error .pastSegmentEnd
  else
    match FreeRange.giveBack offset length s.free with
    | .ok free => .ok { s with free, freeBytes := s.freeBytes + length }
    | .error fault => .error fault

end Segment

end PooledMemory
