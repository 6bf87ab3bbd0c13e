import PooledMemory.Word

namespace PooledMemory

/-- A bounded set of addresses whose blocks must not be released. Zero stands for a vacant slot;
the number of the others is kept apart, so that an empty set is recognised at once. -/
structure Marks where
  slots : List Address
  count : Nat
  deriving DecidableEq, Repr

namespace Marks

def capacity : Nat := 32

def empty : Marks := ⟨List.replicate capacity 0, 0⟩

/-- Replaces the first slot that holds `old`, if there is one. -/
def replaceFirst (old new : Address) : List Address → Option (List Address)
  | [] => none
  | a :: rest => if a = old then some (new :: rest) else (replaceFirst old new rest).map (a :: ·)

theorem replaceFirst_eq_none_iff {old new : Address} {slots : List Address} :
    replaceFirst old new slots = none ↔ old ∉ slots := by
  induction slots with
  | nil => simp [replaceFirst]
  | cons a rest ih =>
    by_cases here : a = old
    · simp [replaceFirst, here]
    · simp [replaceFirst, here, ih, Ne.symm here]

theorem length_replaceFirst {old new : Address} {slots replaced : List Address}
    (found : replaceFirst old new slots = some replaced) : replaced.length = slots.length := by
  induction slots generalizing replaced with
  | nil => cases found
  | cons a rest ih =>
    simp only [replaceFirst] at found
    split at found
    · cases found
      rfl
    · obtain ⟨tail, inner, rfl⟩ := Option.map_eq_some_iff.1 found
      simp [ih inner]

/-- Marks a block. A mark beyond the capacity is ignored. -/
def insert (m : Marks) (addr : Address) : Marks :=
  if m.slots.contains addr then m
  else
    match replaceFirst 0 addr m.slots with
    | some slots => ⟨slots, m.count + 1⟩
    | none => m

def erase (m : Marks) (addr : Address) : Marks :=
  match replaceFirst addr 0 m.slots with
  | some slots => ⟨slots, m.count - 1⟩
  | none => m

theorem length_insert (m : Marks) (addr : Address) :
    (m.insert addr).slots.length = m.slots.length := by
  unfold insert
  split
  · rfl
  · split
    · rename_i found
      exact length_replaceFirst found
    · rfl

theorem length_erase (m : Marks) (addr : Address) :
    (m.erase addr).slots.length = m.slots.length := by
  unfold erase
  split
  · rename_i found
    exact length_replaceFirst found
  · rfl

def contains (m : Marks) (addr : Address) : Bool := decide (0 < m.count) && m.slots.contains addr

end Marks

end PooledMemory
