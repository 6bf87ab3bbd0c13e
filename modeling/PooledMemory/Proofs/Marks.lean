import Mathlib.Data.List.Perm.Basic
import PooledMemory.Marks

namespace PooledMemory.Marks

/-- The marked addresses. -/
def marked (k : Marks) : List Address := k.slots.filter (· != 0)

/-- No address is marked twice, and the marks are counted. -/
structure Sound (k : Marks) : Prop where
  once : k.marked.Nodup
  count : k.count = k.marked.length

variable {k : Marks} {addr other : Address}

theorem empty_sound : empty.Sound := ⟨by decide, by decide⟩

theorem replaceFirst_split {old new : Address} {slots replaced : List Address}
    (found : replaceFirst old new slots = some replaced) :
    ∃ front back, slots = front ++ old :: back ∧ replaced = front ++ new :: back := by
  induction slots generalizing replaced with
  | nil => cases found
  | cons a rest ih =>
    simp only [replaceFirst] at found
    split at found
    · rename_i here
      cases found
      exact ⟨[], rest, congrArg (· :: rest) here, rfl⟩
    · obtain ⟨tail, inner, rfl⟩ := Option.map_eq_some_iff.1 found
      obtain ⟨front, back, rfl, rfl⟩ := ih inner
      exact ⟨a :: front, back, rfl, rfl⟩

theorem mem_marked_iff (real : addr ≠ 0) : addr ∈ k.marked ↔ addr ∈ k.slots := by
  simp [marked, real]

theorem Sound.contains_iff (sound : k.Sound) (real : addr ≠ 0) :
    k.contains addr = true ↔ addr ∈ k.marked := by
  rw [mem_marked_iff real, contains, Bool.and_eq_true, decide_eq_true_iff, List.contains_iff_mem]
  refine ⟨And.right, fun inSlots => ⟨?_, inSlots⟩⟩
  rw [sound.count]
  exact List.length_pos_of_mem ((mem_marked_iff real).2 inSlots)

theorem insert_of_mem (present : addr ∈ k.slots) : k.insert addr = k :=
  if_pos (List.contains_iff_mem.2 present)

theorem insert_of_full (full : 0 ∉ k.slots) : k.insert addr = k := by
  unfold Marks.insert
  split
  · rfl
  · rw [replaceFirst_eq_none_iff.2 full]

/-- A slot that is vacant in one and marked in the other makes the whole difference. -/
theorem marked_perm (real : addr ≠ 0) (front back : List Address) (before after : Nat) :
    (⟨front ++ addr :: back, after⟩ : Marks).marked.Perm
      (addr :: (⟨front ++ 0 :: back, before⟩ : Marks).marked) := by
  rw [marked, marked, List.filter_append, List.filter_append,
    List.filter_cons_of_pos (by simpa using real), List.filter_cons_of_neg (by simp)]
  exact List.perm_middle

theorem insert_of_vacant (missing : addr ∉ k.slots) (vacant : 0 ∈ k.slots) :
    (k.insert addr).marked.Perm (addr :: k.marked) ∧ (k.insert addr).count = k.count + 1 := by
  have real : addr ≠ 0 := fun null => missing (null ▸ vacant)
  obtain ⟨slots, count⟩ := k
  unfold Marks.insert
  rw [if_neg fun present => missing (List.contains_iff_mem.1 present)]
  cases found : replaceFirst 0 addr slots with
  | none => exact absurd vacant (replaceFirst_eq_none_iff.1 found)
  | some replaced =>
    obtain ⟨front, back, rfl, rfl⟩ := replaceFirst_split found
    exact ⟨marked_perm real .., rfl⟩

/-- A mark is new, or it is ignored since it is there already or there is no room for it. -/
theorem Sound.insert (sound : k.Sound) (addr : Address) : (k.insert addr).Sound ∧
    (k.insert addr = k ∨ (k.insert addr).marked.Perm (addr :: k.marked)) := by
  by_cases present : addr ∈ k.slots
  · rw [insert_of_mem present]
    exact ⟨sound, .inl rfl⟩
  by_cases vacant : 0 ∈ k.slots
  · obtain ⟨grown, count⟩ := insert_of_vacant present vacant
    have fresh : addr ∉ k.marked := fun member => present (List.mem_of_mem_filter member)
    refine ⟨⟨grown.nodup_iff.2 (List.nodup_cons.2 ⟨fresh, sound.once⟩), ?_⟩, .inr grown⟩
    rw [count, grown.length_eq, List.length_cons, sound.count]
  · rw [insert_of_full vacant]
    exact ⟨sound, .inl rfl⟩

theorem erase_of_not_mem (missing : addr ∉ k.slots) : k.erase addr = k := by
  unfold Marks.erase
  rw [replaceFirst_eq_none_iff.2 missing]

theorem erase_of_mem (real : addr ≠ 0) (present : addr ∈ k.slots) :
    k.marked.Perm (addr :: (k.erase addr).marked) ∧ (k.erase addr).count = k.count - 1 := by
  obtain ⟨slots, count⟩ := k
  unfold Marks.erase
  cases found : replaceFirst addr 0 slots with
  | none => exact absurd present (replaceFirst_eq_none_iff.1 found)
  | some replaced =>
    obtain ⟨front, back, rfl, rfl⟩ := replaceFirst_split found
    exact ⟨marked_perm real .., rfl⟩

/-- An address of a block that is unmarked is not marked any more. -/
theorem Sound.erase (sound : k.Sound) (real : addr ≠ 0) : (k.erase addr).Sound ∧
    addr ∉ (k.erase addr).marked ∧ (k.erase addr).marked ⊆ k.marked := by
  by_cases present : addr ∈ k.slots
  · obtain ⟨shrunk, count⟩ := erase_of_mem real present
    obtain ⟨fresh, once⟩ := List.nodup_cons.1 (shrunk.nodup_iff.1 sound.once)
    refine ⟨⟨once, ?_⟩, fresh, fun a member => shrunk.symm.subset (List.mem_cons_of_mem _ member)⟩
    rw [count, sound.count, shrunk.length_eq, List.length_cons, Nat.add_sub_cancel]
  · rw [erase_of_not_mem present]
    exact ⟨sound, fun member => present (List.mem_of_mem_filter member), List.Subset.refl _⟩

theorem Sound.contains_insert (sound : k.Sound) (real : addr ≠ 0)
    (marked : (k.insert other).contains addr = true) : addr = other ∨ k.contains addr = true := by
  obtain ⟨sound', same | grown⟩ := sound.insert other
  · exact .inr (same ▸ marked)
  · have member := grown.subset ((sound'.contains_iff real).1 marked)
    exact (List.mem_cons.1 member).imp_right (sound.contains_iff real).2

theorem Sound.contains_erase (sound : k.Sound) (real : addr ≠ 0) (real' : other ≠ 0)
    (marked : (k.erase other).contains addr = true) : addr ≠ other ∧ k.contains addr = true := by
  obtain ⟨sound', gone, fewer⟩ := sound.erase real'
  have member := (sound'.contains_iff real).1 marked
  exact ⟨fun same => gone (same ▸ member), (sound.contains_iff real).2 (fewer member)⟩

end PooledMemory.Marks
