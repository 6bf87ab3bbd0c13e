import Mathlib.Data.List.Nodup
import Mathlib.Data.List.Perm.Basic

namespace PooledMemory.Keyed

variable {α β : Type} (key : α → Nat) {xs : List α}

/-- If keys are unique, one element and those with other keys are all. -/
theorem perm_cons_filter {x : α} (unique : (xs.map key).Nodup) (member : x ∈ xs) :
    xs.Perm (x :: xs.filter fun y => key y != key x) := by
  induction xs with
  | nil => simp at member
  | cons first rest ih =>
    obtain ⟨fresh, uniqueRest⟩ := List.nodup_cons.1 unique
    rcases List.mem_cons.1 member with rfl | later
    · have others : (rest.filter fun y => key y != key x) = rest := by
        refine List.filter_eq_self.2 fun y inRest => ?_
        have other : key y ≠ key x := fun same => fresh (List.mem_map.2 ⟨y, inRest, same⟩)
        simpa using other
      rw [List.filter_cons, others]
      simp
    · have other : key first ≠ key x := fun same => fresh (List.mem_map.2 ⟨x, later, same.symm⟩)
      rw [List.filter_cons_of_pos (by simpa using other)]
      exact ((ih uniqueRest later).cons first).trans (.swap ..)

theorem filter_perm {x : α} {others : List α} (unique : (xs.map key).Nodup)
    (perm : xs.Perm (x :: others)) : (xs.filter fun y => key y != key x).Perm others := by
  have member : x ∈ xs := perm.mem_iff.2 (List.mem_cons_self ..)
  exact ((perm_cons_filter key unique member).symm.trans perm).cons_inv

/-- If keys are unique, a change at one key exchanges one element. -/
theorem map_perm {x : α} {f : α → α} (unique : (xs.map key).Nodup) (member : x ∈ xs) :
    (xs.map fun y => if key y = key x then f y else y).Perm
      (f x :: xs.filter fun y => key y != key x) := by
  have perm := (perm_cons_filter key unique member).map fun y => if key y = key x then f y else y
  have others : ((xs.filter fun y => key y != key x).map fun y => if key y = key x then f y else y) =
      xs.filter fun y => key y != key x := by
    refine (List.map_congr_left fun y inOthers => if_neg ?_).trans (List.map_id' _)
    have other := (List.mem_filter.1 inOthers).2
    simpa using other
  rw [List.map_cons, if_pos rfl, others] at perm
  exact perm

theorem swap_perm (x y : α) (xs ys : List α) : (x :: xs ++ y :: ys).Perm (y :: xs ++ x :: ys) :=
  ((List.perm_middle.cons x).trans (.swap ..)).trans (List.perm_middle.symm.cons y)

theorem flatMap_set_perm {f : α → List β} {i : Nat} {x y : α} (found : xs[i]? = some x) :
    ((xs.set i y).flatMap f ++ f x).Perm (xs.flatMap f ++ f y) := by
  induction xs generalizing i with
  | nil => simp at found
  | cons first rest ih =>
    cases i with
    | zero =>
      cases Option.some.inj found
      rw [List.set_cons_zero, List.flatMap_cons, List.flatMap_cons]
      refine List.perm_append_comm.trans ?_
      rw [List.append_assoc]
      exact List.Perm.append_left _ List.perm_append_comm
    | succ i =>
      have behind := ih (i := i) (by simpa using found)
      rw [List.set_cons_succ, List.flatMap_cons, List.flatMap_cons, List.append_assoc,
        List.append_assoc]
      exact behind.append_left _

/-- Elements that contribute nothing may be left out. -/
theorem flatMap_filter {f : α → List β} {keep : α → Bool}
    (others : ∀ x ∈ xs, keep x = false → f x = []) :
    (xs.filter keep).flatMap f = xs.flatMap f := by
  induction xs with
  | nil => rfl
  | cons x rest ih =>
    obtain ⟨here, later⟩ := List.forall_mem_cons.1 others
    cases kept : keep x with
    | true => rw [List.filter_cons_of_pos kept, List.flatMap_cons, List.flatMap_cons, ih later]
    | false =>
      rw [List.filter_cons_of_neg (by simp [kept]), List.flatMap_cons, here kept, ih later,
        List.nil_append]

end PooledMemory.Keyed
