import Mathlib.Data.Finset.Card
import PooledMemory.Proofs.Machine.Reachable
import PooledMemory.Proofs.Machine.Undisturbed
import PooledMemory.Proofs.Marks

namespace PooledMemory

namespace Marks

/-- Adds an address to a set, unless it is new and the set is full. -/
def enter (s : Finset Address) (addr : Address) : Finset Address :=
  if addr ∉ s ∧ s.card = capacity then s else s ∪ {addr}

/-- Each element of the set has one of the slots, and the others are vacant. -/
structure Holds (k : Marks) (s : Finset Address) : Prop where
  sound : k.Sound
  length : k.slots.length = capacity
  same : ∀ addr, addr ∈ k.marked ↔ addr ∈ s

variable {k : Marks} {s : Finset Address} {addr other : Address}

theorem empty_holds : empty.Holds ∅ where
  sound := empty_sound
  length := List.length_replicate
  same := fun addr => by
    have nothing : empty.marked = [] := by decide
    simp [nothing]

theorem Holds.count_eq (holds : k.Holds s) : k.count = s.card := by
  have all : k.marked.toFinset = s :=
    Finset.ext fun addr => by rw [List.mem_toFinset, holds.same]
  rw [holds.sound.count, ← all, List.toFinset_card_of_nodup holds.sound.once]

theorem Holds.card_le (holds : k.Holds s) : s.card ≤ capacity := by
  rw [← holds.count_eq, holds.sound.count, ← holds.length]
  exact List.length_filter_le ..

theorem Holds.card_lt_iff (holds : k.Holds s) : s.card < capacity ↔ 0 ∈ k.slots := by
  rw [← holds.count_eq, holds.sound.count, ← holds.length, marked,
    List.length_filter_lt_length_iff_exists]
  simp

theorem Holds.mem_slots_iff (holds : k.Holds s) (real : addr ≠ 0) : addr ∈ k.slots ↔ addr ∈ s := by
  rw [← holds.same, mem_marked_iff real]

theorem Holds.contains_iff (holds : k.Holds s) (real : addr ≠ 0) :
    k.contains addr = true ↔ addr ∈ s := by
  rw [holds.sound.contains_iff real, holds.same]

theorem Holds.insert (holds : k.Holds s) (real : addr ≠ 0) : (k.insert addr).Holds (enter s addr) := by
  refine ⟨(holds.sound.insert addr).1, (length_insert k addr).trans holds.length, fun a => ?_⟩
  by_cases present : addr ∈ s
  · rw [insert_of_mem ((holds.mem_slots_iff real).2 present), holds.same, enter,
      if_neg fun new => new.1 present, Finset.union_eq_left.2 (Finset.singleton_subset_iff.2 present)]
  have missing : addr ∉ k.slots := fun inSlots => present ((holds.mem_slots_iff real).1 inSlots)
  by_cases vacant : 0 ∈ k.slots
  · have room := holds.card_lt_iff.2 vacant
    rw [(insert_of_vacant missing vacant).1.mem_iff, List.mem_cons, holds.same, enter,
      if_neg fun full => room.ne full.2, Finset.mem_union, Finset.mem_singleton, or_comm]
  · have full := holds.card_le.antisymm (Nat.not_lt.1 fun room => vacant (holds.card_lt_iff.1 room))
    rw [insert_of_full vacant, holds.same, enter, if_pos ⟨present, full⟩]

theorem Holds.erase (holds : k.Holds s) (real : addr ≠ 0) : (k.erase addr).Holds (s.erase addr) := by
  refine ⟨(holds.sound.erase real).1, (length_erase k addr).trans holds.length, fun a => ?_⟩
  rw [Finset.mem_erase]
  by_cases present : addr ∈ k.slots
  · have shrunk := (erase_of_mem real present).1
    have fresh := (List.nodup_cons.1 (shrunk.nodup_iff.1 holds.sound.once)).1
    rw [← holds.same, shrunk.mem_iff, List.mem_cons]
    constructor
    · intro member
      exact ⟨fun same => fresh (same ▸ member), .inr member⟩
    · rintro ⟨other, here | member⟩
      · exact absurd here other
      · exact member
  · rw [erase_of_not_mem present, holds.same, iff_and_self]
    rintro member rfl
    exact present ((holds.mem_slots_iff real).2 member)

/-- The slots are a set that has room for a fixed number of addresses. The count tells their number,
and what it says of no marks is never wrong. One call takes back any number of marks on an address,
and its slot is then there for any other. -/
structure Shows (k : Marks) (s : Finset Address) : Prop where
  length : k.slots.length = capacity
  once : (k.slots.filter (· != 0)).Nodup
  counted : k.count = (k.slots.filter (· != 0)).length
  card : k.count = s.card
  contains : ∀ addr, addr ≠ 0 → (k.contains addr = true ↔ addr ∈ s)
  shortcut : ∀ addr, addr ≠ 0 → k.contains addr = k.slots.contains addr
  again : ∀ addr, addr ≠ 0 → (((k.insert addr).insert addr).erase addr).contains addr = false
  reused : ∀ addr other, addr ≠ 0 → other ≠ 0 → k.contains other = true →
    ((k.erase other).insert addr).contains addr = true

theorem Holds.shows (holds : k.Holds s) : k.Shows s where
  length := holds.length
  once := holds.sound.once
  counted := holds.sound.count
  card := holds.count_eq
  contains := fun _ real => holds.contains_iff real
  shortcut := fun addr real => by
    rw [Bool.eq_iff_iff, holds.contains_iff real, List.contains_iff_mem, holds.mem_slots_iff real]
  again := fun addr real => by
    have gone := ((holds.insert real).insert real).erase real
    rw [Bool.eq_false_iff, Ne, gone.contains_iff real]
    exact Finset.notMem_erase addr _
  reused := fun addr other real real' marked => by
    have present := (holds.contains_iff real').1 marked
    have room := (Finset.card_erase_lt_of_mem present).trans_le holds.card_le
    rw [((holds.erase real').insert real).contains_iff real, enter,
      if_neg fun full => room.ne full.2]
    exact Finset.mem_union_right _ (Finset.mem_singleton_self addr)

end Marks

namespace Call

/-- The address that a call marks, or takes a mark from. -/
def marking? : Call → Option Address
  | mark addr => some addr
  | unmark addr => some addr
  | _ => none

/-- What a call does to the set of the marked addresses. -/
def watch (s : Finset Address) : Call → Finset Address
  | mark addr => Marks.enter s addr
  | unmark addr => s.erase addr
  | _ => s

end Call

variable {k : Marks} {s : Finset Address}

theorem Marks.Holds.remark (holds : k.Holds s) {c : Call} (real : c.marking? ≠ some 0) :
    (c.remark k).Holds (c.watch s) := by
  cases c with
  | mark addr => exact holds.insert fun null => real (congrArg some null)
  | unmark addr => exact holds.erase fun null => real (congrArg some null)
  | _ => exact holds

theorem Marks.Holds.runAll {m : Machine} (holds : m.marks.Holds s) (calls : List Call)
    (real : ∀ c ∈ calls, c.marking? ≠ some 0) :
    (Call.runAll calls m).marks.Holds (calls.foldl Call.watch s) := by
  induction calls generalizing m s with
  | nil => exact holds
  | cons c rest ih =>
    obtain ⟨first, others⟩ := List.forall_mem_cons.1 real
    refine ih ?_ others
    rw [c.run_marks]
    exact holds.remark first

/-- Whatever programs do, and whether it succeeds, the marks are the set that the calls describe. No
block is at address zero. -/
theorem Machine.marks_as_set (slots : List Nat) (calls : List Call)
    (real : ∀ c ∈ calls, c.marking? ≠ some 0) :
    (Call.runAll calls (.start slots)).marks.Shows (calls.foldl Call.watch ∅) :=
  (Marks.empty_holds.runAll calls real).shows

/-- One block more is marked than there are slots. Then a slot among the others becomes vacant. -/
def crowding : List Call :=
  (List.range 33).map (fun i => .mark (16 * (i + 1))) ++ [.mark 80, .unmark 80, .mark 4096]

theorem crowding_as_set :
    (∀ c ∈ crowding, c.marking? ≠ some 0) ∧
      [16, 80, 528, 4096].map (Call.runAll crowding (.start [])).marks.contains =
        [true, false, false, true] ∧
      (Call.runAll crowding (.start [])).marks.Shows (crowding.foldl Call.watch ∅) :=
  ⟨by decide, by decide +kernel, Machine.marks_as_set [] crowding (by decide)⟩

end PooledMemory
