import Mathlib.Tactic.ByContra
import PooledMemory.Word

namespace PooledMemory

/-- A range of bytes. -/
structure Span where
  addr : Nat
  size : Nat
  deriving DecidableEq, Repr

namespace Span

def stop (s : Span) : Nat := s.addr + s.size

def has (s : Span) (x : Nat) : Bool := decide (s.addr ≤ x) && decide (x < s.stop)

/-- One span ends before the other begins. -/
def Apart (s t : Span) : Prop := s.stop ≤ t.addr ∨ t.stop ≤ s.addr

/-- One span lies in the other. -/
def Within (s t : Span) : Prop := t.addr ≤ s.addr ∧ s.stop ≤ t.stop

/-- How many of the spans an address lies in. -/
def cover (spans : List Span) (x : Nat) : Nat := spans.countP (·.has x)

/-- One in the span and zero elsewhere. -/
def hits (s : Span) (x : Nat) : Nat := if s.addr ≤ x ∧ x < s.stop then 1 else 0

theorem has_iff {s : Span} {x : Nat} : s.has x = true ↔ s.addr ≤ x ∧ x < s.stop := by
  simp [has]

theorem hits_of_has {s : Span} {x : Nat} (lower : s.addr ≤ x) (upper : x < s.stop) :
    s.hits x = 1 := if_pos ⟨lower, upper⟩

theorem has_of_hits {s : Span} {x : Nat} (hit : s.hits x = 1) : s.has x = true := by
  unfold hits at hit
  split at hit
  · exact has_iff.2 ‹_›
  · cases hit

theorem hits_of_size_zero {s : Span} (nothing : s.size = 0) (x : Nat) : s.hits x = 0 := by
  refine if_neg fun inside => ?_
  have upper := inside.2
  rw [stop, nothing] at upper
  omega

theorem hits_le_one (s : Span) (x : Nat) : s.hits x ≤ 1 := by
  unfold hits
  split <;> omega

theorem hits_split (addr front back : Nat) (x : Nat) :
    (⟨addr, front + back⟩ : Span).hits x =
      (⟨addr, front⟩ : Span).hits x + (⟨addr + front, back⟩ : Span).hits x := by
  simp only [hits, stop]
  grind

theorem Within.hits_le {s t : Span} (inside : s.Within t) (x : Nat) : s.hits x ≤ t.hits x := by
  unfold Within at inside
  unfold hits
  split <;> split <;> omega

theorem Apart.mono {s t u : Span} (apart : s.Apart t) (within : u.Within t) : s.Apart u := by
  unfold Apart Within at *
  omega

theorem within_of_le {addr len size : Nat} (le : len ≤ size) :
    (⟨addr, len⟩ : Span).Within ⟨addr, size⟩ :=
  ⟨Nat.le_refl _, Nat.add_le_add_left le _⟩

theorem exists_common {s t : Span} (filled : 0 < s.size) (filled' : 0 < t.size)
    (overlap : ¬ s.Apart t) : ∃ x, s.hits x = 1 ∧ t.hits x = 1 := by
  unfold Apart stop at overlap
  refine ⟨max s.addr t.addr, hits_of_has (Nat.le_max_left ..) ?_,
    hits_of_has (Nat.le_max_right ..) ?_⟩
  · show max s.addr t.addr < s.addr + s.size
    omega
  · show max s.addr t.addr < t.addr + t.size
    omega

@[simp] theorem cover_nil (x : Nat) : cover [] x = 0 := rfl

@[simp] theorem cover_cons (s : Span) (rest : List Span) (x : Nat) :
    cover (s :: rest) x = s.hits x + cover rest x := by
  have same : s.hits x = if s.has x = true then 1 else 0 := by
    simp only [hits, has_iff]
  rw [same, cover, List.countP_cons, Nat.add_comm]
  rfl

@[simp] theorem cover_append (spans more : List Span) (x : Nat) :
    cover (spans ++ more) x = cover spans x + cover more x :=
  List.countP_append

theorem cover_perm {spans others : List Span} (perm : spans.Perm others) (x : Nat) :
    cover spans x = cover others x :=
  perm.countP_eq _

theorem hits_le_cover {s : Span} {spans : List Span} (member : s ∈ spans) (x : Nat) :
    s.hits x ≤ cover spans x := by
  induction spans with
  | nil => simp at member
  | cons t rest ih =>
    rw [cover_cons]
    rcases List.mem_cons.1 member with rfl | later
    · omega
    · have behind := ih later
      omega

theorem cover_pos {s : Span} {spans : List Span} (member : s ∈ spans) {x : Nat}
    (inside : s.has x = true) : 0 < cover spans x :=
  List.countP_pos_iff.2 ⟨s, member, inside⟩

/-- Spans that cover no byte twice are apart from each other. -/
theorem pairwise_apart {spans : List Span} (filled : ∀ s ∈ spans, 0 < s.size)
    (once : ∀ x, cover spans x ≤ 1) : spans.Pairwise Apart := by
  induction spans with
  | nil => exact .nil
  | cons s rest ih =>
    refine .cons (fun t member => ?_) (ih (fun t member => filled t (List.mem_cons_of_mem _ member))
      fun x => ?_)
    · by_contra overlap
      obtain ⟨x, inFirst, inOther⟩ := exists_common (filled s (List.mem_cons_self ..))
        (filled t (List.mem_cons_of_mem _ member)) overlap
      have total := once x
      have part := hits_le_cover member x
      rw [cover_cons] at total
      omega
    · have total := once x
      rw [cover_cons] at total
      omega

theorem starts_nodup {spans : List Span} (apart : spans.Pairwise Apart)
    (filled : ∀ s ∈ spans, 0 < s.size) : (spans.map (·.addr)).Nodup := by
  refine List.pairwise_map.2 (apart.imp_of_mem fun {s t} member member' clear same => ?_)
  have size := filled s member
  have size' := filled t member'
  unfold Apart stop at clear
  omega

/-- Spans that are apart from each other cover no byte twice. -/
theorem cover_le_one {spans : List Span} (apart : spans.Pairwise Apart) (x : Nat) :
    cover spans x ≤ 1 := by
  induction apart with
  | nil => simp
  | @cons s rest first _ ih =>
    rw [cover_cons]
    by_cases inside : s.addr ≤ x ∧ x < s.stop
    · have outside : cover rest x = 0 := by
        refine List.countP_eq_zero.2 fun t member => ?_
        have clear := first t member
        unfold Apart at clear
        rw [has_iff]
        omega
      rw [outside]
      exact hits_le_one s x
    · rw [hits, if_neg inside, Nat.zero_add]
      assumption

/-- A span whose bytes are not covered is apart from all the spans. -/
theorem apart_of_uncovered {s t : Span} {spans : List Span} (member : t ∈ spans)
    (filled : 0 < s.size) (filled' : 0 < t.size)
    (clear : ∀ x, s.hits x + cover spans x ≤ 1) : s.Apart t := by
  by_contra overlap
  obtain ⟨x, inFirst, inOther⟩ := exists_common filled filled' overlap
  have total := clear x
  have part := hits_le_cover member x
  omega

end Span

end PooledMemory
