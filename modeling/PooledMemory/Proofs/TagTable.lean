import PooledMemory.Proofs.Keyed
import PooledMemory.TagTable

namespace PooledMemory.TagTable

/-- Every tag is in the shard of its address, no address has two of them, and all are counted. -/
structure Sound (t : TagTable) : Prop where
  sorted : ∀ (i : Nat) (s : Shard), t.shards.toList[i]? = some (some s) →
    ∀ e ∈ s, (shardOf e.1).val = i
  unique : (t.toList.map (·.1)).Nodup
  counted : t.count = t.toList.length

/-- The table without the tag of one block, if it had one. -/
def without (t : TagTable) (addr : Address) : TagTable :=
  ((t.remove? addr).map (·.2)).getD t

variable {t : TagTable} {addr : Address} {tag : Tag}

theorem empty_sound : empty.Sound where
  sorted := by
    intro i s found
    have none' : some s ∈ List.replicate 64 (none : Option Shard) := List.mem_of_getElem? found
    cases (List.mem_replicate.1 none').2
  unique := .nil
  counted := rfl

theorem shard_at (t : TagTable) (addr : Address) :
    t.shards.toList[(shardOf addr).val]? = some (t.shard addr) := by
  rw [Vector.getElem?_toList]
  exact Vector.getElem?_eq_getElem (shardOf addr).isLt

theorem Sound.mem_toList_iff (sound : t.Sound) :
    (addr, tag) ∈ t.toList ↔ (addr, tag) ∈ (t.shard addr).getD [] := by
  constructor
  · intro member
    obtain ⟨o, inShards, inside⟩ := List.mem_flatMap.1 member
    cases o with
    | none => simp at inside
    | some s =>
      obtain ⟨i, found⟩ := List.mem_iff_getElem?.1 inShards
      have here := sound.sorted i s found (addr, tag) inside
      rw [← here, shard_at] at found
      rw [Option.some.inj found]
      exact inside
  · intro member
    exact List.mem_flatMap.2 ⟨t.shard addr, List.mem_of_getElem? (shard_at t addr), member⟩

theorem Sound.eq_of_mem (sound : t.Sound) {other : Tag} (member : (addr, tag) ∈ t.toList)
    (member' : (addr, other) ∈ t.toList) : tag = other := by
  have same := List.inj_on_of_nodup_map sound.unique member member' rfl
  exact congrArg Prod.snd same

theorem mem_of_lookup {s : Shard} (found : s.lookup addr = some tag) : (addr, tag) ∈ s := by
  obtain ⟨before, behind, rfl, _⟩ := List.lookup_eq_some_iff.1 found
  simp

theorem Sound.lookup_eq_some_iff (sound : t.Sound) :
    ((t.shard addr).getD []).lookup addr = some tag ↔ (addr, tag) ∈ t.toList := by
  constructor
  · intro found
    exact sound.mem_toList_iff.2 (mem_of_lookup found)
  · intro member
    cases found : ((t.shard addr).getD []).lookup addr with
    | none =>
      have other := List.lookup_eq_none_iff.1 found (addr, tag) (sound.mem_toList_iff.1 member)
      simp at other
    | some other =>
      have member' := sound.mem_toList_iff.2 (mem_of_lookup found)
      rw [sound.eq_of_mem member member']

theorem Sound.lookup_eq_none (sound : t.Sound) (missing : ∀ tag, (addr, tag) ∉ t.toList) :
    ((t.shard addr).getD []).lookup addr = none := by
  cases found : ((t.shard addr).getD []).lookup addr with
  | none => rfl
  | some tag => exact absurd (sound.lookup_eq_some_iff.1 found) (missing tag)

theorem Sound.isEmpty_iff (sound : t.Sound) : t.isEmpty = true ↔ t.toList = [] := by
  rw [isEmpty, beq_iff_eq, sound.counted]
  exact List.length_eq_zero_iff

theorem Sound.isEmpty_of_mem (sound : t.Sound) {e : Address × Tag} (member : e ∈ t.toList) :
    t.isEmpty = false := by
  cases kind : t.isEmpty with
  | true => simp [sound.isEmpty_iff.1 kind] at member
  | false => rfl

theorem shard_lookup (t : TagTable) (addr : Address) :
    (t.shard addr).bind (fun s => s.lookup addr) = ((t.shard addr).getD []).lookup addr := by
  cases t.shard addr with
  | none => rfl
  | some s => rfl

/-- Looking a tag up finds exactly what is recorded, also by way of the shortcut for no tags. -/
theorem Sound.get?_eq_some_iff (sound : t.Sound) :
    t.get? addr = some tag ↔ (addr, tag) ∈ t.toList := by
  unfold get?
  split
  · rename_i nothing
    rw [sound.isEmpty_iff.1 nothing]
    simp
  · rw [shard_lookup, sound.lookup_eq_some_iff]

theorem Sound.owner?_eq_some_iff (sound : t.Sound) {id : PoolId} :
    t.owner? addr = some id ↔ ∃ tag, (addr, tag) ∈ t.toList ∧ tag.pool = id := by
  constructor
  · intro owned
    obtain ⟨tag, found, same⟩ := Option.map_eq_some_iff.1 owned
    exact ⟨tag, sound.get?_eq_some_iff.1 found, same⟩
  · rintro ⟨tag, member, rfl⟩
    exact Option.map_eq_some_iff.2 ⟨tag, sound.get?_eq_some_iff.2 member, rfl⟩

theorem Sound.owner?_eq_none_iff (sound : t.Sound) :
    t.owner? addr = none ↔ ∀ tag, (addr, tag) ∉ t.toList := by
  constructor
  · intro free tag member
    have owned := sound.owner?_eq_some_iff.2 ⟨tag, member, rfl⟩
    rw [free] at owned
    cases owned
  · intro free
    cases owned : t.owner? addr with
    | none => rfl
    | some id =>
      obtain ⟨tag, member, _⟩ := sound.owner?_eq_some_iff.1 owned
      exact absurd member (free tag)

/-- Exchanging the shard of an address changes what is recorded by the difference. -/
theorem setShard_perm (t : TagTable) (addr : Address) (s : Shard) (count : Nat) :
    ((⟨t.shards.set (shardOf addr) (some s) (shardOf addr).isLt, count⟩ : TagTable).toList ++
      (t.shard addr).getD []).Perm (t.toList ++ s) :=
  Keyed.flatMap_set_perm (f := fun s : Option Shard => s.getD []) (y := some s) (shard_at t addr)

theorem Sound.setShard (sound : t.Sound) {s : Shard} {count : Nat}
    (placed : ∀ e ∈ s, shardOf e.1 = shardOf addr) (i : Nat) (other : Shard)
    (found : (⟨t.shards.set (shardOf addr) (some s) (shardOf addr).isLt, count⟩ : TagTable).shards.toList[i]? =
      some (some other)) : ∀ e ∈ other, (shardOf e.1).val = i := by
  intro e member
  rw [Vector.toList_set, List.getElem?_set] at found
  by_cases here : (shardOf addr).val = i
  · rw [if_pos here] at found
    split at found
    · cases found
      rw [placed e member, here]
    · cases found
  · rw [if_neg here] at found
    exact sound.sorted i other found e member

theorem Sound.placed (sound : t.Sound) (addr : Address) :
    ∀ e ∈ (t.shard addr).getD [], shardOf e.1 = shardOf addr := by
  intro e member
  cases known : t.shard addr with
  | none => simp [known] at member
  | some s =>
    rw [known] at member
    exact Fin.ext (sound.sorted _ s (by rw [shard_at, known]) e member)

theorem Sound.insert (sound : t.Sound) (tag : Tag) (fresh : ∀ old, (addr, old) ∉ t.toList) :
    ∃ after, t.insert addr tag = .ok after ∧ after.Sound ∧
      after.toList.Perm ((addr, tag) :: t.toList) := by
  have missing := sound.lookup_eq_none fresh
  have placed : ∀ e ∈ (addr, tag) :: (t.shard addr).getD [], shardOf e.1 = shardOf addr :=
    List.forall_mem_cons.2 ⟨rfl, sound.placed addr⟩
  have swapped := setShard_perm t addr ((addr, tag) :: (t.shard addr).getD []) (t.count + 1)
  have perm := (List.perm_append_right_iff _).1
    (swapped.trans (List.perm_middle.trans (List.Perm.refl ((addr, tag) :: t.toList ++ _))))
  refine ⟨_, ?_, ⟨sound.setShard placed, ?_, ?_⟩, perm⟩
  · simp only [TagTable.insert, missing]
  · refine (perm.map (·.1)).nodup_iff.2 (List.nodup_cons.2 ⟨fun member => ?_, sound.unique⟩)
    obtain ⟨⟨a, old⟩, inList, same⟩ := List.mem_map.1 member
    obtain rfl : a = addr := same
    exact fresh old inList
  · rw [perm.length_eq, List.length_cons, sound.counted]

theorem Sound.remove (sound : t.Sound) (member : (addr, tag) ∈ t.toList) :
    ∃ after, t.remove? addr = some (tag, after) ∧ after.Sound ∧
      t.toList.Perm ((addr, tag) :: after.toList) := by
  have found := sound.lookup_eq_some_iff.2 member
  cases known : t.shard addr with
  | none => simp [known] at found
  | some s =>
    rw [known] at found
    change s.lookup addr = some tag at found
    have inShards := shard_at t addr
    rw [known] at inShards
    have within : s.Sublist t.toList :=
      List.sublist_flatten_of_mem (List.mem_map.2 ⟨some s, List.mem_of_getElem? inShards, rfl⟩)
    have split : s.Perm ((addr, tag) :: s.filter (·.1 != addr)) :=
      Keyed.perm_cons_filter Prod.fst (sound.unique.sublist (within.map _))
        (mem_of_lookup found)
    have swapped := setShard_perm t addr (s.filter (·.1 != addr)) (t.count - 1)
    rw [known] at swapped
    have moved := (split.symm.append_left _).trans swapped
    have perm : ((addr, tag) :: (⟨t.shards.set (shardOf addr) (some (s.filter (·.1 != addr))),
        t.count - 1⟩ : TagTable).toList).Perm t.toList :=
      (List.perm_append_right_iff (s.filter (·.1 != addr))).1 (List.perm_middle.symm.trans moved)
    refine ⟨_, ?_, ⟨sound.setShard fun e inRest => ?_, ?_, ?_⟩, perm.symm⟩
    · simp only [remove?, sound.isEmpty_of_mem member, known, found]
      rfl
    · exact sound.placed addr e (by simpa [known] using List.mem_of_mem_filter inRest)
    · exact (List.nodup_cons.1 ((perm.map (·.1)).nodup_iff.2 sound.unique)).2
    · have length := perm.length_eq
      rw [List.length_cons, ← sound.counted] at length
      exact (Nat.eq_sub_of_add_eq length).symm

/-- A block that is recorded where another one still is takes its place, and the others stay. -/
theorem Sound.insert_of_mem (sound : t.Sound) {old : Tag} (member : (addr, old) ∈ t.toList)
    (tag : Tag) : ∃ after, t.insert addr tag = .error (.taggedTwice addr, after) ∧ after.Sound ∧
      after.toList.Perm ((addr, tag) :: t.toList.filter (·.1 != addr)) := by
  obtain ⟨rest, removed, soundRest, perm⟩ := sound.remove member
  have others := Keyed.filter_perm Prod.fst sound.unique perm
  have fresh : ∀ other, (addr, other) ∉ rest.toList := fun other present => by
    have different := (List.mem_filter.1 (others.symm.subset present)).2
    simp at different
  obtain ⟨after, inserted, soundAfter, perm'⟩ := soundRest.insert tag fresh
  refine ⟨after, ?_, soundAfter, perm'.trans (others.symm.cons _)⟩
  -- the same table is left if the old record is removed first, and the count ends where it was
  have found := sound.lookup_eq_some_iff.2 member
  have counted : t.count - 1 + 1 = t.count :=
    Nat.sub_add_cancel (sound.counted ▸ List.length_pos_of_mem member)
  cases known : t.shard addr with
  | none => simp [known] at found
  | some s =>
    rw [known] at found
    change s.lookup addr = some old at found
    simp only [remove?, sound.isEmpty_of_mem member, known, found] at removed
    cases removed
    have missing : (s.filter (·.1 != addr)).lookup addr = none :=
      List.lookup_eq_none_iff.2 fun e inRest =>
        bne_iff_ne.2 (Ne.symm (bne_iff_ne.1 (List.mem_filter.1 inRest).2))
    simp only [TagTable.insert, shard, Fin.getElem_fin, Vector.getElem_set_self, Option.getD_some,
      missing, Vector.set_set, counted] at inserted
    cases inserted
    simp only [TagTable.insert, known, Option.getD_some, found]

theorem Sound.remove_of_not_mem (sound : t.Sound) (missing : ∀ tag, (addr, tag) ∉ t.toList) :
    t.remove? addr = none := by
  have nothing := sound.lookup_eq_none missing
  unfold remove?
  split
  · rfl
  · cases known : t.shard addr with
    | none => rfl
    | some s =>
      rw [known] at nothing
      change s.lookup addr = none at nothing
      simp only [nothing]

theorem Sound.without (sound : t.Sound) (addr : Address) :
    (t.without addr).Sound ∧ (t.without addr).toList.Perm (t.toList.filter (·.1 != addr)) := by
  by_cases known : ∃ tag, (addr, tag) ∈ t.toList
  · obtain ⟨tag, member⟩ := known
    obtain ⟨after, removed, soundAfter, perm⟩ := sound.remove member
    rw [TagTable.without, removed]
    exact ⟨soundAfter, (Keyed.filter_perm Prod.fst sound.unique perm).symm⟩
  · have missing : ∀ tag, (addr, tag) ∉ t.toList := fun tag member => known ⟨tag, member⟩
    rw [TagTable.without, sound.remove_of_not_mem missing]
    have all : t.toList.filter (·.1 != addr) = t.toList := by
      refine List.filter_eq_self.2 fun e member => ?_
      have other : e.1 ≠ addr := fun same => missing e.2 (same ▸ member)
      simpa using other
    rw [all]
    exact ⟨sound, .refl _⟩

theorem Sound.removeAll (sound : t.Sound) (addrs : List Address) :
    (t.removeAll addrs).Sound ∧
      (t.removeAll addrs).toList.Perm (t.toList.filter fun e => !addrs.contains e.1) := by
  induction addrs generalizing t with
  | nil =>
    have all : (t.toList.filter fun e => !([] : List Address).contains e.1) = t.toList :=
      List.filter_eq_self.2 (by simp)
    rw [all]
    exact ⟨sound, .refl _⟩
  | cons addr rest ih =>
    obtain ⟨soundFirst, first⟩ := sound.without addr
    obtain ⟨soundAll, all⟩ := ih soundFirst
    refine ⟨soundAll, all.trans ((first.filter _).trans (.of_eq ?_))⟩
    rw [List.filter_filter]
    refine List.filter_congr fun e _ => ?_
    by_cases here : e.1 = addr <;> simp [here]

end PooledMemory.TagTable
