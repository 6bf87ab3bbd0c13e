import Mathlib.Data.Finmap
import PooledMemory.Proofs.TagTable

namespace PooledMemory

/-- The tags of blocks by their addresses, in one piece. -/
abbrev TagMap := Finmap fun _ : Address => Tag

namespace TagTable

/-- What a table is asked for. -/
inductive Operation
  | insert (addr : Address) (tag : Tag)
  | resolve (addr : Address)
  | remove (addr : Address)
  | move (source target : Address)
  deriving DecidableEq, Repr

inductive Answer
  | done
  | owner (pool : Option PoolId)
  | removed (tag : Option Tag)
  | stopped (fault : Fault)
  deriving DecidableEq, Repr

/-- What a change to a table answers and leaves behind, also where a fault has come up. -/
def settle : Except (Fault × TagTable) TagTable → Answer × TagTable
  | .ok t => (.done, t)
  | .error (fault, t) => (.stopped fault, t)

/-- Records a tag. It is a fault if it replaces another one. -/
def record (f : TagMap) (addr : Address) (tag : Tag) : Answer × TagMap :=
  (if addr ∈ f then .stopped (.taggedTwice addr) else .done, f.insert addr tag)

namespace Operation

def run (t : TagTable) : Operation → Answer × TagTable
  | insert addr tag => settle (t.insert addr tag)
  | resolve addr => (.owner (t.owner? addr), t)
  | remove addr =>
    match t.remove? addr with
    | none => (.removed none, t)
    | some (tag, t) => (.removed (some tag), t)
  | move source target => settle (t.move source target)

/-- What an operation answers from a map, and does to it. -/
def follow (f : TagMap) : Operation → Answer × TagMap
  | insert addr tag => record f addr tag
  | resolve addr => (.owner ((f.lookup addr).map (·.pool)), f)
  | remove addr => (.removed (f.lookup addr), f.erase addr)
  | move source target =>
    match f.lookup source with
    | none => (.done, f)
    | some tag => record (f.erase source) target tag

/-- Carries out operations one after the other, also after a fault, and collects what they answer. -/
def runAll {σ : Type} (step : σ → Operation → Answer × σ) : List Operation → σ → List Answer × σ
  | [], s => ([], s)
  | o :: rest, s =>
    let (answer, s) := step s o
    let (answers, s) := runAll step rest s
    (answer :: answers, s)

end Operation

/-- The table holds the tags of the map, each in the shard of its address. -/
structure Represents (t : TagTable) (f : TagMap) : Prop where
  sound : t.Sound
  same : ∀ addr tag, (addr, tag) ∈ t.toList ↔ f.lookup addr = some tag

/-- The answers are the same, and the tables left behind hold the same. -/
structure Agrees (table : Answer × TagTable) (map : Answer × TagMap) : Prop where
  answer : table.1 = map.1
  represents : table.2.Represents map.2

variable {t : TagTable} {f : TagMap} {addr : Address} {tag : Tag}

theorem empty_represents : empty.Represents ∅ where
  sound := empty_sound
  same := fun addr tag => by
    have nothing : empty.toList = [] := rfl
    simp [nothing]

theorem lookup_insert_iff {other : Address} {x : Tag} : (f.insert addr tag).lookup other = some x ↔
    (other, x) = (addr, tag) ∨ other ≠ addr ∧ f.lookup other = some x := by
  by_cases here : other = addr
  · subst here
    simp [Finmap.lookup_insert, eq_comm]
  · simp [Finmap.lookup_insert_of_ne f here, here]

theorem lookup_erase_iff {other : Address} {x : Tag} :
    (f.erase addr).lookup other = some x ↔ other ≠ addr ∧ f.lookup other = some x := by
  by_cases here : other = addr
  · subst here
    simp [Finmap.lookup_erase]
  · simp [Finmap.lookup_erase_ne here, here]

theorem Represents.insert (represents : t.Represents f) (addr : Address) (tag : Tag) :
    Agrees (settle (t.insert addr tag)) (record f addr tag) := by
  by_cases known : addr ∈ f
  · obtain ⟨old, recorded⟩ := Finmap.mem_iff.1 known
    obtain ⟨after, inserted, sound, perm⟩ :=
      represents.sound.insert_of_mem ((represents.same addr old).2 recorded) tag
    rw [inserted]
    refine ⟨(if_pos known).symm, sound, fun other x => ?_⟩
    change (other, x) ∈ after.toList ↔ _
    rw [perm.mem_iff, List.mem_cons, List.mem_filter, represents.same, bne_iff_ne, and_comm]
    exact lookup_insert_iff.symm
  · have fresh : ∀ old, (addr, old) ∉ t.toList := fun old recorded =>
      known (Finmap.mem_of_lookup_eq_some ((represents.same addr old).1 recorded))
    obtain ⟨after, inserted, sound, perm⟩ := represents.sound.insert tag fresh
    rw [inserted]
    refine ⟨(if_neg known).symm, sound, fun other x => ?_⟩
    change (other, x) ∈ after.toList ↔ _
    rw [perm.mem_iff, List.mem_cons]
    refine (or_congr_right ?_).trans lookup_insert_iff.symm
    rw [represents.same, iff_and_self]
    rintro present rfl
    exact known (Finmap.mem_of_lookup_eq_some present)

theorem Represents.remove_of_none (represents : t.Represents f) (missing : f.lookup addr = none) :
    t.remove? addr = none := by
  refine represents.sound.remove_of_not_mem fun tag recorded => ?_
  rw [represents.same, missing] at recorded
  cases recorded

theorem Represents.remove_of_some (represents : t.Represents f) (present : f.lookup addr = some tag) :
    ∃ after, t.remove? addr = some (tag, after) ∧ after.Represents (f.erase addr) := by
  obtain ⟨after, removed, sound, perm⟩ :=
    represents.sound.remove ((represents.same addr tag).2 present)
  have others := Keyed.filter_perm Prod.fst represents.sound.unique perm
  refine ⟨after, removed, sound, fun other x => ?_⟩
  rw [← others.mem_iff, List.mem_filter, represents.same, bne_iff_ne, and_comm]
  exact lookup_erase_iff.symm

theorem Represents.get?_eq (represents : t.Represents f) (addr : Address) :
    t.get? addr = f.lookup addr :=
  Option.ext fun tag => by rw [represents.sound.get?_eq_some_iff, represents.same]

/-- Each operation answers what it answers on the map, and does the same. -/
theorem Represents.run (represents : t.Represents f) (o : Operation) :
    Agrees (o.run t) (o.follow f) := by
  cases o with
  | insert addr tag => exact represents.insert addr tag
  | resolve addr =>
    refine ⟨congrArg Answer.owner ?_, represents⟩
    exact congrArg (Option.map fun tag : Tag => tag.pool) (represents.get?_eq addr)
  | remove addr =>
    simp only [Operation.run, Operation.follow]
    cases known : f.lookup addr with
    | none =>
      rw [represents.remove_of_none known]
      refine ⟨rfl, represents.sound, fun other x => ?_⟩
      rw [lookup_erase_iff, represents.same, iff_and_self]
      rintro present rfl
      rw [known] at present
      cases present
    | some tag =>
      obtain ⟨after, removed, rest⟩ := represents.remove_of_some known
      rw [removed]
      exact ⟨rfl, rest⟩
  | move source target =>
    simp only [Operation.run, Operation.follow, TagTable.move]
    cases known : f.lookup source with
    | none =>
      rw [represents.remove_of_none known]
      exact ⟨rfl, represents⟩
    | some tag =>
      obtain ⟨after, removed, rest⟩ := represents.remove_of_some known
      rw [removed]
      exact rest.insert target tag

theorem Represents.runAll (represents : t.Represents f) (operations : List Operation) :
    (Operation.runAll Operation.run operations t).1 =
      (Operation.runAll Operation.follow operations f).1 ∧
    (Operation.runAll Operation.run operations t).2.Represents
      (Operation.runAll Operation.follow operations f).2 := by
  induction operations generalizing t f with
  | nil => exact ⟨rfl, represents⟩
  | cons o rest ih =>
    have first := represents.run o
    obtain ⟨answers, last⟩ := ih first.represents
    exact ⟨congrArg₂ List.cons first.answer answers, last⟩

/-- All that can be seen of the table is as in the map. Neither looking a tag up nor removing it is
misled by the count: what the shards hold by themselves is the same. Where there is no tag, there is
nothing to remove or to move. A tag that is moved to a free address is there as it was, with its
origin, and no other one is touched. -/
structure Shows (t : TagTable) (f : TagMap) : Prop where
  isEmpty : t.isEmpty = true ↔ f = ∅
  count : t.count = f.keys.card
  get? : ∀ addr, t.get? addr = f.lookup addr
  shard : ∀ addr, (t.shard addr).bind (·.lookup addr) = f.lookup addr
  remove? : ∀ addr, (t.remove? addr).map (·.1) = f.lookup addr
  absent : ∀ addr, addr ∉ f → (Operation.remove addr).run t = (.removed none, t) ∧
    ∀ target, (Operation.move addr target).run t = (.done, t)
  moved : ∀ source target tag, f.lookup source = some tag → target ∉ f →
    ∃ after, (Operation.move source target).run t = (.done, after) ∧ ∀ addr, after.get? addr =
      if addr = target then some tag else if addr = source then none else f.lookup addr
  toList : ↑(t.toList.map Prod.toSigma) = f.entries

theorem Represents.toList_eq (represents : t.Represents f) :
    ↑(t.toList.map Prod.toSigma) = f.entries := by
  have once : (↑(t.toList.map Prod.toSigma) : Multiset (Σ _ : Address, Tag)).Nodup :=
    Multiset.coe_nodup.2 (represents.sound.unique.of_map.map Prod.toSigma_injective)
  refine (Multiset.Nodup.ext once f.nodup_entries).2 fun ⟨addr, tag⟩ => ?_
  have listed : ⟨addr, tag⟩ ∈ t.toList.map Prod.toSigma ↔ (addr, tag) ∈ t.toList :=
    List.mem_map_of_injective (a := (addr, tag)) Prod.toSigma_injective
  rw [Multiset.mem_coe, listed, represents.same]
  exact f.induction_on fun _ => AList.mem_lookup_iff

/-- A tag that is moved to a free address comes there as it is. -/
theorem Represents.moved {source target : Address} (represents : t.Represents f)
    (known : f.lookup source = some tag) (free : target ∉ f) :
    ∃ after, (Operation.move source target).run t = (.done, after) ∧ ∀ addr, after.get? addr =
      if addr = target then some tag else if addr = source then none else f.lookup addr := by
  have agrees := represents.run (.move source target)
  have still : target ∉ f.erase source := fun there => free (Finmap.mem_erase.1 there).2
  have follows : (Operation.move source target).follow f =
      (.done, (f.erase source).insert target tag) := by
    simp only [Operation.follow, known, record, if_neg still]
  rw [follows] at agrees
  refine ⟨_, Prod.ext agrees.answer rfl, fun addr => ?_⟩
  rw [agrees.represents.get?_eq]
  by_cases there : addr = target
  · rw [if_pos there, there, Finmap.lookup_insert]
  · rw [if_neg there, Finmap.lookup_insert_of_ne _ there]
    by_cases here : addr = source
    · rw [if_pos here, here, Finmap.lookup_erase]
    · rw [if_neg here, Finmap.lookup_erase_ne here]

theorem Represents.shows (represents : t.Represents f) : t.Shows f where
  isEmpty := by
    have entries : f = ∅ ↔ f.entries = 0 := Finmap.ext_iff'.symm
    rw [represents.sound.isEmpty_iff, entries, ← represents.toList_eq, Multiset.coe_eq_zero,
      List.map_eq_nil_iff]
  count := by
    have keys : f.keys.card = f.entries.card := Multiset.card_map Sigma.fst f.entries
    rw [represents.sound.counted, keys, ← represents.toList_eq, Multiset.coe_card, List.length_map]
  get? := represents.get?_eq
  shard := fun addr => Option.ext fun tag => by
    rw [shard_lookup, represents.sound.lookup_eq_some_iff, represents.same]
  remove? := fun addr => by
    cases known : f.lookup addr with
    | none => rw [represents.remove_of_none known, Option.map_none]
    | some tag =>
      obtain ⟨after, removed, _⟩ := represents.remove_of_some known
      rw [removed, Option.map_some]
  absent := fun addr unknown => by
    have nothing := represents.remove_of_none (Finmap.lookup_eq_none.2 unknown)
    simp only [Operation.run, TagTable.move, nothing, settle, implies_true, and_self]
  moved := fun _ _ _ => represents.moved
  toList := represents.toList_eq

/-- After any operations the table is one map from addresses to tags, and so it has answered. -/
theorem answers_as_map (operations : List Operation) :
    (Operation.runAll Operation.run operations empty).1 =
      (Operation.runAll Operation.follow operations ∅).1 ∧
    (Operation.runAll Operation.run operations empty).2.Shows
      (Operation.runAll Operation.follow operations ∅).2 :=
  (empty_represents.runAll operations).imp_right Represents.shows

-- all of these addresses fall into one shard
example : (Operation.runAll Operation.run [.insert 16 ⟨1, some ⟨"a", 5, 9⟩⟩, .insert 1040 ⟨2, none⟩,
    .move 16 2064, .resolve 16, .remove 1040, .remove 1040, .remove 2064] empty).1 =
    [.done, .done, .done, .owner none, .removed (some ⟨2, none⟩), .removed none,
      .removed (some ⟨1, some ⟨"a", 5, 9⟩⟩)] := by
  decide

end TagTable

end PooledMemory
