import PooledMemory.Proofs.Machine.Implicit
import PooledMemory.Proofs.Machine.Isolation
import PooledMemory.Proofs.Machine.Marks
import PooledMemory.Proofs.Machine.Measures
import PooledMemory.Proofs.Machine.Retirement
import PooledMemory.Proofs.Machine.Undisturbed

namespace PooledMemory

/-- A box that a program has, with the value that it has put there last and the pool that the box
was created in, or nothing for the system heap. -/
structure LiveBox where
  box : Boxed
  value : Value
  owner : Option PoolId
  deriving DecidableEq, Repr

namespace LiveBox

/-- Where the value lies. -/
def span (b : LiveBox) : Span := ⟨b.box.addr, b.box.type.payload⟩

/-- The same box with another value, if it is the one that is filled. -/
def refill (box : Boxed) (value : Value) (b : LiveBox) : LiveBox :=
  if b.box = box then { b with value } else b

@[simp] theorem refill_box (box : Boxed) (value : Value) (b : LiveBox) :
    (b.refill box value).box = b.box := by
  unfold refill
  split
  · rfl
  · rfl

@[simp] theorem refill_owner (box : Boxed) (value : Value) (b : LiveBox) :
    (b.refill box value).owner = b.owner := by
  unfold refill
  split
  · rfl
  · rfl

/-- What the boxes of a program hold. -/
def held (boxes : List LiveBox) (box : Boxed) : Option Value :=
  (boxes.find? (·.box = box)).map (·.value)

variable {boxes : List LiveBox} {b d : LiveBox}

theorem eq_of_addr (distinct : (boxes.map (·.box.addr)).Nodup) (first : b ∈ boxes)
    (second : d ∈ boxes) (same : b.box.addr = d.box.addr) : b = d :=
  List.inj_on_of_nodup_map distinct first second same

theorem held_eq (distinct : (boxes.map (·.box.addr)).Nodup) (member : b ∈ boxes) :
    held boxes b.box = some b.value := by
  cases found : boxes.find? (·.box = b.box) with
  | none =>
    have missing := List.find?_eq_none.1 found b member
    simp at missing
  | some d =>
    have same : d.box = b.box := by simpa using List.find?_some found
    obtain rfl :=
      eq_of_addr distinct (List.mem_of_find?_eq_some found) member (congrArg Boxed.addr same)
    rw [held, found]
    rfl

end LiveBox

namespace Call

/-- The box that a call has created. -/
def created? (c : Call) (m : Machine) : Option LiveBox :=
  match c with
  | box caller named value =>
    ((m.box caller named value).answer.toOption.bind (·.toOption)).map fun box =>
      ⟨box, value, (m.target caller named).1.owner⟩
  | boxOrAbort caller named value =>
    (m.boxOrAbort caller named value).answer.toOption.map fun box =>
      ⟨box, value, (m.target caller named).1.owner⟩
  | _ => none

/-- The box that a call gives up. -/
def givenUp? : Call → Option Boxed
  | dropBox _ boxed => some boxed
  | unbox _ boxed => some boxed
  | _ => none

/-- A box after a call, which may have put another value into it. -/
def refill (c : Call) (b : LiveBox) : LiveBox :=
  match c with
  | assignBox boxed value => b.refill boxed value
  | _ => b

@[simp] theorem refill_box (c : Call) (b : LiveBox) : (c.refill b).box = b.box := by
  cases c with
  | assignBox boxed value => exact LiveBox.refill_box boxed value b
  | _ => rfl

@[simp] theorem refill_owner (c : Call) (b : LiveBox) : (c.refill b).owner = b.owner := by
  cases c with
  | assignBox boxed value => exact LiveBox.refill_owner boxed value b
  | _ => rfl

/-- The boxes of a program after a call, given those before it. -/
def boxes (c : Call) (m : Machine) (boxes : List LiveBox) : List LiveBox :=
  (c.created? m).toList ++ (boxes.filter (c.givenUp? ≠ some ·.box)).map c.refill

/-- What a program minds on account of its boxes: it passes their blocks to no other calls, fills them
with values of their types and writes nowhere else into them. Alignments of types are powers of two. -/
def Minds (boxes : List LiveBox) : Call → Prop
  | box _ _ value => Word.isPowerOfTwo value.type.align = true
  | boxOrAbort _ _ value => Word.isPowerOfTwo value.type.align = true
  | assignBox boxed value => value.type = boxed.type ∧ ∃ b ∈ boxes, b.box = boxed
  | dropBox _ boxed => ∃ b ∈ boxes, b.box = boxed
  | unbox _ boxed => ∃ b ∈ boxes, b.box = boxed
  | write addr len _ => ∀ b ∈ boxes, b.span.Apart ⟨addr, len⟩
  | c => ∀ b ∈ boxes, c.block? ≠ some b.box.addr

end Call

namespace Machine

/-- The states that programs reach, with the boxes that they have there and the values whose destructors
have been due so far. No pool is torn down while it holds the block of a box. -/
inductive Boxing : Machine → List LiveBox → List Value → Prop
  | start (slots : List Nat) : Boxing (.start slots) [] []
  | step {m : Machine} {boxes : List LiveBox} {due : List Value} (c : Call) : Boxing m boxes due →
    c.Proper m → c.Minds boxes →
    (∀ b ∈ c.boxes m boxes, ∀ id ∈ b.owner, ¬ (c.run m).machine.HasEnded id) →
    Boxing (c.run m).machine (c.boxes m boxes) (c.drops m (LiveBox.held boxes) ++ due)
  /-- A value is changed in place, or taken out in exchange for another one. -/
  | exchange {m : Machine} {boxes : List LiveBox} {due : List Value} {b : LiveBox} (value : Value) :
    Boxing m boxes due → b ∈ boxes → value.type = b.box.type →
    Boxing (m.fillBox b.box value) (boxes.map (·.refill b.box value)) due

/-- All bytes of the value of a box lie in a block of its own, in the heap that the box was created
in. -/
structure Carries (m : Machine) (b : LiveBox) : Prop where
  type : b.value.type = b.box.type
  block : ∃ d, m.InUse d ∧ d.addr = b.box.addr ∧ d.owner = b.owner ∧ b.box.type.payload ≤ d.size
  aligned : b.box.type.align ∣ b.box.addr
  stored : ∀ i < b.box.type.payload, m.system.bytes (b.box.addr + i) = b.value.byte i

/-- The boxes have blocks of their own. -/
structure Shelves (m : Machine) (boxes : List LiveBox) : Prop where
  distinct : (boxes.map (·.box.addr)).Nodup
  carries : ∀ b ∈ boxes, m.Carries b

/-- A value comes to lie in a new block, or it is dropped and all blocks are as before. -/
inductive Houses (m : Machine) (owner : Option PoolId) (value : Value) :
    Outcome (Except Failure Boxed) → Prop
  | refused {failure : Failure} {after : Machine} : Exchanges m after [] [] [] →
    after.dropped = value :: m.dropped → Houses m owner value (.ok (.error failure) after)
  | housed {d : Block} {after : Machine} : Exchanges m after [] [d] [] → d.owner = owner →
    max value.type.size 1 ≤ d.size → max value.type.align granule ∣ d.addr →
    (∀ i < value.type.payload, after.system.bytes (d.addr + i) = value.byte i) →
    after.dropped = m.dropped → Houses m owner value (.ok (.ok ⟨d.addr, value.type⟩) after)

variable {m after : Machine} {lost : List (Address × PoolId)} {loans : List SystemBlock}
  {id : PoolId} {p : Pool} {c : Call} {boxes : List LiveBox} {due : List Value} {b : LiveBox}
  {d : Block}

theorem Carries.reads (carries : m.Carries b) : m.readBox b.box = b.value :=
  Value.load_eq_iff.2 ⟨carries.type, carries.type ▸ carries.stored⟩

/-- Blocks are supplied where natural alignment and the one that is asked for allow it. -/
theorem Sound.serve_multiple (sound : m.Sound lost loans) (aligned : m.Aligned) (target : Target)
    {request : Request} {addr : Address}
    (served : (m.serve target request).answer = .ok (.ok addr)) :
    max request.align granule ∣ addr := by
  cases target with
  | pool id =>
    have placing := sound.allocateIn_placing id request
    simp only [Machine.serve] at served
    generalize m.allocateIn id request = o at placing served
    cases placing with
    | unavailable => cases served
    | refused => cases served
    | placed tags bytes events found _ allocated _ answer _ _ _ =>
      cases served
      exact (aligned id _ found).allocate_answer allocated answer
  | unavailable id => cases served
  | systemHeap =>
    simp only [Machine.serve] at served
    cases taken : m.system.allocate? request.size request.align request.zeroed with
    | none =>
      rw [taken] at served
      cases served
    | some found =>
      rw [taken] at served
      cases served
      exact SystemHeap.take?_aligned taken

theorem Sound.allocate_multiple (sound : m.Sound lost loans) (aligned : m.Aligned) (caller : Caller)
    (named : Option PoolId) {request : Request} {addr : Address}
    (served : (m.allocate caller named request).answer = .ok (.ok addr)) :
    max request.align granule ∣ addr := by
  obtain ⟨threads, same⟩ := target_machine m caller named
  simp only [Machine.allocate, same] at served
  exact (sound.withThreads threads).serve_multiple aligned _ served

theorem Sound.box_houses (sound : m.Sound lost loans) (aligned : m.Aligned) (caller : Caller)
    (named : Option PoolId) (value : Value) :
    Houses m (m.target caller named).1.owner value (m.box caller named value) := by
  let request := value.type.request caller.site
  have supplied := sound.allocate_supplies caller named request
  have kept := (allocate_undisturbed m caller named request).dropped
  have multiple : ∀ addr, (m.allocate caller named request).answer = .ok (.ok addr) →
      max value.type.align granule ∣ addr :=
    fun _ served => sound.allocate_multiple aligned caller named served
  unfold Machine.box
  generalize m.allocate caller named request = o at supplied kept multiple
  cases supplied with
  | @refused failure middle change =>
    obtain ⟨inUse, old, fresh, bytes⟩ := change.toExchanges
    exact .refused ⟨inUse, old, fresh, bytes⟩ (congrArg (value :: ·) kept)
  | @supplied d middle change owner enough =>
    obtain ⟨lost', loans', sound'⟩ := change.sound
    have fits : value.type.payload ≤ d.size :=
      Nat.le_trans value.type.payload_le_size (Nat.le_trans (Nat.le_max_left _ _) enough)
    have fill := sound'.write_change d.addr value.type.payload value.byte
    have both := change.toExchanges.trans fill.toExchanges
    simp only [List.nil_append, List.append_nil, List.filter_nil, List.not_mem_nil,
      not_false_eq_true, decide_true, List.filter_true] at both
    refine .housed (both.unwritten fun w member e used _ => ?_) owner enough (multiple d.addr rfl)
      (fun i inside => ?_) kept
    · rw [List.mem_singleton.1 member]
      exact change.apart_new used fits
    · show middle.system.bytes.write d.addr value.type.payload _ (d.addr + i) = _
      rw [Bytes.write_of_mem (Nat.le_add_right _ _) (Nat.add_lt_add_left inside _),
        Nat.add_sub_cancel_left]

/-- A box that a call has created comes from putting a value into it. -/
theorem created_box (minds : c.Minds boxes) (created : c.created? m = some b) :
    ∃ caller named value, m.box caller named value = .ok (.ok b.box) (c.run m).machine ∧
      b.value = value ∧ b.owner = (m.target caller named).1.owner ∧
      Word.isPowerOfTwo value.type.align = true := by
  have answered : ∀ {caller : Caller} {named : Option PoolId} {value : Value} {boxed : Boxed},
      (m.box caller named value).answer.toOption.bind (·.toOption) = some boxed →
      m.box caller named value = .ok (.ok boxed) (m.box caller named value).machine := by
    intro caller named value boxed found
    generalize m.box caller named value = o at found
    obtain ⟨answer, after⟩ := o
    cases answer with
    | error fault => cases found
    | ok served =>
      cases served with
      | error failure => cases found
      | ok made =>
        cases found
        rfl
  cases c with
  | box caller named value =>
    obtain ⟨boxed, found, rfl⟩ := Option.map_eq_some_iff.1 created
    exact ⟨caller, named, value, answered found, rfl, rfl, minds⟩
  | boxOrAbort caller named value =>
    obtain ⟨boxed, found, rfl⟩ := Option.map_eq_some_iff.1 created
    refine ⟨caller, named, value, boxOrAbort_placed ?_, rfl, rfl, minds⟩
    show m.boxOrAbort caller named value = .ok boxed (m.boxOrAbort caller named value).machine
    generalize m.boxOrAbort caller named value = o at found
    obtain ⟨answer, after⟩ := o
    cases answer with
    | error fault => cases found
    | ok made =>
      cases found
      rfl
  | _ => cases created

/-- A new box carries its value, in a block that has not been in use. -/
theorem Reachable.created (reached : Reachable m) (proper : c.Proper m) (minds : c.Minds boxes)
    (created : c.created? m = some b) : (c.run m).machine.Carries b ∧
      ∀ d, m.InUse d → d.addr ≠ b.box.addr := by
  obtain ⟨loans, sound⟩ := reached.sound
  obtain ⟨loans', sound'⟩ := (reached.step c proper).sound
  obtain ⟨caller, named, value, placed, same, owner, power⟩ := created_box minds created
  have houses := sound.box_houses reached.attempted.aligned caller named value
  rw [placed] at houses
  generalize (c.run m).machine = after at houses sound'
  obtain ⟨⟨addr, type⟩, held, _⟩ := b
  obtain rfl : held = value := same
  cases owner
  cases houses with
  | @housed d _ exchanges own enough multiple stored _ =>
    have comes : after.InUse d := (exchanges.inUse d).2 (.inl (List.mem_singleton_self d))
    have fits : held.type.payload ≤ d.size :=
      Nat.le_trans held.type.payload_le_size (Nat.le_trans (Nat.le_max_left _ _) enough)
    have aligned := (Word.dvd_max_granule power).1.trans multiple
    refine ⟨⟨rfl, ⟨d, comes, rfl, own, fits⟩, aligned, stored⟩, ?_⟩
    intro e old start
    have stays : after.InUse e := (exchanges.inUse e).2 (.inr ⟨old, List.not_mem_nil⟩)
    obtain rfl := sound'.inUse_unique stays comes start
    simpa using exchanges.fresh e (List.mem_singleton_self e) old

end Machine

namespace Call.Minds

variable {m : Machine} {c : Call} {boxes : List LiveBox} {b : LiveBox}

/-- No call names the block of a box that the program goes on with. -/
theorem unnamed (minds : c.Minds boxes) (distinct : (boxes.map (·.box.addr)).Nodup)
    (member : b ∈ boxes) (kept : c.givenUp? ≠ some b.box) : c.block? ≠ some b.box.addr := by
  have other : ∀ {boxed : Boxed}, (∃ d ∈ boxes, d.box = boxed) → boxed ≠ b.box →
      some boxed.addr ≠ some b.box.addr := by
    rintro _ ⟨d, inBoxes, rfl⟩ different same
    exact different (congrArg _ (LiveBox.eq_of_addr distinct inBoxes member (Option.some.inj same)))
  cases c with
  | dropBox caller boxed => exact other minds fun same => kept (congrArg some same)
  | unbox caller boxed => exact other minds fun same => kept (congrArg some same)
  | box | boxOrAbort | assignBox | write => nofun
  | _ => exact minds b member

/-- A call fills a box with a value of its type, or it leaves the box alone and writes elsewhere. -/
theorem fills (minds : c.Minds boxes) (member : b ∈ boxes) :
    (∃ value, value.type = b.box.type ∧ c = .assignBox b.box value) ∨ c.refill b = b ∧
      ∀ w, c.written? = some w → b.span.Apart w ∨ ∃ d ∈ boxes, d.box ≠ b.box ∧ w = d.span := by
  cases c with
  | assignBox boxed value =>
    obtain ⟨type, d, inBoxes, rfl⟩ := minds
    by_cases same : d.box = b.box
    · exact .inl ⟨value, same ▸ type, congrArg (Call.assignBox · value) same⟩
    · refine .inr ⟨if_neg (Ne.symm same), fun w written => .inr ⟨d, inBoxes, same, ?_⟩⟩
      cases written
      rw [type]
      rfl
  | write addr len content =>
    refine .inr ⟨rfl, fun w written => .inl ?_⟩
    cases written
    exact minds b member
  | _ => exact .inr ⟨rfl, nofun⟩

end Call.Minds

namespace Machine

variable {m after : Machine} {lost : List (Address × PoolId)} {loans : List SystemBlock}
  {id : PoolId} {p : Pool} {c : Call} {boxes : List LiveBox} {due : List Value} {b : LiveBox}
  {d : Block}

/-- Values in different boxes lie apart. -/
theorem Sound.spans_apart (sound : m.Sound lost loans) {e : LiveBox} (first : m.Carries b)
    (second : m.Carries e) (different : b.box.addr ≠ e.box.addr) : b.span.Apart e.span := by
  obtain ⟨d, used, start, _, fits⟩ := first.block
  obtain ⟨d', used', start', _, fits'⟩ := second.block
  have apart := sound.inUse_apart used used' fun same =>
    different (start.symm.trans ((congrArg Block.addr same).trans start'))
  simp only [Span.Apart, Span.stop, Block.span, start, start'] at apart
  simp only [Span.Apart, Span.stop, LiveBox.span]
  omega

theorem has_span {i : Nat} (inside : i < b.box.type.payload) :
    b.span.has (b.box.addr + i) = true :=
  Span.has_iff.2 ⟨Nat.le_add_right _ _, Nat.add_lt_add_left inside _⟩

/-- A box that the program does not give up carries what was put into it last. -/
theorem Reachable.carries_kept (reached : Reachable m) (proper : c.Proper m)
    (minds : c.Minds boxes) (shelves : m.Shelves boxes) (member : b ∈ boxes)
    (kept : c.givenUp? ≠ some b.box)
    (stands : ∀ id ∈ b.owner, ¬ (c.run m).machine.HasEnded id) :
    (c.run m).machine.Carries (c.refill b) := by
  obtain ⟨loans, sound⟩ := reached.sound
  have carries := shelves.carries b member
  obtain ⟨d, used, start, owner, fits⟩ := carries.block
  have unnamed := minds.unnamed shelves.distinct member kept
  rw [← start] at unnamed
  obtain ⟨inUse, _, bytes⟩ := reached.isolated proper used unnamed fun id own =>
    stands id (owner.symm.trans own)
  have inBlock : ∀ i < b.box.type.payload, d.span.has (b.box.addr + i) = true := fun i inside =>
    Span.has_iff.2 ⟨start ▸ Nat.le_add_right _ _,
      start ▸ Nat.add_lt_add_left (Nat.lt_of_lt_of_le inside fits) _⟩
  rcases minds.fills member with ⟨value, type, rfl⟩ | ⟨same, writes⟩
  · have refilled : (Call.assignBox b.box value).refill b = { b with value } := if_pos rfl
    rw [refilled]
    refine ⟨type, ⟨d, inUse, start, owner, fits⟩, carries.aligned, fun i inside => ?_⟩
    show m.system.bytes.write b.box.addr value.type.payload _ (b.box.addr + i) = _
    rw [type, Bytes.write_of_mem (Nat.le_add_right _ _) (Nat.add_lt_add_left inside _),
      Nat.add_sub_cancel_left]
  · rw [same]
    refine ⟨carries.type, ⟨d, inUse, start, owner, fits⟩, carries.aligned, fun i inside => ?_⟩
    refine (bytes _ (inBlock i inside) fun w written has => ?_).trans (carries.stored i inside)
    have apart : b.span.Apart w := by
      rcases writes w written with apart | ⟨e, inBoxes, different, rfl⟩
      · exact apart
      · refine sound.spans_apart carries (shelves.carries e inBoxes) fun addr => different ?_
        rw [LiveBox.eq_of_addr shelves.distinct member inBoxes addr]
    exact apart.not_has (has_span inside) has

theorem Reachable.shelves_step (reached : Reachable m) (proper : c.Proper m)
    (minds : c.Minds boxes) (shelves : m.Shelves boxes)
    (stands : ∀ b ∈ c.boxes m boxes, ∀ id ∈ b.owner, ¬ (c.run m).machine.HasEnded id) :
    (c.run m).machine.Shelves (c.boxes m boxes) := by
  have carries : ∀ b ∈ boxes, c.givenUp? ≠ some b.box → (c.run m).machine.Carries (c.refill b) := by
    intro b member kept
    refine reached.carries_kept proper minds shelves member kept fun id own => ?_
    have remains : c.refill b ∈ c.boxes m boxes :=
      List.mem_append_right _ (List.mem_map_of_mem (List.mem_filter.2 ⟨member, by simpa using kept⟩))
    exact stands _ remains id ((c.refill_owner b).trans own)
  have sublist : ((boxes.filter (c.givenUp? ≠ some ·.box)).map c.refill).map (·.box.addr) =
      (boxes.filter (c.givenUp? ≠ some ·.box)).map (·.box.addr) := by
    simp only [List.map_map, Function.comp_def, Call.refill_box]
  refine ⟨?_, fun b member => ?_⟩
  · rw [Call.boxes, List.map_append, sublist, List.nodup_append]
    refine ⟨?_, (List.Sublist.map _ List.filter_sublist).nodup shelves.distinct, ?_⟩
    · cases c.created? m with
      | none => exact List.nodup_nil
      | some new => exact List.nodup_singleton _
    · rintro _ new _ old rfl
      obtain ⟨new, created, start⟩ := List.mem_map.1 new
      obtain ⟨b, remains, same⟩ := List.mem_map.1 old
      obtain ⟨d, used, here, _⟩ := (shelves.carries b (List.mem_of_mem_filter remains)).block
      have fresh := (reached.created proper minds (Option.mem_toList.1 created)).2 d used
      exact fresh (here.trans (same.trans start.symm))
  · rcases List.mem_append.1 member with new | old
    · exact (reached.created proper minds (Option.mem_toList.1 new)).1
    · obtain ⟨b, remains, rfl⟩ := List.mem_map.1 old
      obtain ⟨member, kept⟩ := List.mem_filter.1 remains
      exact carries b member (by simpa using kept)

/-- No pool has ended that holds the block of a box. -/
theorem Reachable.boxes_stand (reached : Reachable m) (shelves : m.Shelves boxes) (member : b ∈ boxes)
    (own : id ∈ b.owner) : ¬ m.HasEnded id := by
  obtain ⟨loans, sound⟩ := reached.sound
  obtain ⟨d, used, _, owner, _⟩ := (shelves.carries b member).block
  have owned := (sound.owner?_of_inUse used).trans (owner.trans own)
  exact sound.not_hasEnded_of_owner reached.enrolled owned

/-- An exchange of values differs from an assignment in what is dropped only. -/
theorem Reachable.shelves_exchange (reached : Reachable m) (shelves : m.Shelves boxes)
    (member : b ∈ boxes) {value : Value} (type : value.type = b.box.type) :
    (m.fillBox b.box value).Shelves (boxes.map (·.refill b.box value)) := by
  let assign : Call := .assignBox b.box value
  have same : assign.boxes m boxes = boxes.map (·.refill b.box value) := by
    show [] ++ (boxes.filter fun d => decide (none ≠ some d.box)).map (·.refill b.box value) = _
    simp
  have proper : assign.Proper m := ⟨trivial, nofun, nofun⟩
  have minds : assign.Minds boxes := ⟨type, b, member, rfl⟩
  have assigned := reached.shelves_step proper minds shelves fun e inBoxes id own => by
    rw [same] at inBoxes
    obtain ⟨d, old, rfl⟩ := List.mem_map.1 inBoxes
    exact reached.boxes_stand shelves old ((LiveBox.refill_owner _ _ d).symm.trans own)
  rw [same] at assigned
  refine ⟨assigned.distinct, fun e inBoxes => ?_⟩
  obtain ⟨type, block, aligned, stored⟩ := assigned.carries e inBoxes
  exact ⟨type, block, aligned, stored⟩

/-- The destructors that a call runs are those of the values that were last put into the boxes. -/
theorem Shelves.drops_eq (shelves : m.Shelves boxes) (minds : c.Minds boxes) :
    c.drops m (fun box => some (m.readBox box)) = c.drops m (LiveBox.held boxes) := by
  have holds : ∀ {boxed : Boxed}, (∃ b ∈ boxes, b.box = boxed) →
      some (m.readBox boxed) = LiveBox.held boxes boxed := by
    rintro _ ⟨b, member, rfl⟩
    rw [LiveBox.held_eq shelves.distinct member, (shelves.carries b member).reads]
  cases c with
  | assignBox boxed value => exact congrArg Option.toList (holds minds.2)
  | dropBox caller boxed => exact congrArg Option.toList (holds minds)
  | _ => rfl

theorem Boxing.reachable (boxing : Boxing m boxes due) : Reachable m := by
  induction boxing with
  | start slots => exact .start slots
  | step c _ proper _ _ ih => exact ih.step c proper
  | @exchange m boxes due b value _ _ _ ih =>
    exact ih.step (.write b.box.addr value.type.payload value.byte) ⟨trivial, nofun, nofun⟩

theorem Boxing.shelves (boxing : Boxing m boxes due) : m.Shelves boxes := by
  induction boxing with
  | start slots => exact ⟨List.nodup_nil, List.forall_mem_nil _⟩
  | step c before proper minds stands ih =>
    exact before.reachable.shelves_step proper minds ih stands
  | exchange value before member type ih => exact before.reachable.shelves_exchange ih member type

/-- The destructors that have run are those that have been due, each of them once. -/
theorem Boxing.dropped (boxing : Boxing m boxes due) : m.dropped = due := by
  induction boxing with
  | start slots => rfl
  | @step m boxes due c before proper minds _ ih =>
    rw [c.run_dropped, before.shelves.drops_eq minds, ih]
  | exchange _ _ _ _ ih => exact ih

/-- A block, and no other one, has gone back to the heap that it came from. A pool that has waited for
nothing else is destroyed. -/
structure Returned (m after : Machine) (d : Block) : Prop where
  exchanges : Exchanges m after [d] [] []
  pool : ∀ id, d.owner = some id → ∃ p q, m.pool? id = some p ∧ after.pool? id = some q ∧
    q.heap.allocated + d.size = p.heap.allocated ∧
    q.phase = if p.phase = .deletePending ∧ p.heap.live.length = 1 then .destroyed else p.phase
  others : ∀ p ∈ m.pools, d.owner ≠ some p.id → p ∈ after.pools
  system : d.owner = none → after.system.blocks = m.system.blocks.filter (·.addr != d.addr)
  strays : after.system.strayReturns = m.system.strayReturns

theorem pool?_destroy {q : Pool} (caller : Caller) (found : m.pool? q.id = some p) :
    (m.destroy caller q).pool? q.id = some (p.emptied (q.heap.releaseAll m.system).1) := by
  obtain ⟨threads, same⟩ := destroy_eq m caller q
  rw [same]
  refine (pool?_updatePool (f := Pool.emptied (q.heap.releaseAll m.system).1) fun _ => rfl).trans ?_
  rw [found, Option.map_some, if_pos (pool?_id found)]

/-- A pool that takes back a block counts it no more, and it is destroyed if it has waited for it. -/
theorem Sound.release_accounts {b : LiveBlock} (sound : m.Sound [] loans) (inPools : p ∈ m.pools)
    (live : b ∈ p.heap.live) (caller : Caller) :
    ∃ q, (m.release caller none b.addr).machine.pool? p.id = some q ∧
      q.heap.allocated + b.size = p.heap.allocated ∧
      q.phase = if p.phase = .deletePending ∧ p.heap.live.length = 1 then .destroyed
        else p.phase := by
  have found := sound.pool?_eq inPools
  have start := (sound.heap found).block?_eq live
  have owned : m.owner? b.addr = some p.id := sound.owner?_of_live ⟨p, inPools, rfl, b, live, rfl⟩
  obtain ⟨step, released, frees⟩ := (sound.heap found).release b.addr
  have recorded : m.release caller none b.addr = (m.untag b.addr).releaseIn caller p.id b.addr :=
    sound.release_recorded caller owned rfl
  have runs := recorded.trans ((sound.untag owned).releaseIn_eq caller found start released)
  obtain ⟨lost', loans', _, sound'⟩ := (sound.release caller (.inl (.inl ⟨p.id, owned⟩))).sound
  have perm : p.heap.live.Perm (b :: step.heap.live) := by
    rw [frees.live]
    exact (sound.heap found).live_perm start
  have counted : ∀ {after : Machine} {q : Pool}, after.Sound lost' loans' →
      after.pool? p.id = some q → q.heap.live = step.heap.live →
      q.heap.allocated + b.size = p.heap.allocated := by
    intro after q sound' here same
    have total : sumBy (·.size) p.heap.live = b.size + sumBy (·.size) step.heap.live :=
      LiveBlock.bytes_perm perm
    rw [(sound'.books (pool?_mem here).1).1, (sound.books inPools).1, same, total, Nat.add_comm]
  have waited : (p.phase = .deletePending ∧ p.heap.live.length = 1) ↔
      p.phase = .deletePending ∧ step.heap.live = [] := by
    rw [perm.length_eq, List.length_cons, Nat.add_eq_right, List.length_eq_zero_iff]
  have here : (m.untag b.addr).pool? p.id = some p := found
  have put := pool?_putHeap step.heap step.system here
  simp only [waited]
  rw [runs] at sound' ⊢
  simp only [Outcome.ok] at sound' ⊢
  split
  · rename_i ends
    rw [if_pos ends] at sound'
    obtain ⟨_, nothing, _⟩ := frees.sound.releaseAll
    have ended := pool?_destroy (q := { p with heap := step.heap }) caller put
    exact ⟨_, ended, counted sound' ended (nothing.trans ends.2.symm), rfl⟩
  · rename_i goesOn
    rw [if_neg goesOn] at sound'
    exact ⟨_, put, counted sound' put rfl, rfl⟩

/-- A block in use is released to the heap that it came from. -/
theorem Sound.release_returned (sound : m.Sound [] loans) (used : m.InUse d) (caller : Caller) :
    m.Returned (m.release caller none d.addr).machine d := by
  have strays : (m.release caller none d.addr).machine.system.strayReturns =
      m.system.strayReturns :=
    sound.release_strays caller (sound.handed_of_inUse used) fun _ _ => rfl
  obtain ⟨_, exchanges⟩ := sound.release_of_inUse used caller
  rcases used with ⟨p, inPools, own⟩ | ⟨s, stored, free, rfl⟩
  · obtain ⟨b, live, rfl⟩ := mem_issued.1 own
    obtain ⟨_, taken⟩ := sound.release_takenBack caller inPools live
    refine ⟨exchanges, ?_, fun q member other => ?_, nofun, strays⟩
    · rintro _ ⟨⟩
      obtain ⟨q, behind, accounts⟩ := sound.release_accounts inPools live caller
      exact ⟨p, q, sound.pool?_eq inPools, behind, accounts⟩
    · exact taken.others q member fun same => other (congrArg some same.symm)
  · have loaned : s.addr ∈ loans.map (·.addr) :=
      List.mem_map_of_mem (sound.mem_loans_iff.2 ⟨stored, free⟩)
    have runs : m.release caller none s.lent.addr = .ok () (m.releaseToSystem s.addr) :=
      sound.release_loaned caller none loaned
    rw [runs] at exchanges strays ⊢
    exact ⟨exchanges, nofun, fun _ member _ => member, fun _ => rfl, strays⟩

/-- What comes of giving up a box, in one way or the other: its block goes back to the heap that it was
created in, and the value is dropped or handed out. -/
structure GivesUp (m : Machine) (caller : Caller) (b : LiveBox) : Prop where
  block : ∃ d, m.InUse d ∧ d.addr = b.box.addr ∧ d.owner = b.owner ∧
    m.Returned (m.dropBox caller b.box).machine d ∧ m.Returned (m.unbox caller b.box).machine d
  dropBox : (m.dropBox caller b.box).answer = .ok () ∧
    (m.dropBox caller b.box).machine.dropped = b.value :: m.dropped
  unbox : (m.unbox caller b.box).answer = .ok b.value ∧
    (m.unbox caller b.box).machine.dropped = m.dropped

/-- What programs can rely on about their boxes. -/
structure Owned (m : Machine) (boxes : List LiveBox) : Prop where
  distinct : (boxes.map (·.box.addr)).Nodup
  aligned : ∀ b ∈ boxes, b.box.type.align ∣ b.box.addr
  owner : ∀ b ∈ boxes, m.owner? b.box.addr = b.owner
  reads : ∀ b ∈ boxes, m.readBox b.box = b.value
  stored : ∀ b ∈ boxes, ∀ i < b.box.type.payload,
    m.system.bytes (b.box.addr + i) = b.value.byte i
  givesUp : ∀ b ∈ boxes, ∀ caller, m.GivesUp caller b

theorem Sound.givesUp (sound : m.Sound [] loans) (carries : m.Carries b) (caller : Caller) :
    m.GivesUp caller b := by
  have reads := carries.reads
  obtain ⟨⟨addr, type⟩, value, owner⟩ := b
  obtain ⟨d, used, rfl, own, _⟩ := carries.block
  obtain ⟨_, _, dropped, unboxed⟩ := sound.unguarded used
  obtain ⟨exchanges, pool, others, system, strays⟩ :=
    (sound.dropValue (m.readBox ⟨d.addr, type⟩)).release_returned used caller
  obtain ⟨inUse, old, fresh, kept⟩ := exchanges
  refine ⟨⟨d, used, rfl, own, ⟨⟨inUse, old, fresh, kept⟩, pool, others, system, strays⟩,
    sound.release_returned used caller⟩, ⟨(dropped caller type).1, ?_⟩, ?_, ?_⟩
  · rw [← reads]
    exact Call.run_dropped (.dropBox caller ⟨d.addr, type⟩) m
  · rw [← reads]
    exact (unboxed caller type).1
  · exact Call.run_dropped (.unbox caller ⟨d.addr, type⟩) m

/-- Whatever programs do that keep the pools of their boxes, a box owns its block and its value: no
other box lies there, it reads as what was last put into it, and either way of giving it up returns
its block once. Destructors run when they are due and never twice, and a value that finds no place is
dropped. -/
theorem Boxing.boxes_owned (boxing : Boxing m boxes due) :
    m.Owned boxes ∧ m.dropped = due ∧ ∀ caller named value,
        Houses m (m.target caller named).1.owner value (m.box caller named value) := by
  obtain ⟨loans, sound⟩ := boxing.reachable.sound
  obtain ⟨distinct, carries⟩ := boxing.shelves
  refine ⟨⟨distinct, fun b member => (carries b member).aligned, fun b member => ?_,
    fun b member => (carries b member).reads, fun b member => (carries b member).stored,
    fun b member caller => sound.givesUp (carries b member) caller⟩, boxing.dropped,
    sound.box_houses boxing.reachable.attempted.aligned⟩
  obtain ⟨d, used, start, owner, _⟩ := (carries b member).block
  rw [← start, ← owner]
  exact sound.owner?_of_inUse used

end Machine

namespace Call

instance (boxes : List LiveBox) : (c : Call) → Decidable (c.Minds boxes)
  | box .. | boxOrAbort .. => inferInstanceAs (Decidable (_ = true))
  | assignBox .. => inferInstanceAs (Decidable (_ ∧ _))
  | dropBox .. | unbox .. => inferInstanceAs (Decidable (∃ b ∈ boxes, _))
  | write .. => inferInstanceAs (Decidable (∀ b ∈ boxes, _ ∨ _))
  | openPool .. | dropPool .. | trimPool .. | exitThread .. | select .. | restore .. | allocate ..
  | allocateLayout .. | foreign .. | resizeBlock .. | releaseBlock .. | reallocate ..
  | reallocateLayout .. | free .. | freeLayout .. | mark .. | unmark .. | reportLeaks
  | dropValue .. | adjust .. => inferInstanceAs (Decidable (∀ b ∈ boxes, _))

/-- A test for calls that a program makes with its boxes in mind. -/
def areMindful : List Call → Machine → List LiveBox → Bool
  | [], _, _ => true
  | c :: rest, m, boxes =>
    c.isProper m && decide (c.Minds boxes) &&
      decide (∀ b ∈ c.boxes m boxes, ∀ id ∈ b.owner, ¬ (c.run m).machine.HasEnded id) &&
      areMindful rest (c.run m).machine (c.boxes m boxes)

/-- The boxes of a program after calls that it makes one after the other. -/
def boxesAll : List Call → Machine → List LiveBox → List LiveBox
  | [], _, boxes => boxes
  | c :: rest, m, boxes => boxesAll rest (c.run m).machine (c.boxes m boxes)

/-- The values whose destructors have been due by the end of these calls. -/
def dueAll : List Call → Machine → List LiveBox → List Value → List Value
  | [], _, _, due => due
  | c :: rest, m, boxes, due =>
    dueAll rest (c.run m).machine (c.boxes m boxes) (c.drops m (LiveBox.held boxes) ++ due)

end Call

namespace Machine

variable {m : Machine} {boxes : List LiveBox} {due : List Value}

theorem Boxing.runAll (boxing : Boxing m boxes due) (calls : List Call)
    (fit : Call.areMindful calls m boxes = true) :
    Boxing (Call.runAll calls m) (Call.boxesAll calls m boxes) (Call.dueAll calls m boxes due) := by
  induction calls generalizing m boxes due with
  | nil => exact boxing
  | cons c rest ih =>
    simp only [Call.areMindful, Bool.and_eq_true, decide_eq_true_eq] at fit
    obtain ⟨⟨⟨proper, minds⟩, stands⟩, others⟩ := fit
    exact ih (boxing.step c (Call.proper_of_isProper proper) minds stands) others

/-- A pool waits for a box without content that was created in it as the current one, another thread
has an array on the system heap and changes its elements in place, and a third box has come and gone.
A longer array was more than the pool may hold. -/
theorem wrapping_owned :
    let number : Boxed := ⟨SystemHeap.slotBase 3 + 16, .int64⟩
    let calls : List Call := [.openPool { thread := 0 } { lazy := true, maxSize := 100 },
      .select { thread := 0 } (some 1), .box { thread := 0 } none (.ofNumber .unit 0),
      .box { thread := 1 } none (.array 3 7), .box { thread := 1 } (some 1) (.ofNumber .int64 5),
      .box { thread := 0 } none (.array 200 9), .assignBox number (.ofNumber .int64 (-6)),
      .dropBox { thread := 1 } number, .dropPool { thread := 0 } 1]
    let array : Boxed := ⟨SystemHeap.firstBlock, .bytes 3⟩
    let m := (Call.runAll calls (.start [3])).fillBox array ⟨.bytes 3, #v[1, 2, 3]⟩
    let boxes : List LiveBox := [⟨array, ⟨.bytes 3, #v[1, 2, 3]⟩, none⟩,
      ⟨⟨SystemHeap.slotBase 3, .unit⟩, .ofNumber .unit 0, some 1⟩]
    let due : List Value := [.ofNumber .int64 (-6), .ofNumber .int64 5, .array 200 9]
    m.pools.map (·.phase) = [.deletePending] ∧ m.Owned boxes ∧ m.dropped = due ∧
      ∀ caller named value,
        Houses m (m.target caller named).1.owner value (m.box caller named value) := by
  intro number calls array m boxes due
  have before : Call.boxesAll calls (.start [3]) [] = [⟨array, .array 3 7, none⟩,
      ⟨⟨SystemHeap.slotBase 3, .unit⟩, .ofNumber .unit 0, some 1⟩] := by decide +kernel
  have spent : Call.dueAll calls (.start [3]) [] [] = due := by decide +kernel
  have ran : Boxing (Call.runAll calls (.start [3])) _ _ :=
    (Boxing.start [3]).runAll calls (by decide +kernel)
  rw [before, spent] at ran
  have boxing : Boxing m boxes due :=
    ran.exchange ⟨.bytes 3, #v[1, 2, 3]⟩ (List.mem_cons_self ..) rfl
  exact ⟨by decide +kernel, Boxing.boxes_owned boxing⟩

end Machine

end PooledMemory
