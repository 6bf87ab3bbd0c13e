import PooledMemory.Proofs.Machine.Isolation
import PooledMemory.Proofs.Machine.Oblivious
import PooledMemory.Proofs.Machine.Peak
import PooledMemory.Proofs.Machine.Tidiness

namespace PooledMemory

/-- What has become of the bytes of segments since the system heap handed these out. -/
structure Past where
  /-- The byte has been part of a block. -/
  used : Address → Bool
  /-- What the byte was at first. -/
  delivered : Address → UInt8

namespace Past

def start : Past := ⟨fun _ => false, fun _ => 0⟩

/-- What is left in a byte that is in no block. -/
def remnant (past : Past) (x : Address) : UInt8 :=
  if past.used x then poisonByte else past.delivered x

/-- The next state is observed. What was in no segment before and is in one now has just been handed
out. -/
def observe (past : Past) (m after : Machine) : Past where
  used x := after.inBlock x || (m.inSegment x && past.used x)
  delivered x :=
    if m.inSegment x then past.delivered x
    else if after.inSegment x then m.system.fresh x
    else 0

/-- A call is observed, and so is its state in between. -/
def follow (past : Past) (c : Call) (m : Machine) : Past :=
  (past.observe m (c.midway m)).observe (c.midway m) (c.run m).machine

/-- Calls are observed one after the other. -/
def along (past : Past) : List Call → Machine → Past
  | [], _ => past
  | c :: rest, m => (past.follow c m).along rest (c.run m).machine

end Past

namespace Machine

/-- The states that programs and their mistakes lead to if they write only inside blocks in use, each
with its past. -/
inductive Recalled : Machine → Past → Prop
  | start (slots : List Nat) : Recalled (.start slots) .start
  | step {m : Machine} {past : Past} (c : Call) : Recalled m past → c.Attemptable m → c.Tame m →
    Recalled (c.run m).machine (past.follow c m)

/-- A past tells what there is in all memory of segments that is in no block. -/
structure Recounts (m : Machine) (past : Past) : Prop where
  idle : ∀ x, m.Idle x → m.system.bytes x = past.remnant x
  used : ∀ x, m.inBlock x = true → past.used x = true

variable {m after : Machine} {past : Past} {lost : List (Address × PoolId)}
  {loans : List SystemBlock} {x : Address} {c : Call}

theorem Recalled.attempted (recalled : Recalled m past) : Attempted m := by
  induction recalled with
  | start slots => exact .start slots
  | step c _ may _ ih => exact ih.attempt may

theorem Recalled.runAll (recalled : Recalled m past) (reached : Reachable m) (calls : List Call)
    (fit : Call.areProper calls m = true) (tame : Call.areTame calls m = true) :
    Recalled (Call.runAll calls m) (past.along calls m) := by
  induction calls generalizing m past with
  | nil => exact recalled
  | cons c rest ih =>
    simp only [Call.areProper, Call.areTame, Bool.and_eq_true] at fit tame
    have proper := Call.proper_of_isProper fit.1
    exact ih (recalled.step c (reached.attemptable proper) (Call.tame_of_isTame tame.1))
      (reached.step c proper) fit.2 tame.2

theorem Attempted.sweeps (attempted : Attempted m) (may : c.Attemptable m) (tame : c.Tame m) :
    m.Sweeps (c.midway m) (c.Fills m) (c.run m).machine := by
  obtain ⟨lost, loans, sound⟩ := attempted.sound
  rcases may with ⟨sane, recorded⟩ | stops
  · exact sound.run_sweeps (.inl sane) (fun addr routed =>
      .inl (sound.handed_of_routed (recorded addr routed)).1) tame
  · exact sound.run_sweeps (.inr stops) (fun _ _ => .inr stops) tame

theorem inUse_of_inBlock (used : m.inBlock x = true) :
    ∃ b : Block, m.InUse b ∧ b.span.has x = true := by
  obtain ⟨p, inPools, here⟩ := List.any_eq_true.1 used
  obtain ⟨b, live, has⟩ := Heap.inBlock_iff.1 here
  exact ⟨b.issuedBy p.id, .inl ⟨p, inPools, mem_issued.2 ⟨b, live, rfl⟩⟩, has⟩

theorem Sound.held_of_inBlock (sound : m.Sound lost loans) (used : m.inBlock x = true) :
    m.system.Holds x := by
  obtain ⟨p, inPools, here⟩ := List.any_eq_true.1 used
  obtain ⟨b, live, has⟩ := Heap.inBlock_iff.1 here
  exact (sound.heap (sound.pool?_eq inPools)).held_of_live live has

/-- What a step obtains has been in no block before it. -/
theorem Sound.inSegment_of_used (sound : m.Sound lost loans) (tidies : m.Tidies after)
    (used : m.inBlock x = true) (inside : after.inSegment x = true) : m.inSegment x = true := by
  by_contra outside
  exact sound.below.not_delivers (sound.held_of_inBlock used)
    (tidies.obtained x (by simpa using outside) inside)

theorem Recounts.observe (recounts : Recounts m past) (sound : m.Sound lost loans)
    (tidies : m.Tidies after) : Recounts after (past.observe m after) where
  idle := by
    intro x idle
    have unused := idle.unused
    have inside := idle.inSegment
    cases before : m.inBlock x with
    | true =>
      have old := sound.inSegment_of_used tidies before inside
      rw [tidies.scrubbed x before idle]
      simp [Past.remnant, Past.observe, unused, old, recounts.used x before]
    | false =>
      rw [tidies.untouched x inside (by simp [before]) (by simp [unused]), remains]
      cases old : m.inSegment x with
      | true =>
        rw [if_pos rfl, recounts.idle x ⟨old, before⟩]
        simp [Past.remnant, Past.observe, unused, old]
      | false => simp [Past.remnant, Past.observe, unused, old, inside]
  used := fun x used => by simp [Past.observe, used]

theorem Sound.midway (sound : m.Sound lost loans) (c : Call) :
    ∃ lost loans, (c.midway m).Sound lost loans := by
  have arrives : ∀ (named : Option PoolId) (caller : Caller) (addr : Address) (request : Request),
      ∃ lost loans, (if m.marks.contains addr then m
        else (m.target caller named).2.arrival addr (m.target caller named).1 request).Sound
          lost loans := by
    intro named caller addr request
    split
    · exact ⟨lost, loans, sound⟩
    · have targeted := (sound.target caller named).1
      unfold arrival
      split
      · exact ⟨lost, loans, targeted⟩
      · have supplied := targeted.serve_supplied (m.target caller named).1 request
        generalize (m.target caller named).2.serve _ request = o at supplied
        cases supplied with
        | refused change => exact change.sound
        | supplied change _ _ => exact change.sound
  cases c with
  | reallocate caller named addr size => exact arrives named caller addr (.plain size caller.site)
  | reallocateLayout caller addr old align size =>
    exact arrives none caller addr ⟨size, align, false, none⟩
  | _ => exact ⟨lost, loans, sound⟩

theorem Recalled.recounts (recalled : Recalled m past) : Recounts m past := by
  induction recalled with
  | start slots => exact ⟨fun x idle => (nomatch idle.inSegment), nofun⟩
  | @step m past c before may tame ih =>
    obtain ⟨lost, loans, sound⟩ := before.attempted.sound
    obtain ⟨first, second, _, _⟩ := before.attempted.sweeps may tame
    obtain ⟨_, _, soundMidway⟩ := sound.midway c
    exact (ih.observe sound first).observe soundMidway second

/-- What comes into use shows what is known of its past, or what has just been handed out. -/
theorem Recalled.gains (recalled : Recalled m past) (may : c.Attemptable m) (tame : c.Tame m)
    (gained : m.Gained (c.run m).machine x) (unfilled : ¬ c.Fills m x) :
    (c.run m).machine.system.bytes x =
      if m.inSegment x then past.remnant x else m.system.fresh x := by
  rw [(recalled.attempted.sweeps may tame).gains x gained unfilled, remains]
  cases old : m.inSegment x with
  | true => exact recalled.recounts.idle x ⟨old, gained.unused⟩
  | false => rfl

section Alongside

variable (bytes bytes' : Bytes) (dropped dropped' : List Value)

theorem observe_upon :
    past.observe (m.upon bytes dropped) (after.upon bytes' dropped') = past.observe m after := rfl

/-- What the system heap delivers does not depend on what there is in memory. -/
theorem follow_upon {c' : Call} (alike : c.Alike c') :
    past.follow c' (m.upon bytes dropped) = past.follow c m := by
  obtain ⟨_, _, midway⟩ := alike.midway m bytes dropped
  obtain ⟨_, _, behind⟩ := (alike.run m bytes dropped).machine
  rw [Past.follow, midway, behind, observe_upon, observe_upon, Past.follow]

end Alongside

/-- Two runs with the same calls, apart from what they write. It is assumed that the system heap does
the same in both of them, and that it delivers the same content, whatever this is. -/
inductive Alongside : Machine → Machine → Prop
  | start (slots : List Nat) : Alongside (.start slots) (.start slots)
  | step {m m' : Machine} {c c' : Call} : Alongside m m' → c.Attemptable m → c.Tame m →
    c'.Attemptable m' → c'.Tame m' → c.Alike c' → Alongside (c.run m).machine (c'.run m').machine

/-- Both runs are in the same state but for what callers write, and they have the same past. -/
theorem Alongside.recalled {m' : Machine} (alongside : Alongside m m') :
    ∃ past bytes dropped, m' = m.upon bytes dropped ∧ Recalled m past ∧ Recalled m' past := by
  induction alongside with
  | start slots => exact ⟨.start, _, _, rfl, .start slots, .start slots⟩
  | @step m m' c c' _ may tame may' tame' alike ih =>
    obtain ⟨past, bytes, dropped, rfl, recalled, recalled'⟩ := ih
    obtain ⟨bytes', dropped', same⟩ := (alike.run m bytes dropped).machine
    refine ⟨past.follow c m, bytes', dropped', same, recalled.step c may tame, ?_⟩
    rw [← follow_upon bytes dropped alike]
    exact recalled'.step c' may' tame'

theorem Alongside.runAll (alongside : Alongside m m') (reached : Reachable m)
    (reached' : Reachable m') {calls calls' : List Call}
    (alike : List.Forall₂ Call.Alike calls calls') (fit : Call.areProper calls m = true)
    (tame : Call.areTame calls m = true) (fit' : Call.areProper calls' m' = true)
    (tame' : Call.areTame calls' m' = true) :
    Alongside (Call.runAll calls m) (Call.runAll calls' m') := by
  induction alike generalizing m m' with
  | nil => exact alongside
  | @cons c c' rest rest' alike _ ih =>
    simp only [Call.areProper, Call.areTame, Bool.and_eq_true] at fit tame fit' tame'
    have proper := Call.proper_of_isProper fit.1
    have proper' := Call.proper_of_isProper fit'.1
    exact ih (alongside.step (reached.attemptable proper) (Call.tame_of_isTame tame.1)
      (reached'.attemptable proper') (Call.tame_of_isTame tame'.1) alike) (reached.step c proper)
      (reached'.step c' proper') fit.2 tame.2 fit'.2 tame'.2

/-- The two calls fill the same part of what they bring into use. -/
theorem fills_upon {c' : Call} (alike : c.Alike c') (bytes : Bytes) (dropped : List Value) :
    c'.Fills (m.upon bytes dropped) x ↔ c.Fills m x := by
  cases alike with
  | same c =>
    cases c with
    | resizeBlock id addr size =>
      simp only [Call.Fills, (m.resizeBlock_alike bytes dropped id addr size).answer]
      exact Iff.rfl
    | reallocate caller named addr size =>
      simp only [Call.Fills, (m.reallocate_alike bytes dropped caller named addr size).answer]
      exact Iff.rfl
    | reallocateLayout caller addr old align size =>
      simp only [Call.Fills,
        (m.reallocateLayout_alike bytes dropped caller addr old align size).answer]
      exact Iff.rfl
    | box caller named value =>
      simp only [Call.Fills, (m.box_alike bytes dropped caller named rfl).answer]
    | boxOrAbort caller named value =>
      simp only [Call.Fills, (m.boxOrAbort_alike bytes dropped caller named rfl).answer]
    | _ => exact Iff.rfl
  | box caller named same =>
    simp only [Call.Fills, (m.box_alike bytes dropped caller named same).answer, same]
  | boxOrAbort caller named same =>
    simp only [Call.Fills, (m.boxOrAbort_alike bytes dropped caller named same).answer, same]
  | _ => exact Iff.rfl

/-- What a step brings into use shows the same in both runs. -/
theorem Alongside.gains {m' : Machine} {c' : Call} (alongside : Alongside m m')
    (may : c.Attemptable m) (tame : c.Tame m) (may' : c'.Attemptable m') (tame' : c'.Tame m')
    (alike : c.Alike c') (gained : m.Gained (c.run m).machine x) (unfilled : ¬ c.Fills m x) :
    (c'.run m').machine.system.bytes x = (c.run m).machine.system.bytes x := by
  obtain ⟨past, bytes, dropped, rfl, recalled, recalled'⟩ := alongside.recalled
  obtain ⟨_, _, same⟩ := (alike.run m bytes dropped).machine
  have gained' : (m.upon bytes dropped).Gained (c'.run (m.upon bytes dropped)).machine x :=
    same ▸ ⟨gained.inSegment, gained.unused, gained.used⟩
  rw [recalled.gains may tame gained unfilled, recalled'.gains may' tame' gained'
    (mt (fills_upon alike bytes dropped).1 unfilled)]
  rfl

section Issued

variable {b d : Block}

theorem Course.risen_inUse {first : Machine} (course : Course (c.Rising first) m after)
    (used : m.InUse b) : after.InUse b := by
  induction course with
  | refl => exact used
  | tail _ step ih =>
    obtain ⟨gone, new, written, change, rising⟩ := step
    exact change.still_inUse ih (by simp [rising.gone])

theorem Course.fallen_inUse (course : Course c.Falling m after) (used : after.InUse b) :
    m.InUse b := by
  induction course with
  | refl => exact used
  | tail _ step ih =>
    obtain ⟨gone, new, written, change, falling⟩ := step
    have old := ((change.inUse b).1 used).resolve_left (by simp [falling.new])
    exact ih old.1

/-- Where one block goes out of use and another one comes into use, the call names the first. -/
theorem Attempted.replaces (attempted : Attempted m) (may : c.Attemptable m) (old : m.InUse d)
    (gone : ¬ (c.run m).machine.InUse d) (used : (c.run m).machine.InUse b)
    (fresh : ¬ m.InUse b) : c.block? = some d.addr := by
  cases attempted.conduct may with
  | rises _ course => exact absurd (course.risen_inUse old) gone
  | falls _ course => exact absurd (course.fallen_inUse used) fresh
  | @moves addr target known request threads o named _ relocation same =>
    have old' : ({ m with threads } : Machine).InUse d := old
    by_contra other
    have intact := relocation.intact (c := c) old' fun start => other (start ▸ named)
    exact gone (same ▸ intact.inUse)

/-- A block that comes into use gains all its memory, apart from what was in the block that it
replaces. -/
theorem Attempted.issued (attempted : Attempted m) (may : c.Attemptable m)
    (used : (c.run m).machine.InUse b) (fresh : ¬ m.InUse b) (has : b.span.has x = true)
    (inside : (c.run m).machine.inSegment x = true) : m.Gained (c.run m).machine x ∨
      ∃ d, m.InUse d ∧ c.block? = some d.addr ∧ d.span.has x = true := by
  obtain ⟨_, _, sound⟩ := (attempted.attempt may).sound
  cases before : m.inBlock x with
  | false => exact .inl ⟨inside, before, sound.inBlock_of_inUse used has inside⟩
  | true =>
    obtain ⟨d, old, covers⟩ := inUse_of_inBlock before
    refine .inr ⟨d, old, attempted.replaces may old (fun still => ?_) used fresh, covers⟩
    have different : d ≠ b := fun same => fresh (same ▸ old)
    exact (sound.inUse_apart still used different).not_has covers has

end Issued

/-- A block is written to and goes out of use. -/
def reused (content : Nat → UInt8) : List Call :=
  [.openPool { thread := 0 } { owned := true }, .allocate { thread := 0 } none (.plain 40),
    .allocate { thread := 0 } none (.plain 300), .write (SystemHeap.slotBase 3) 40 content,
    .free { thread := 0 } none (SystemHeap.slotBase 3)]

end Machine

end PooledMemory
