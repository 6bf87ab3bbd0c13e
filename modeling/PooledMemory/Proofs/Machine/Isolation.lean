import PooledMemory.Proofs.Machine.Phases

namespace PooledMemory

namespace Machine

/-- A block in use stays as it is, with all of its content that a call does not write on demand. -/
structure Intact (c : Call) (m after : Machine) (b : Block) : Prop where
  inUse : after.InUse b
  bytes : ∀ x, b.span.has x = true → (∀ w, c.written? = some w → ¬ w.has x = true) →
    after.system.bytes x = m.system.bytes x

variable {m middle after : Machine} {lost : List (Address × PoolId)} {loans : List SystemBlock}
  {id : PoolId} {b : Block} {gone new : List Block} {written : List Span} {c : Call}

theorem Intact.trans (first : Intact c m middle b) (second : Intact c middle after b) :
    Intact c m after b :=
  ⟨second.inUse, fun x inside unwritten =>
    (second.bytes x inside unwritten).trans (first.bytes x inside unwritten)⟩

theorem Exchanges.intact (exchanges : Exchanges m after gone new written) (used : m.InUse b)
    (stays : b ∉ gone) (outside : ∀ w ∈ written, c.written? = some w ∨ b.span.Apart w) :
    Intact c m after b := by
  refine ⟨(exchanges.inUse b).2 (.inr ⟨used, stays⟩), fun x inside unwritten => ?_⟩
  refine exchanges.kept b used stays x inside fun w member => ?_
  rcases outside w member with asked | apart
  · exact unwritten w asked
  · exact apart.not_has inside

/-- A pool that has ended does not come back. -/
theorem Evolves.hasEnded (evolves : m.Evolves after) (ended : m.HasEnded id) :
    after.HasEnded id := by
  obtain ⟨p, member, rfl, phase⟩ := ended
  obtain ⟨q, inAfter, later⟩ := evolves.pools p member
  refine ⟨q, inAfter, later.id, ?_⟩
  have rank := later.phase
  rw [phase] at rank
  cases phase' : q.phase with
  | live => simp [phase', Phase.rank] at rank
  | deletePending => simp [phase', Phase.rank] at rank
  | destroyed => rfl

/-- A block is intact after changes that take it away only if its pool ends. -/
theorem Course.intact {may : Machine → List Block → List Block → List Span → Prop}
    (course : Course may m after) (sound : m.Sound lost loans) (enrolled : m.Enrolled)
    (used : m.InUse b)
    (goes : ∀ s gone new written, may s gone new written → b ∈ gone →
      ∃ id, b.owner = some id ∧ s.HasEnded id)
    (writes : ∀ s gone new written, may s gone new written →
      ∀ w ∈ written, c.written? = some w ∨ b.span.Apart w)
    (stands : ∀ id, b.owner = some id → ¬ after.HasEnded id) : Intact c m after b := by
  induction course with
  | refl => exact ⟨used, fun _ _ _ => rfl⟩
  | tail before step ih =>
    obtain ⟨gone, new, written, change, allowed⟩ := step
    obtain ⟨_, _, soundMiddle⟩ := Course.sound before ⟨lost, loans, sound⟩
    have enrolledMiddle := (Course.enrolled before ⟨lost, loans, sound⟩ enrolled).1
    have evolves := (soundMiddle.change_enrolled enrolledMiddle change).2
    have intact := ih fun id owner ended => stands id owner (evolves.hasEnded ended)
    have stays : b ∉ gone := by
      intro inGone
      obtain ⟨id, owner, ended⟩ := goes _ _ _ _ allowed inGone
      exact stands id owner ended
    exact intact.trans (change.toExchanges.intact intact.inUse stays (writes _ _ _ _ allowed))

theorem Relocation.intact {addr : Address} {target : Target} {known : Option Nat}
    {request : Request} {o : Outcome (Option Address)}
    (relocation : Relocation m addr target known request o) (used : m.InUse b)
    (other : b.addr ≠ addr) : Intact c m o.machine b := by
  have elsewhere : ∀ d : Block, d.addr = addr → b ∉ [d] := by
    intro d start member
    exact other (List.mem_singleton.1 member ▸ start)
  cases relocation with
  | refused change _ => exact change.toExchanges.intact used (by simp) (by simp)
  | refitted _ _ start _ change _ _ _ =>
    exact change.toExchanges.intact used (elsewhere _ start) (by simp)
  | carried _ start _ _ _ exchanges _ _ _ =>
    exact exchanges.intact used (elsewhere _ start) (by simp)
  | @abandoned new _ _ _ issue untag release _ =>
    have issued : Intact c m (m.serve target request).machine b :=
      issue.toExchanges.intact used (by simp) (by simp)
    have untagged := untag.toExchanges.intact (c := c) issued.inUse (by simp) (by simp)
    have old : b ∉ [new] := by
      intro member
      obtain rfl := List.mem_singleton.1 member
      simpa using issue.fresh b (by simp) used
    exact (issued.trans untagged).trans
      (release.toExchanges.intact untagged.inUse old (by simp))

end Machine

/-- A call leaves those blocks intact that it does not name and whose pools it does not end. -/
theorem Call.Conduct.intact {m after : Machine} {lost : List (Address × PoolId)}
    {loans : List SystemBlock} {b : Block} {c : Call} (conduct : c.Conduct m after)
    (sound : m.Sound lost loans) (enrolled : m.Enrolled) (used : m.InUse b)
    (unnamed : c.block? ≠ some b.addr) (stands : ∀ id, b.owner = some id → ¬ after.HasEnded id) :
    Machine.Intact c m after b := by
  cases conduct with
  | rises _ course =>
    refine course.intact sound enrolled used (fun s gone new written rising member => ?_)
      (fun s gone new written rising w member => ?_) stands
    · rw [rising.gone] at member
      cases member
    · exact (rising.written w member).imp_right fun apart => apart b used
  | falls _ course =>
    refine course.intact sound enrolled used (fun s gone new written falling member => ?_)
      (fun s gone new written falling w member => ?_) stands
    · exact (falling.gone b member).resolve_left unnamed
    · rw [falling.written] at member
      cases member
  | moves named _ relocation same =>
    subst same
    have used' : Machine.InUse _ b := used
    obtain ⟨inUse, bytes⟩ := relocation.intact (c := c) used' fun start =>
      unnamed (named.trans (congrArg some start.symm))
    exact ⟨inUse, bytes⟩

namespace Machine

variable {m : Machine} {b : Block} {c : Call}

/-- In all states that programs reach, a proper call touches no block in use but those that it
releases, by name or with their pool, resizes, or writes to through a box. -/
theorem Reachable.isolated (reached : Reachable m) (proper : c.Proper m) (used : m.InUse b)
    (unnamed : c.block? ≠ some b.addr)
    (stands : ∀ id, b.owner = some id → ¬ (c.run m).machine.HasEnded id) :
    (c.run m).machine.InUse b ∧ (c.run m).machine.owner? b.addr = b.owner ∧
      ∀ x, b.span.has x = true → (∀ w, c.written? = some w → ¬ w.has x = true) →
        (c.run m).machine.system.bytes x = m.system.bytes x := by
  obtain ⟨loans, sound⟩ := reached.sound
  obtain ⟨loans', sound'⟩ := (reached.step c proper).sound
  have intact := (reached.conduct proper).intact sound reached.enrolled used unnamed stands
  exact ⟨intact.inUse, sound'.owner?_of_inUse intact.inUse, intact.bytes⟩

/-- A block of one pool is as before after the other pool has ended. -/
theorem busy_isolated :
    let after := ((Call.dropPool { thread := 1 } 2).run busy).machine
    let b : Block := ⟨some 1, SystemHeap.slotBase 3 + 352, 112, 16⟩
    (busy.InUse b ∧ after.HasEnded 2 ∧ ¬ after.HasEnded 1) ∧ after.InUse b ∧
      after.owner? b.addr = b.owner ∧
      ∀ x, b.span.has x = true → after.system.bytes x = busy.system.bytes x := by
  have proper : (Call.dropPool { thread := 1 } 2).Proper busy :=
    Call.proper_of_isProper (by decide +kernel)
  have used : busy.InUse ⟨some 1, SystemHeap.slotBase 3 + 352, 112, 16⟩ := by decide +kernel
  have ended : ((Call.dropPool { thread := 1 } 2).run busy).machine.HasEnded 2 := by
    decide +kernel
  have stands : ¬ ((Call.dropPool { thread := 1 } 2).run busy).machine.HasEnded 1 := by
    decide +kernel
  obtain ⟨inUse, owner, bytes⟩ := Reachable.isolated busy_reachable proper used nofun (by
    intro id own
    cases own
    exact stands)
  exact ⟨⟨used, ended, stands⟩, inUse, owner, fun x inside => bytes x inside nofun⟩

end Machine

end PooledMemory
