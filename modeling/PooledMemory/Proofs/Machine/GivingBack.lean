import PooledMemory.Proofs.Machine.Anywhere

namespace PooledMemory

namespace Call

/-- The call gives a block back to the pool `id` that issued it, and marks do not stand in its way. -/
inductive GivesBack (marks : Marks) (id : PoolId) (addr : Address) : Call → Prop
  | free {caller : Caller} {expected : Option PoolId} : expected.all (· == id) = true →
    marks.contains addr = false → GivesBack marks id addr (.free caller expected addr)
  | freeLayout {caller : Caller} : marks.contains addr = false →
    GivesBack marks id addr (.freeLayout caller addr)
  | releaseBlock {caller : Caller} : GivesBack marks id addr (.releaseBlock caller id addr)
  | dropBox {caller : Caller} {box : Boxed} : box.addr = addr →
    GivesBack marks id addr (.dropBox caller box)
  | unbox {caller : Caller} {box : Boxed} : box.addr = addr →
    GivesBack marks id addr (.unbox caller box)

/-- No call is stopped. -/
def allServed : List Call → Machine → Prop
  | [], _ => True
  | c :: rest, m => (c.run m).answer = .ok () ∧ allServed rest (c.run m).machine

end Call

namespace Machine

variable {m : Machine} {loans : List SystemBlock} {p : Pool} {b : LiveBlock} {c : Call}
  {step : HeapStep (Option Nat)}

/-- The state after a pool has taken back a block, as long as the pool itself goes on. -/
def relieved (m : Machine) (id : PoolId) (addr : Address) (step : HeapStep (Option Nat))
    (dropped : List Value) : Machine :=
  ({ m with dropped }.untag addr).putHeap id step.heap step.system

theorem pool?_relieved (dropped : List Value) (found : m.pool? p.id = some p) :
    (m.relieved p.id b.addr step dropped).pool? p.id = some { p with heap := step.heap } := by
  have here : ({ m with dropped }.untag b.addr).pool? p.id = some p := found
  exact pool?_putHeap step.heap step.system here

/-- The calls differ in what they check, and come to the same. -/
theorem Sound.givesBack_run (sound : m.Sound [] loans) (owned : m.owner? b.addr = some p.id)
    (gives : c.GivesBack m.marks p.id b.addr) : ∃ caller dropped,
      c.run m = ({ m with dropped }.untag b.addr).releaseIn caller p.id b.addr := by
  cases gives with
  | @free caller expected named unmarked =>
    exact ⟨caller, m.dropped, (if_neg (by simp [unmarked])).trans
      (sound.release_recorded caller owned named)⟩
  | @freeLayout caller unmarked =>
    exact ⟨caller, m.dropped, (if_neg (by simp [unmarked])).trans
      (sound.release_recorded caller owned rfl)⟩
  | @releaseBlock caller =>
    refine ⟨caller, m.dropped, ?_⟩
    simp only [Call.run, Machine.releaseBlock, owned, if_true]
  | @dropBox caller box start =>
    refine ⟨caller, m.readBox box :: m.dropped, ?_⟩
    rw [← start] at owned ⊢
    exact (sound.dropValue (m.readBox box)).release_recorded caller owned rfl
  | @unbox caller box start =>
    refine ⟨caller, m.dropped, ?_⟩
    rw [← start] at owned ⊢
    have released : m.release caller none box.addr =
        (m.untag box.addr).releaseIn caller p.id box.addr :=
      sound.release_recorded caller owned rfl
    obtain ⟨answer, -⟩ := (sound.untag owned).releaseIn caller
    show Outcome.map _ (Outcome.map _ (m.release caller none box.addr)) = _
    rw [released]
    -- the value read from the box is not part of what is compared
    generalize (m.untag box.addr).releaseIn caller p.id box.addr = o at answer ⊢
    obtain ⟨_, after⟩ := o
    cases answer
    rfl

/-- The pool takes the block back, and a pool that has waited for nothing else is destroyed. -/
theorem Sound.givesBack (sound : m.Sound [] loans) (inPools : p ∈ m.pools) (live : b ∈ p.heap.live)
    (gives : c.GivesBack m.marks p.id b.addr) : ∃ caller dropped step,
      p.heap.release m.system b.addr = .ok step ∧
        p.heap.Frees (m.rest p.id ++ loans) [] b.addr step ∧
        c.run m = .ok () (if p.phase = .deletePending ∧ step.heap.live = [] then
          (m.relieved p.id b.addr step dropped).destroy caller { p with heap := step.heap }
        else m.relieved p.id b.addr step dropped) := by
  have found := sound.pool?_eq inPools
  have owned : m.owner? b.addr = some p.id := sound.owner?_of_live ⟨p, inPools, rfl, b, live, rfl⟩
  obtain ⟨step, released, frees⟩ := (sound.heap found).release b.addr
  obtain ⟨caller, dropped, runs⟩ := sound.givesBack_run owned gives
  have untagged : ({ m with dropped }.untag b.addr).Sound [(b.addr, p.id)] loans :=
    (sound.untag owned).frame rfl rfl rfl rfl
  exact ⟨caller, dropped, step, released, frees, runs.trans (untagged.releaseIn_eq caller found
    ((sound.heap found).block?_eq live) released)⟩

/-- Who gives back a live block makes a proper call. -/
theorem proper_of_givesBack (inPools : p ∈ m.pools) (live : b ∈ p.heap.live)
    (gives : c.GivesBack m.marks p.id b.addr) : c.Proper m := by
  have isLive : m.IsLiveIn p.id b.addr := ⟨p, inPools, rfl, b, live, rfl⟩
  have inUse : (∃ id, m.IsLiveIn id b.addr) ∨ m.IsLoaned b.addr := .inl ⟨p.id, isLive⟩
  cases gives with
  | free named =>
    refine ⟨trivial, fun addr block => ?_, fun id addr expected block => ?_⟩
    · cases block
      exact inUse
    · cases block
      cases expected
      rw [Option.all_some, beq_iff_eq] at named
      exact named ▸ isLive
  | freeLayout =>
    exact ⟨trivial, fun addr block => by cases block; exact inUse, nofun⟩
  | releaseBlock =>
    exact ⟨trivial, fun addr block => by cases block; exact inUse, nofun⟩
  | dropBox start =>
    exact ⟨trivial, fun addr block => by cases block; rw [start]; exact inUse, nofun⟩
  | unbox start =>
    exact ⟨trivial, fun addr block => by cases block; rw [start]; exact inUse, nofun⟩

end Machine

end PooledMemory
