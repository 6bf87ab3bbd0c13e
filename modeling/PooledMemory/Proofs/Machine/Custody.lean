import PooledMemory.Proofs.Machine.Phases
import PooledMemory.Proofs.Machine.Reallocation
import PooledMemory.Proofs.Machine.Returns

namespace PooledMemory

namespace Call

/-- The block that a call has answered. -/
def answered? (c : Call) (m : Machine) : Option Address :=
  let granted (o : Outcome (Except Failure Address)) := o.answer.toOption.bind (·.toOption)
  match c with
  | allocate caller named request => granted (m.allocate caller named request)
  | allocateLayout caller size align zeroed => granted (m.allocateLayout caller size align zeroed)
  | foreign request => granted (m.serve .systemHeap request)
  | resizeBlock id addr size => (m.resizeBlock id addr size).answer.toOption.join
  | reallocate caller named addr size => (m.reallocate caller named addr size).answer.toOption.join
  | reallocateLayout caller addr old align size =>
    (m.reallocateLayout caller addr old align size).answer.toOption.join
  | box caller named value =>
    ((m.box caller named value).answer.toOption.bind (·.toOption)).map (·.addr)
  | boxOrAbort caller named value => (m.boxOrAbort caller named value).answer.toOption.map (·.addr)
  | _ => none

/-- Whether a call has taken its block from the caller. A block that is to be resized or moved stays
with the caller if none is answered for it, and pools take back their own blocks only. -/
def takes (c : Call) (m : Machine) : Bool :=
  match c with
  | releaseBlock _ id addr => m.owner? addr == some id
  | resizeBlock _ _ _ => (c.answered? m).isSome
  | reallocate _ _ _ _ => (c.answered? m).isSome
  | reallocateLayout _ _ _ _ _ => (c.answered? m).isSome
  | _ => (c.run m).answer.isOk

/-- The block that a call has taken from its caller. -/
def surrendered? (c : Call) (m : Machine) : Option Address := c.block?.filter fun _ => c.takes m

/-- What callers have from the system heap after a call, given what they had before it: blocks come
to them that no pool owns, and they do without those that they gave up. -/
def settle (c : Call) (m : Machine) (held : List Address) : List Address :=
  ((c.answered? m).filter fun addr => (c.run m).machine.owner? addr == none).toList ++
    (c.surrendered? m).elim held held.erase

end Call

namespace Machine

/-- The states that programs reach, with the addresses of the blocks that they have from the system
heap and have not given up. -/
inductive Holding : Machine → List Address → Prop
  | start (slots : List Nat) : Holding (.start slots) []
  | step {m : Machine} {held : List Address} (c : Call) : Holding m held → c.Proper m →
    Holding (c.run m).machine (c.settle m held)

/-- The blocks in use that no pool owns start at these addresses, each of them listed once. -/
structure Lends (m : Machine) (held : List Address) : Prop where
  once : held.Nodup
  lent : ∀ addr, addr ∈ held ↔ ∃ b, m.InUse b ∧ b.owner = none ∧ b.addr = addr

variable {m after : Machine} {lost lost' : List (Address × PoolId)}
  {loans loans' : List SystemBlock} {id : PoolId} {held : List Address} {c : Call}

theorem Holding.reachable (holding : Holding m held) : Reachable m := by
  induction holding with
  | start slots => exact .start slots
  | step c _ proper ih => exact ih.step c proper

theorem Reachable.holding (reached : Reachable m) : ∃ held, Holding m held := by
  induction reached with
  | start slots => exact ⟨[], .start slots⟩
  | step c _ proper ih =>
    obtain ⟨held, holding⟩ := ih
    exact ⟨_, holding.step c proper⟩

theorem Sound.loans_addr_nodup (sound : m.Sound lost loans) : (loans.map (·.addr)).Nodup := by
  have unique := (sound.held.map (·.addr)).nodup_iff.1 sound.below.addr_nodup
  rw [List.map_append] at unique
  exact (List.nodup_append.1 unique).2.1

theorem Sound.mem_loans_addr (sound : m.Sound lost loans) (addr : Address) :
    addr ∈ loans.map (·.addr) ↔ ∃ b, m.InUse b ∧ b.owner = none ∧ b.addr = addr := by
  constructor
  · intro loaned
    obtain ⟨b, member, start⟩ := List.mem_map.1 loaned
    exact ⟨b.lent, inUse_of_loan sound member, rfl, start⟩
  · rintro ⟨c, used, unowned, rfl⟩
    obtain ⟨b, member, rfl⟩ := sound.exists_loan used unowned
    exact List.mem_map_of_mem (f := (·.addr)) member

/-- What callers have is what the system heap has handed out past all pools. -/
theorem Sound.lends_iff (sound : m.Sound lost loans) :
    m.Lends held ↔ (loans.map (·.addr)).Perm held := by
  have unique := sound.loans_addr_nodup
  constructor
  · intro lends
    refine (List.perm_ext_iff_of_nodup unique lends.once).2 fun addr => ?_
    rw [sound.mem_loans_addr, lends.lent]
  · intro perm
    refine ⟨perm.nodup_iff.1 unique, fun addr => ?_⟩
    rw [← perm.mem_iff, sound.mem_loans_addr]

/-- Callers have the same blocks if the same ones are on loan. -/
theorem Lends.keep (lends : m.Lends held) (sound : m.Sound lost loans)
    (sound' : after.Sound lost' loans) : after.Lends held :=
  sound'.lends_iff.2 (sound.lends_iff.1 lends)

/-- What callers keep when at most one block goes out of use. -/
theorem Lends.remaining {gone : Option Block} (lends : m.Lends held) (sound : m.Sound lost loans)
    (old : ∀ g ∈ gone.toList, m.InUse g) :
    ((gone.map (·.addr)).elim held held.erase).Nodup ∧
      ∀ addr, addr ∈ (gone.map (·.addr)).elim held held.erase ↔
        ∃ b, (m.InUse b ∧ b ∉ gone.toList) ∧ b.owner = none ∧ b.addr = addr := by
  cases gone with
  | none => exact ⟨lends.once, by simpa using lends.lent⟩
  | some g =>
    have used : m.InUse g := old g (by simp)
    refine ⟨lends.once.erase g.addr, fun addr => ?_⟩
    show addr ∈ held.erase g.addr ↔ _
    rw [lends.once.mem_erase_iff, lends.lent]
    constructor
    · rintro ⟨other, b, used', unowned, rfl⟩
      have different : b ≠ g := fun same => other (congrArg Block.addr same)
      exact ⟨b, ⟨used', by simpa using different⟩, unowned, rfl⟩
    · rintro ⟨b, ⟨used', out⟩, unowned, rfl⟩
      have different : b ≠ g := by simpa using out
      exact ⟨fun same => different (sound.inUse_unique used' used same), b, used', unowned, rfl⟩

/-- One block gives way to another one, of which callers have those that no pool owns. -/
theorem Lends.exchange {gone new : Option Block} {written : List Span} (lends : m.Lends held)
    (sound : m.Sound lost loans) (sound' : after.Sound lost' loans')
    (exchanges : Exchanges m after gone.toList new.toList written) :
    after.Lends (((new.filter (·.owner == none)).map (·.addr)).toList ++
      (gone.map (·.addr)).elim held held.erase) := by
  obtain ⟨once, stays⟩ := lends.remaining sound exchanges.old
  have inUse := exchanges.inUse
  cases new with
  | none =>
    refine ⟨once, fun addr => (stays addr).trans (exists_congr fun b => ?_)⟩
    rw [inUse]
    simp
  | some n =>
    have comes : after.InUse n := (inUse n).2 (.inl (by simp))
    simp only [Option.toList_some, List.mem_singleton] at inUse
    cases owner : n.owner with
    | some id =>
      have nothing : (((some n).filter (·.owner == none)).map (·.addr)).toList = [] := by
        simp [owner]
      rw [nothing]
      refine ⟨once, fun addr => (stays addr).trans (exists_congr fun b => ?_)⟩
      rw [inUse]
      constructor
      · exact fun ⟨used, rest⟩ => ⟨.inr used, rest⟩
      · rintro ⟨rfl | used, unowned, start⟩
        · cases owner.symm.trans unowned
        · exact ⟨used, unowned, start⟩
    | none =>
      have first : (((some n).filter (·.owner == none)).map (·.addr)).toList = [n.addr] := by
        simp [owner]
      rw [first, List.singleton_append]
      refine ⟨List.nodup_cons.2 ⟨fun member => ?_, once⟩, fun addr => ?_⟩
      · obtain ⟨b, used, _, start⟩ := (stays n.addr).1 member
        obtain rfl := sound'.inUse_unique ((inUse b).2 (.inr used)) comes start
        exact used.2 (exchanges.fresh b (by simp) used.1)
      · rw [List.mem_cons, stays]
        constructor
        · rintro (rfl | ⟨b, used, rest⟩)
          · exact ⟨n, comes, owner, rfl⟩
          · exact ⟨b, (inUse b).2 (.inr used), rest⟩
        · rintro ⟨b, used, unowned, rfl⟩
          rcases (inUse b).1 used with rfl | used
          · exact .inl rfl
          · exact .inr ⟨b, used, unowned, rfl⟩

/-- The answer of a call and the block it has taken tell what callers have after it. -/
theorem Lends.settle {gone new : Option Block} {written : List Span} (lends : m.Lends held)
    (sound : m.Sound lost loans) (sound' : (c.run m).machine.Sound [] loans')
    (exchanges : Exchanges m (c.run m).machine gone.toList new.toList written)
    (left : c.surrendered? m = gone.map (·.addr)) (come : c.answered? m = new.map (·.addr)) :
    (c.run m).machine.Lends (c.settle m held) := by
  have arrived : ((c.answered? m).filter fun addr => (c.run m).machine.owner? addr == none) =
      (new.filter (·.owner == none)).map (·.addr) := by
    rw [come]
    cases new with
    | none => rfl
    | some n =>
      have used : (c.run m).machine.InUse n := (exchanges.inUse n).2 (.inl (by simp))
      have recorded := sound'.owner?_of_inUse used
      cases owner : n.owner with
      | none => simp [Option.filter, recorded, owner]
      | some id => simp [Option.filter, recorded, owner]
  rw [Call.settle, arrived, left]
  exact lends.exchange sound sound' exchanges

/-- A request brings at most the block that is answered. -/
theorem Supplied.exchanges {owner : Option PoolId} {request : Request}
    {o : Outcome (Except Failure Address)} (supplied : Supplied m owner request o) :
    ∃ new : Option Block, Exchanges m o.machine [] new.toList [] ∧
      o.answer.toOption.bind (·.toOption) = new.map (·.addr) := by
  cases supplied with
  | refused change => exact ⟨none, change.toExchanges, rfl⟩
  | @supplied b after change _ _ => exact ⟨some b, change.toExchanges, rfl⟩

/-- One block gives way to another one that is answered, or none goes out of use. -/
def Passes (m : Machine) (addr : Address) (o : Outcome (Option Address)) : Prop :=
  ∃ gone new : Option Block, Exchanges m o.machine gone.toList new.toList [] ∧
    o.answer.toOption.join = new.map (·.addr) ∧ gone.map (·.addr) = new.map fun _ => addr

theorem Relocation.passes {addr : Address} {target : Target} {known : Option Nat}
    {request : Request} {o : Outcome (Option Address)}
    (relocation : Relocation m addr target known request o) : m.Passes addr o := by
  cases relocation with
  | refused change _ => exact ⟨none, none, change.toExchanges, rfl, rfl⟩
  | @refitted b new after _ _ start _ change _ _ _ =>
    exact ⟨some b, some new, change.toExchanges, rfl, congrArg some start⟩
  | @carried b new after _ start _ _ _ exchanges _ _ _ =>
    exact ⟨some b, some new, exchanges, rfl, congrArg some start⟩
  | @abandoned new untagged after _ issue untag release _ =>
    refine ⟨none, none, ?_, rfl, rfl⟩
    show Exchanges m after [] [] []
    simpa using (issue.toExchanges.trans untag.toExchanges).trans release.toExchanges

theorem Passes.of_threads {threads : ThreadId → Register} {addr : Address}
    {o : Outcome (Option Address)} (passes : ({ m with threads } : Machine).Passes addr o) :
    m.Passes addr o := by
  obtain ⟨gone, new, ⟨inUse, old, fresh, kept⟩, answer, left⟩ := passes
  exact ⟨gone, new, ⟨inUse, old, fresh, kept⟩, answer, left⟩

theorem Sound.passes_stop (sound : m.Sound lost loans) (addr : Address) (fault : Fault) :
    m.Passes addr (.stop fault m) :=
  ⟨none, none, (sound.aside sound rfl rfl rfl rfl).toExchanges, rfl, rfl⟩

theorem Sound.resizeBlock_passes (sound : m.Sound lost loans) (id : PoolId) (addr : Address)
    (size : Nat) : m.Passes addr (m.resizeBlock id addr size) := by
  unfold Machine.resizeBlock
  by_cases own : m.owner? addr = some id
  · rw [if_pos own]
    have relocation : Relocation m addr (.pool id) none (.plain size) (m.resizeIn id addr size) :=
      sound.resizeIn_relocation (.pool id) own rfl (.plain size)
    exact relocation.passes
  · rw [if_neg own]
    exact sound.passes_stop addr _

theorem Sound.directed_passes (sound : m.Sound lost loans) {addr : Address}
    {o : Outcome (Option Address)} (directed : m.Directed addr o) (handed : m.Handed loans addr) :
    m.Passes addr o := by
  cases directed with
  | marked _ => exact ((sound.withThreads _).passes_stop addr _).of_threads
  | @relocated threads caller target known request _ =>
    have passes : ({ m with threads } : Machine).Passes addr
        (({ m with threads } : Machine).relocate caller target addr known request) :=
      ((sound.withThreads threads).relocate_relocation caller target (.inl handed)).passes
    exact passes.of_threads

theorem Sound.box_exchanges (sound : m.Sound lost loans) (caller : Caller) (named : Option PoolId)
    (value : Value) : ∃ (new : Option Block) (written : List Span),
      Exchanges m (m.box caller named value).machine [] new.toList written ∧
      ((m.box caller named value).answer.toOption.bind (·.toOption)).map (·.addr) =
        new.map (·.addr) := by
  obtain ⟨owner, supplied⟩ :=
    sound.allocate_supplied caller named (value.type.request caller.site)
  unfold Machine.box
  generalize m.allocate caller named _ = o at supplied
  cases supplied with
  | @refused failure middle change =>
    obtain ⟨inUse, old, fresh, kept⟩ := change.toExchanges
    exact ⟨none, [], ⟨inUse, old, fresh, kept⟩, rfl⟩
  | @supplied b middle change _ enough =>
    obtain ⟨lost', loans', sound'⟩ := change.sound
    have fill := sound'.write_change b.addr value.type.payload value.byte
    refine ⟨some b, [⟨b.addr, value.type.payload⟩], ?_, rfl⟩
    have both := change.toExchanges.trans fill.toExchanges
    simp only [List.nil_append, List.append_nil, List.filter_nil, List.not_mem_nil,
      not_false_eq_true, decide_true, List.filter_true] at both
    exact both

theorem Sound.boxOrAbort_exchanges (sound : m.Sound lost loans) (caller : Caller)
    (named : Option PoolId) (value : Value) : ∃ (new : Option Block) (written : List Span),
      Exchanges m (m.boxOrAbort caller named value).machine [] new.toList written ∧
      (m.boxOrAbort caller named value).answer.toOption.map (·.addr) = new.map (·.addr) := by
  rw [boxOrAbort_machine, boxOrAbort_answer]
  exact sound.box_exchanges caller named value

/-- A block that a caller has goes out of use with its release. -/
theorem Sound.release_exchanges (sound : m.Sound lost loans) (caller : Caller)
    {expected : Option PoolId} {addr : Address} (handed : m.Handed loans addr)
    (named : ∀ id, m.owner? addr = some id → expected.all (· == id) = true) :
    (m.release caller expected addr).answer = .ok () ∧ ∃ b : Block, b.addr = addr ∧
      Exchanges m (m.release caller expected addr).machine [b] [] [] := by
  obtain ⟨b, untagged, after, released, _, start, untag, release⟩ :=
    sound.release_change caller expected handed named
  rw [released]
  refine ⟨rfl, b, start, ?_⟩
  show Exchanges m after [b] [] []
  simpa using untag.toExchanges.trans release.toExchanges

theorem Sound.releaseBlock_exchanges (sound : m.Sound lost loans) (caller : Caller)
    {addr : Address} (owned : m.owner? addr = some id) : ∃ b : Block, b.addr = addr ∧
      Exchanges m (m.releaseBlock caller id addr).machine [b] [] [] := by
  obtain ⟨b, _, _, start, release⟩ := (sound.untag owned).releaseIn_change caller
  refine ⟨b, start, ?_⟩
  simp only [Machine.releaseBlock, owned, if_true]
  simpa using (sound.untag_change owned).toExchanges.trans release.toExchanges

/-- What no pool has issued, no pool takes back. -/
theorem Sound.releaseBlock_unowned (sound : m.Sound [] loans) (caller : Caller) {addr : Address}
    (other : m.owner? addr ≠ some id) : (m.releaseBlock caller id addr).machine.Sound [] loans := by
  unfold Machine.releaseBlock
  cases owned : m.owner? addr with
  | some owner =>
    have wrong : owner ≠ id := fun same => other (owned.trans (congrArg some same))
    simp only [if_neg wrong]
    exact sound
  | none =>
    refine (sound.releaseIn_of_none caller fun p found => ?_).1
    refine Option.eq_none_iff_forall_not_mem.2 fun b live => ?_
    have isLive := mem_livePairs.1 (sound.mem_livePairs_iff.2 ⟨p, b, found, live⟩)
    exact other (sound.owner?_of_live isLive)

/-- A call that neither answers a block nor takes one leaves callers with what they had. -/
theorem Lends.settle_kept (lends : m.Lends held) (sound : m.Sound lost loans)
    (after : (c.run m).machine.Sound lost' loans) (answers : c.answered? m = none)
    (either : c.block? = none ∨ c.takes m = false) :
    (c.run m).machine.Lends (c.settle m held) := by
  have same : c.settle m held = held := by
    rcases either with block | takes
    · simp [Call.settle, Call.surrendered?, answers, block]
    · simp [Call.settle, Call.surrendered?, answers, takes]
  rw [same]
  exact lends.keep sound after

/-- A call that is given no block answers at most one. -/
theorem Lends.settle_granted {new : Option Block} {written : List Span} (lends : m.Lends held)
    (sound : m.Sound lost loans) (sound' : (c.run m).machine.Sound [] loans')
    (exchanges : Exchanges m (c.run m).machine [] new.toList written)
    (come : c.answered? m = new.map (·.addr)) (block : c.block? = none) :
    (c.run m).machine.Lends (c.settle m held) := by
  have nothing : Exchanges m (c.run m).machine (none : Option Block).toList new.toList written :=
    exchanges
  refine lends.settle sound sound' nothing ?_ come
  rw [Call.surrendered?, block]
  rfl

/-- A call that is to resize or move a block takes it if it answers one. -/
theorem Lends.settle_moved {addr : Address} {o : Outcome (Option Address)} (lends : m.Lends held)
    (sound : m.Sound lost loans) (sound' : (c.run m).machine.Sound [] loans')
    (passes : m.Passes addr o) (machine : (c.run m).machine = o.machine)
    (block : c.block? = some addr) (answers : c.answered? m = o.answer.toOption.join)
    (takes : c.takes m = (c.answered? m).isSome) :
    (c.run m).machine.Lends (c.settle m held) := by
  obtain ⟨gone, new, exchanges, answer, left⟩ := passes
  rw [← machine] at exchanges
  have come := answers.trans answer
  refine lends.settle sound sound' exchanges ?_ come
  rw [Call.surrendered?, block, takes, come, left]
  cases new <;> rfl

/-- A call that releases its block answers none. -/
theorem Lends.settle_released {addr : Address} (lends : m.Lends held) (sound : m.Sound lost loans)
    (sound' : (c.run m).machine.Sound [] loans')
    (exchanged : ∃ b : Block, b.addr = addr ∧ Exchanges m (c.run m).machine [b] [] [])
    (block : c.block? = some addr) (answers : c.answered? m = none) (takes : c.takes m = true) :
    (c.run m).machine.Lends (c.settle m held) := by
  obtain ⟨b, start, exchanges⟩ := exchanged
  have one : Exchanges m (c.run m).machine (some b).toList (none : Option Block).toList [] :=
    exchanges
  refine lends.settle sound sound' one ?_ answers
  rw [Call.surrendered?, block, takes, ← start]
  rfl

/-- Every call leaves callers with the blocks that its answer says. -/
theorem Sound.run_lends (sound : m.Sound [] loans) (proper : c.Proper m)
    (sound' : ∃ loans', (c.run m).machine.Sound [] loans') (lends : m.Lends held) :
    (c.run m).machine.Lends (c.settle m held) := by
  obtain ⟨loans', sound'⟩ := sound'
  have given : ∀ addr, c.routed? = some addr → m.Handed loans addr ∧
      ∀ owner, m.owner? addr = some owner → c.expected?.all (· == owner) = true :=
    fun _ routed => sound.handed_of_routed (sound.routed_of_proper proper routed)
  -- calls that free a block have taken it unless they stop
  have freed : ∀ {addr : Address}, c.block? = some addr → c.answered? m = none →
      c.takes m = (c.run m).answer.isOk → (c.run m).answer = .ok () →
      (∃ b : Block, b.addr = addr ∧ Exchanges m (c.run m).machine [b] [] []) →
      (c.run m).machine.Lends (c.settle m held) := by
    intro addr block answers takes answer exchanged
    refine lends.settle_released sound sound' exchanged block answers ?_
    rw [takes, answer]
    rfl
  have stopped : ∀ {fault : Fault}, c.answered? m = none → c.takes m = (c.run m).answer.isOk →
      c.run m = .stop fault m → (c.run m).machine.Lends (c.settle m held) := by
    intro fault answers takes stops
    refine lends.settle_kept sound (by rw [stops]; exact sound) answers (.inr ?_)
    rw [takes, stops]
    rfl
  cases c with
  | openPool caller settings =>
    exact lends.settle_kept sound (sound.openPool caller proper.sane) rfl (.inl rfl)
  | dropPool caller id =>
    obtain ⟨⟨lost', _, after⟩, _⟩ := sound.dropPool caller id
    exact lends.settle_kept sound after rfl (.inl rfl)
  | trimPool id => exact lends.settle_kept sound (sound.trimPool id).1 rfl (.inl rfl)
  | exitThread thread =>
    obtain ⟨lost', _, after⟩ := sound.exitThread thread
    exact lends.settle_kept sound after rfl (.inl rfl)
  | select caller id => exact lends.settle_kept sound (sound.select caller id) rfl (.inl rfl)
  | restore thread current =>
    have chosen := sound.updateRegister thread ({ · with current })
    exact lends.settle_kept sound chosen rfl (.inl rfl)
  | allocate caller chosen request =>
    obtain ⟨owner, supplied⟩ := sound.allocate_supplied caller chosen request
    obtain ⟨new, exchanges, answer⟩ := supplied.exchanges
    exact lends.settle_granted sound sound' exchanges answer rfl
  | allocateLayout caller size align zeroed =>
    obtain ⟨owner, supplied⟩ := sound.allocate_supplied caller none ⟨size, align, zeroed, none⟩
    obtain ⟨new, exchanges, answer⟩ := supplied.exchanges
    exact lends.settle_granted sound sound' exchanges answer rfl
  | foreign request =>
    obtain ⟨new, exchanges, answer⟩ := (sound.serve_supplied .systemHeap request).exchanges
    exact lends.settle_granted sound sound' exchanges answer rfl
  | resizeBlock id addr size =>
    exact lends.settle_moved sound sound' (sound.resizeBlock_passes id addr size) rfl rfl rfl rfl
  | releaseBlock caller id addr =>
    by_cases owned : m.owner? addr = some id
    · exact lends.settle_released sound sound' (sound.releaseBlock_exchanges caller owned) rfl rfl
        (beq_iff_eq.2 owned)
    · exact lends.settle_kept sound (sound.releaseBlock_unowned caller owned) rfl
        (.inr (beq_eq_false_iff_ne.2 owned))
  | reallocate caller chosen addr size =>
    have passes :=
      sound.directed_passes (m.reallocate_directed caller chosen addr size) (given addr rfl).1
    exact lends.settle_moved sound sound' passes rfl rfl rfl rfl
  | reallocateLayout caller addr old align size =>
    have passes := sound.directed_passes
      (m.reallocateLayout_directed caller addr old align size) (given addr rfl).1
    exact lends.settle_moved sound sound' passes rfl rfl rfl rfl
  | free caller expected addr =>
    by_cases marked : m.marks.contains addr = true
    · have stops : (Call.free caller expected addr).run m = .stop (.marked addr) m := if_pos marked
      exact stopped rfl rfl stops
    · have runs : (Call.free caller expected addr).run m = m.release caller expected addr :=
        if_neg marked
      obtain ⟨answer, exchanges⟩ :=
        sound.release_exchanges caller (given addr rfl).1 (given addr rfl).2
      exact freed rfl rfl rfl (runs ▸ answer) (runs ▸ exchanges)
  | freeLayout caller addr =>
    by_cases marked : m.marks.contains addr = true
    · have stops : (Call.freeLayout caller addr).run m = .stop (.abortedOnMark addr) m :=
        if_pos marked
      exact stopped rfl rfl stops
    · have runs : (Call.freeLayout caller addr).run m = m.release caller none addr := if_neg marked
      obtain ⟨answer, exchanges⟩ :=
        sound.release_exchanges caller (given addr rfl).1 (given addr rfl).2
      exact freed rfl rfl rfl (runs ▸ answer) (runs ▸ exchanges)
  | box caller chosen value =>
    obtain ⟨new, written, exchanges, answer⟩ := sound.box_exchanges caller chosen value
    exact lends.settle_granted sound sound' exchanges answer rfl
  | boxOrAbort caller chosen value =>
    obtain ⟨new, written, exchanges, answer⟩ := sound.boxOrAbort_exchanges caller chosen value
    exact lends.settle_granted sound sound' exchanges answer rfl
  | dropBox caller box =>
    obtain ⟨answer, b, start, ⟨inUse, old, fresh, kept⟩⟩ := (sound.dropValue
      (m.readBox box)).release_exchanges caller (given box.addr rfl).1 (given box.addr rfl).2
    exact freed rfl rfl rfl answer ⟨b, start, ⟨inUse, old, fresh, kept⟩⟩
  | unbox caller box =>
    obtain ⟨answer, exchanges⟩ :=
      sound.release_exchanges caller (given box.addr rfl).1 (given box.addr rfl).2
    change (m.release caller none box.addr).answer = .ok () at answer
    refine freed rfl rfl rfl ?_ exchanges
    show ((m.release caller none box.addr).answer.map _).map _ = _
    rw [answer]
    rfl
  | reportLeaks => exact lends.settle_kept sound sound.reportLeaks rfl (.inl rfl)
  | adjust system =>
    obtain ⟨below, blocks, _, _⟩ := proper.sane
    have adjusted : { m with system }.Sound [] loans := sound.congr below blocks rfl rfl rfl
    exact lends.settle_kept sound adjusted rfl (.inl rfl)
  | mark addr => exact lends.settle_kept sound (sound.mark addr) rfl (.inl rfl)
  | unmark addr => exact lends.settle_kept sound (sound.unmark addr) rfl (.inl rfl)
  | write addr len content => exact lends.settle_kept sound (sound.withBytes _) rfl (.inl rfl)
  | assignBox box value =>
    have filled := (sound.dropValue (m.readBox box)).withBytes
      (m.system.bytes.write box.addr value.type.payload value.byte)
    exact lends.settle_kept sound filled rfl (.inl rfl)
  | dropValue value => exact lends.settle_kept sound (sound.dropValue value) rfl (.inl rfl)

theorem Holding.lends (holding : Holding m held) : m.Lends held := by
  induction holding with
  | start slots => exact (start_sound slots).lends_iff.2 (.refl _)
  | step c before proper ih =>
    obtain ⟨loans, sound⟩ := before.reachable.sound
    exact sound.run_lends proper (before.reachable.step c proper).sound ih

/-- What the system heap has handed out is, each block once, a segment of a pool that is not
destroyed, the region of a block that is live there, or a block that callers have. -/
structure Accounted (m : Machine) (held : List Address) : Prop where
  once : (m.system.blocks.map (·.addr)).Nodup
  blocks : ∃ loans, (loans.map (·.addr)).Perm held ∧ m.system.blocks.Perm
    ((m.pools.filter (·.phase != .destroyed)).flatMap
      (fun p => p.heap.segments.map (·.frame.segmentBlock) ++ LiveBlock.regions p.heap.live) ++ loans)
  /-- Nothing is left when all pools are destroyed and callers have given up their blocks. -/
  nothing : (∀ p ∈ m.pools, p.phase = .destroyed) → held = [] → m.system.blocks = []

/-- Pools that are destroyed hold nothing. -/
theorem Enrolled.standing_holdings (enrolled : m.Enrolled) :
    (m.pools.filter (·.phase != .destroyed)).flatMap
        (fun p => p.heap.segments.map (·.frame.segmentBlock) ++ LiveBlock.regions p.heap.live) =
      m.pools.flatMap (·.heap.holdings) := by
  simp only [← Heap.holdings_eq]
  refine Keyed.flatMap_filter fun p inPools ended => (enrolled.vacant p inPools ?_).holdings
  simpa using ended

/-- Whatever programs do, the system heap has handed out nothing but what pools hold and callers
have, and no call returns to it what is not handed out. -/
theorem Holding.accounted (holding : Holding m held) : m.Accounted held ∧
    ∀ c : Call, c.Proper m → (∀ system, c ≠ .adjust system) →
      (c.run m).machine.system.strayReturns = m.system.strayReturns := by
  obtain ⟨loans, sound⟩ := holding.reachable.sound
  have loaned := sound.lends_iff.1 holding.lends
  have blocks := sound.held
  rw [← holding.reachable.enrolled.standing_holdings] at blocks
  refine ⟨⟨sound.below.addr_nodup, ⟨loans, loaned, blocks⟩, fun ended given => ?_⟩,
    fun c proper own => sound.run_strays proper own⟩
  have standing : m.pools.filter (·.phase != .destroyed) = [] :=
    List.filter_eq_nil_iff.2 fun p inPools => by simp [ended p inPools]
  rw [given] at loaned
  rw [standing, List.map_eq_nil_iff.1 loaned.eq_nil] at blocks
  exact blocks.eq_nil

end Machine

/-- What callers have from the system heap after calls that they make one after the other. -/
def Call.settleAll : List Call → Machine → List Address → List Address
  | [], _, held => held
  | c :: rest, m, held => settleAll rest (c.run m).machine (c.settle m held)

namespace Machine

variable {m : Machine} {held : List Address}

theorem Holding.runAll (holding : Holding m held) (calls : List Call)
    (fit : Call.areProper calls m = true) :
    Holding (Call.runAll calls m) (Call.settleAll calls m held) := by
  induction calls generalizing m held with
  | nil => exact holding
  | cons c rest ih =>
    simp only [Call.areProper, Bool.and_eq_true] at fit
    exact ih (holding.step c (Call.proper_of_isProper fit.1)) fit.2

/-- A segment, a region that has been resized where it is, and a block in the hands of a caller are all
that is handed out. The pool returns the first two when it is dropped. -/
theorem lending_accounted :
    let calls : List Call := [.openPool { thread := 0 } { owned := true },
      .allocate { thread := 0 } none (.plain 40), .allocate { thread := 0 } none (.plain 200000),
      .allocate { thread := 1 } none (.plain 100),
      .reallocate { thread := 0 } none SystemHeap.firstBlock 150000]
    let m := Call.runAll calls (ample [3])
    let held := Call.settleAll calls (ample [3]) []
    let after := ((Call.dropPool { thread := 0 } 1).run m).machine
    (m.system.blocks.length = 3 ∧ ⟨SystemHeap.firstBlock, 150000, 16⟩ ∈ m.system.blocks ∧
      held = [SystemHeap.firstBlock + 200016] ∧ after.system.blocks.length = 1) ∧
      m.Accounted held ∧ after.system.strayReturns = m.system.strayReturns := by
  have holding := ((Holding.start [3]).step _ (ample_proper [3])).runAll
    [.openPool { thread := 0 } { owned := true },
      .allocate { thread := 0 } none (.plain 40), .allocate { thread := 0 } none (.plain 200000),
      .allocate { thread := 1 } none (.plain 100),
      .reallocate { thread := 0 } none SystemHeap.firstBlock 150000] (by decide +kernel)
  obtain ⟨accounted, returns⟩ := Holding.accounted holding
  exact ⟨by decide +kernel, accounted,
    returns (.dropPool { thread := 0 } 1) (Call.proper_of_isProper (by decide +kernel)) nofun⟩

end Machine

end PooledMemory
