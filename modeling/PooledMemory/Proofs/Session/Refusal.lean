import PooledMemory.Proofs.Machine.Recall
import PooledMemory.Session.Run

namespace PooledMemory

/-- A call asks for memory, is not stopped and gets none. -/
def Call.Declines (c : Call) (m : Machine) : Prop :=
  match c with
  | allocate caller named request =>
    ∃ failure, (m.allocate caller named request).answer = .ok (.error failure)
  | allocateLayout caller size align zeroed =>
    ∃ failure, (m.allocateLayout caller size align zeroed).answer = .ok (.error failure)
  | foreign request => ∃ failure, (m.serve .systemHeap request).answer = .ok (.error failure)
  | resizeBlock id addr size => (m.resizeBlock id addr size).answer = .ok none
  | reallocate caller named addr size => (m.reallocate caller named addr size).answer = .ok none
  | reallocateLayout caller addr old align size =>
    (m.reallocateLayout caller addr old align size).answer = .ok none
  | box caller named value => ∃ failure, (m.box caller named value).answer = .ok (.error failure)
  | _ => False

namespace Machine

/-- The system heap has handed out the block, and it is not a segment of a pool. -/
def HandedOut (m : Machine) (s : SystemBlock) : Prop :=
  s ∈ m.system.blocks ∧ ∀ p ∈ m.pools, s ∉ p.heap.segments.map (·.frame.segmentBlock)

/-- Two states that differ in nothing that programs rely on: they may differ in where the free
memory of pools is and in how many segments hold it. -/
structure Unaltered (m after : Machine) : Prop where
  inUse : ∀ c, after.InUse c ↔ m.InUse c
  bytes : ∀ c, m.InUse c → ∀ x, c.span.has x = true → after.system.bytes x = m.system.bytes x
  tags : ∀ addr, after.tags.get? addr = m.tags.get? addr
  tagCount : after.tags.count = m.tags.count
  pools : List.Forall₂ Pool.Alike m.pools after.pools
  roster : after.roster = m.roster
  nextId : after.nextId = m.nextId
  marks : after.marks = m.marks
  current : ∀ thread, (after.threads thread).current = (m.threads thread).current
  /-- Whatever threads remember to have looked up, requests go to where they went before. -/
  target : ∀ caller named, (after.target caller named).1 = (m.target caller named).1
  handedOut : ∀ s, after.HandedOut s ↔ m.HandedOut s

variable {m after : Machine} {lost : List (Address × PoolId)} {loans loans' : List SystemBlock}
  {id : PoolId} {c : Call}

/-- What the system heap has handed out in single blocks is regions and what callers have. -/
theorem Sound.handedOut_iff (sound : m.Sound lost loans) {s : SystemBlock} :
    m.HandedOut s ↔ s ∈ m.pools.flatMap (fun p => LiveBlock.regions p.heap.live) ++ loans := by
  let segments := m.pools.flatMap fun p => p.heap.segments.map (·.frame.segmentBlock)
  have split : m.system.blocks.Perm
      (segments ++ (m.pools.flatMap (fun p => LiveBlock.regions p.heap.live) ++ loans)) := by
    have held := sound.held
    simp only [Heap.holdings_eq] at held
    rw [← List.append_assoc]
    exact held.trans ((List.flatMap_append_perm ..).symm.append_right loans)
  have unique := split.nodup_iff.1 sound.blocks_nodup
  have isSegment : (∃ p ∈ m.pools, s ∈ p.heap.segments.map (·.frame.segmentBlock)) ↔
      s ∈ segments := List.mem_flatMap.symm
  constructor
  · rintro ⟨stored, other⟩
    refine (List.mem_append.1 (split.subset stored)).resolve_left fun inSegments => ?_
    obtain ⟨p, inPools, own⟩ := isSegment.2 inSegments
    exact other p inPools own
  · intro single
    refine ⟨split.mem_iff.2 (List.mem_append_right _ single), fun p inPools own => ?_⟩
    exact (List.nodup_append.1 unique).2.2 s (isSegment.1 ⟨p, inPools, own⟩) s single rfl

theorem regions_of_alike {pools pools' : List Pool} (alike : List.Forall₂ Pool.Alike pools pools') :
    pools'.flatMap (fun p => LiveBlock.regions p.heap.live) =
      pools.flatMap fun p => LiveBlock.regions p.heap.live := by
  induction alike with
  | nil => rfl
  | cons first _ ih => rw [List.flatMap_cons, List.flatMap_cons, first.live, ih]

theorem find?_of_alike {pools pools' : List Pool} (alike : List.Forall₂ Pool.Alike pools pools')
    (id : PoolId) : (pools'.find? (·.id == id)).map (·.phase) =
      (pools.find? (·.id == id)).map (·.phase) := by
  induction alike with
  | nil => rfl
  | @cons p q _ _ first _ ih =>
    have number : q.id = p.id := first.frame ▸ rfl
    have phase : q.phase = p.phase := first.frame ▸ rfl
    rw [List.find?_cons, List.find?_cons, number]
    split
    · rw [Option.map_some, Option.map_some, phase]
    · exact ih

theorem Steady.target (steady : m.Steady after) (enrolled : m.Enrolled) (enrolled' : after.Enrolled)
    (caller : Caller) (named : Option PoolId) :
    (after.target caller named).1 = (m.target caller named).1 := by
  have phases : ∀ id, (after.pool? id).map (·.phase) = (m.pool? id).map (·.phase) :=
    find?_of_alike steady.pools
  rw [enrolled.target_eq, enrolled'.target_eq, steady.current]
  simp only [phases]

theorem Steady.get? (steady : m.Steady after) (sound : m.Sound lost loans)
    (sound' : after.Sound lost loans') (addr : Address) :
    after.tags.get? addr = m.tags.get? addr := by
  refine Option.ext fun tag => ?_
  rw [sound.tags.get?_eq_some_iff, sound'.tags.get?_eq_some_iff, steady.tags.mem_iff]

/-- Where tags and pools are steady and the same blocks are in use, nothing else can be told. -/
theorem Steady.unaltered (steady : m.Steady after) (reached : Reachable m)
    (reached' : Reachable after) (exchanges : Exchanges m after [] [] []) : m.Unaltered after := by
  obtain ⟨loans, sound⟩ := reached.sound
  obtain ⟨loans', sound'⟩ := reached'.sound
  have inUse : ∀ c, after.InUse c ↔ m.InUse c := fun c => by simpa using exchanges.inUse c
  refine ⟨inUse, fun c used x inside => ?_, steady.get? sound sound', ?_, steady.pools,
    steady.roster, steady.nextId, steady.marks, steady.current,
    steady.target reached.enrolled reached'.enrolled, fun s => ?_⟩
  · exact exchanges.kept c used List.not_mem_nil x inside nofun
  · rw [sound.tags.counted, sound'.tags.counted]
    exact steady.tags.length_eq
  · rw [sound.handedOut_iff, sound'.handedOut_iff, List.mem_append, List.mem_append,
      regions_of_alike steady.pools, sound.mem_loans_iff_inUse, sound'.mem_loans_iff_inUse, inUse]

theorem Supplied.exchanges_of_failure {owner : Option PoolId} {request : Request}
    {o : Outcome (Except Failure Address)} (supplied : Supplied m owner request o)
    {failure : Failure} (answer : o.answer = .ok (.error failure)) :
    Exchanges m o.machine [] [] [] := by
  cases supplied with
  | refused change => exact change.toExchanges
  | supplied _ _ _ => cases answer

theorem Passes.exchanges_of_none {addr : Address} {o : Outcome (Option Address)}
    (passes : m.Passes addr o) (answer : o.answer = .ok none) :
    Exchanges m o.machine [] [] [] := by
  obtain ⟨gone, new, exchanges, answers, left⟩ := passes
  rw [answer] at answers
  cases new with
  | some _ => cases answers
  | none =>
    cases gone with
    | some _ => cases left
    | none => exact exchanges

/-- A call that gets no memory leaves tags, pools and registers alone. -/
theorem Sound.steady_of_declines (sound : m.Sound [] loans) (declines : c.Declines m) :
    m.Steady (c.run m).machine := by
  cases c with
  | allocate caller named request =>
    obtain ⟨failure, answer⟩ := declines
    exact sound.allocate_steady caller named request answer
  | allocateLayout caller size align zeroed =>
    obtain ⟨failure, answer⟩ := declines
    exact sound.allocate_steady caller none ⟨size, align, zeroed, none⟩ answer
  | foreign request =>
    obtain ⟨failure, answer⟩ := declines
    exact (sound.serve_dealt .systemHeap request).steady answer
  | resizeBlock id addr size => exact sound.resizeBlock_steady id addr size declines
  | reallocate caller named addr size =>
    exact sound.directed_steady (m.reallocate_directed caller named addr size) declines
  | reallocateLayout caller addr old align size =>
    exact sound.directed_steady (m.reallocateLayout_directed caller addr old align size) declines
  | box caller named value =>
    obtain ⟨failure, answer⟩ := declines
    exact sound.box_steady caller named value answer
  | _ => cases declines

/-- A call that gets no memory takes no block either and writes to none. -/
theorem Sound.exchanges_of_declines (sound : m.Sound [] loans) (proper : c.Proper m)
    (declines : c.Declines m) : Exchanges m (c.run m).machine [] [] [] := by
  have given : ∀ addr, c.routed? = some addr → m.Handed loans addr :=
    fun _ routed => (sound.handed_of_routed (sound.routed_of_proper proper routed)).1
  cases c with
  | allocate caller named request =>
    obtain ⟨failure, answer⟩ := declines
    obtain ⟨owner, supplied⟩ := sound.allocate_supplied caller named request
    exact supplied.exchanges_of_failure answer
  | allocateLayout caller size align zeroed =>
    obtain ⟨failure, answer⟩ := declines
    obtain ⟨owner, supplied⟩ := sound.allocate_supplied caller none ⟨size, align, zeroed, none⟩
    exact supplied.exchanges_of_failure answer
  | foreign request =>
    obtain ⟨failure, answer⟩ := declines
    exact (sound.serve_supplied .systemHeap request).exchanges_of_failure answer
  | resizeBlock id addr size => exact (sound.resizeBlock_passes id addr size).exchanges_of_none declines
  | reallocate caller named addr size =>
    have passes := sound.directed_passes (m.reallocate_directed caller named addr size)
      (given addr rfl)
    exact passes.exchanges_of_none declines
  | reallocateLayout caller addr old align size =>
    have passes := sound.directed_passes (m.reallocateLayout_directed caller addr old align size)
      (given addr rfl)
    exact passes.exchanges_of_none declines
  | box caller named value =>
    obtain ⟨failure, answer⟩ := declines
    obtain ⟨request, refused, same⟩ := box_of_failure caller named value answer
    obtain ⟨owner, supplied⟩ := sound.allocate_supplied caller named request
    obtain ⟨inUse, old, fresh, kept⟩ := supplied.exchanges_of_failure refused
    show Exchanges m (m.box caller named value).machine [] [] []
    rw [same]
    exact ⟨inUse, old, fresh, kept⟩
  | _ => cases declines

end Machine

namespace Session

variable {s after : Session}

/-- An unknown handle has a reply of its own. -/
theorem withNamed_nothing {handle : Option Nat} {next : Option PoolId → Turn}
    (replies : s.withNamed handle next = .ok (.nothing, after)) :
    ∃ named, next named = .ok (.nothing, after) := by
  cases handle with
  | none => exact ⟨none, replies⟩
  | some handle =>
    simp only [withNamed, withPool] at replies
    cases known : s.handles.lookup handle with
    | none =>
      rw [known] at replies
      cases replies
    | some id =>
      rw [known] at replies
      exact ⟨some id, replies⟩

theorem finish_nothing {o : Outcome (Except Failure Address)} {slot requested align : Nat}
    (replies : s.finish o (storeIfServed slot requested align) = .ok (.nothing, after)) :
    (∃ failure, o.answer = .ok (.error failure)) ∧ after.machine = o.machine := by
  obtain ⟨result, machine⟩ := o
  simp only [finish] at replies
  cases result with
  | error fault =>
    simp only at replies
    split at replies
    · cases replies
    · cases replies
  | ok served =>
    cases served with
    | ok addr => cases replies
    | error failure =>
      cases replies
      exact ⟨⟨failure, rfl⟩, rfl⟩

/-- A command that obtains no block has made no call, or one that was refused. -/
theorem runBlock_nothing {caller : Caller} {slot : Nat} {handle : Option Nat} {demand : Demand}
    (replies : s.runBlock caller (.allocate slot handle demand) = .ok (.nothing, after)) :
    after.machine = s.machine ∨ ∃ named request,
      (Call.allocate caller named request).Declines s.machine ∧
        after.machine = ((Call.allocate caller named request).run s.machine).machine := by
  rw [runBlock] at replies
  obtain ⟨named, replies⟩ := withNamed_nothing replies
  cases possible : demand.request? caller.site with
  | none =>
    rw [possible] at replies
    cases replies
    exact .inl rfl
  | some request =>
    rw [possible] at replies
    exact .inr ⟨named, request, finish_nothing replies⟩

end Session

namespace Machine

variable {m : Machine}

/-- Whatever fails to get memory leaves everything as it was: every block in use with its owner and
its content, all tags, pools and registers, and what the system heap has handed out in single
blocks. The same goes for demands for which there can be no request. -/
theorem Reachable.declined_unaltered (reached : Reachable m) :
    (∀ c : Call, c.Proper m → c.Declines m → m.Unaltered (c.run m).machine) ∧
      ∀ (s after : Session) (caller : Caller) (slot : Nat) (handle : Option Nat)
        (demand : Session.Demand),
        s.machine = m → s.runBlock caller (.allocate slot handle demand) = .ok (.nothing, after) →
        m.Unaltered after.machine := by
  obtain ⟨loans, sound⟩ := reached.sound
  have calls : ∀ c : Call, c.Proper m → c.Declines m → m.Unaltered (c.run m).machine :=
    fun c proper declines => (sound.steady_of_declines declines).unaltered reached
      (reached.step c proper) (sound.exchanges_of_declines proper declines)
  refine ⟨calls, fun s after caller slot handle demand same replies => ?_⟩
  subst same
  rcases Session.runBlock_nothing replies with still | ⟨named, request, declines, ran⟩
  · rw [still]
    exact (Steady.refl s.machine).unaltered reached reached
      (sound.aside sound rfl rfl rfl rfl).toExchanges
  · rw [ran]
    exact calls _ ⟨trivial, nofun, nofun⟩ declines

/-- A caller has a block of the system heap, which now refuses large requests and tells no sizes. -/
def stinting : Machine :=
  let m := ((Call.allocate { thread := 1 } none (.plain 100)).run busy).machine
  { m with system := { m.system with limit := 65536, tellsSizes := false } }

theorem stinting_reachable : Reachable stinting := by
  have reached := busy_reachable.step (.allocate { thread := 1 } none (.plain 100))
    ⟨trivial, nofun, nofun⟩
  obtain ⟨loans, sound⟩ := reached.sound
  exact reached.step (.adjust stinting.system)
    ⟨⟨sound.below.restrict (.refl _) rfl rfl, rfl, fun _ _ => rfl, rfl⟩, nofun, nofun⟩

/-- The block has found a place in a pool, as the peak tells, but there is no memory for the detour
of its content. Neither is there for an array, and the other demand is for an alignment that is no
power of two. -/
theorem stinting_unaltered :
    let moved := ((Call.reallocate { thread := 0 } (some 1) (SystemHeap.firstBlock + 200000)
      70000).run stinting).machine
    let s : Session := { machine := stinting, probes := false }
    ((stinting.pool? 1).map (·.heap.peak) = some 200528 ∧
      (moved.pool? 1).map (·.heap.peak) = some 270160) ∧ stinting.Unaltered moved ∧
      ∀ demand ∈ [.array 2 40000, .aligned 64 24], ∃ after,
        s.runBlock { thread := 1 } (.allocate 0 none demand) = .ok (.nothing, after) ∧
          stinting.Unaltered after.machine := by
  have loaned : stinting.IsLoaned (SystemHeap.firstBlock + 200000) :=
    ⟨⟨SystemHeap.firstBlock + 200000, 100, granule⟩, by decide +kernel⟩
  obtain ⟨calls, commands⟩ := Reachable.declined_unaltered stinting_reachable
  let s : Session := { machine := stinting, probes := false }
  refine ⟨by decide +kernel, calls _ ⟨trivial, ?_, nofun⟩ ?_, fun demand member => ?_⟩
  · rintro addr ⟨⟩
    exact .inr loaned
  · show (stinting.reallocate _ _ _ _).answer = _
    decide +kernel
  · rcases List.mem_pair.1 member with rfl | rfl
    · have replies : s.runBlock { thread := 1 } (.allocate 0 none (.array 2 40000)) =
          .ok (.nothing, { s with machine := (stinting.allocate { thread := 1 } none
            ⟨80000, granule, true, some default⟩).machine }) := rfl
      exact ⟨_, replies, commands s _ _ _ _ _ rfl replies⟩
    · have replies : s.runBlock { thread := 1 } (.allocate 0 none (.aligned 64 24)) =
          .ok (.nothing, s) := rfl
      exact ⟨s, replies, commands s _ _ _ _ _ rfl replies⟩

end Machine

end PooledMemory
