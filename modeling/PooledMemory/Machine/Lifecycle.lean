import PooledMemory.Machine.Basic
import PooledMemory.Request

namespace PooledMemory.Machine

/-- Opens a pool. A pool that belongs to the calling thread becomes its current pool. -/
def openPool (m : Machine) (caller : Caller) (settings : PoolSettings) : PoolId × Machine :=
  let id := m.nextId
  let pool : Pool :=
    { id, settings, owner := if settings.owned then some caller.thread else none
      phase := .live, heap := .empty settings.maxSize, held := true }
  let m :=
    { m with pools := m.pools ++ [pool], roster := m.roster ++ [id], nextId := id + 1 }
  let m := if settings.owned then m.setCurrent caller.thread (some id) else m
  (id, m.note (.poolCreated id pool.name settings.maxSize settings.owned settings.lazy))

/-- Marks a pool destroyed, forgets its blocks and returns all of its memory. Answers how many
blocks were still live. -/
def tearDown (m : Machine) (p : Pool) : Nat × Machine :=
  let (heap, system) := p.heap.releaseAll m.system
  let m := (m.putHeap p.id heap system).setPhase p.id .destroyed
  (p.heap.live.length, { m with tags := m.tags.removeAll (p.heap.live.map (·.addr)) })

/-- Takes a pool that is torn down off the list. -/
def finishTearDown (m : Machine) (caller : Caller) (p : Pool) (leaked : Nat) : Machine :=
  let m := m.clearCurrent caller.thread p.id
  { m with roster := swapRemove m.roster p.id }.note (.poolDestroyed p.id p.name leaked)

def destroy (m : Machine) (caller : Caller) (p : Pool) : Machine :=
  let (leaked, m) := m.tearDown p
  m.finishTearDown caller p leaked

/-- Ends the life of a pool: a live pool is destroyed, or marked delete-pending if it has to wait
for live blocks. In that case the answer is their number. -/
def retire (m : Machine) (caller : Caller) (id : PoolId) : Option Nat × Machine :=
  match m.pool? id with
  | none => (none, m)
  | some p =>
    if p.phase ≠ .live then (none, m)
    else if 0 < p.heap.live.length ∧ p.keepsBlocks then
      let m := (m.setPhase id .deletePending).clearCurrent caller.thread id
      (some p.heap.live.length, m.note (.deletionDeferred id p.name p.heap.live.length))
    else (none, m.destroy caller p)

/-- Drops the handle of a pool. It is a fault if the pool must outlive its blocks but neither
waits for them of its own accord nor is dropped while another fault unwinds. -/
def dropPool (m : Machine) (caller : Caller) (id : PoolId) : Outcome Unit :=
  let tolerated := caller.unwinding || ((m.pool? id).map (·.settings.lazy)).getD true
  let (deferred, m) := m.retire caller id
  let m := m.updatePool id ({ · with held := false })
  match deferred with
  | some live => if tolerated then .ok () m else .stop (.droppedWithBlocks id live) m
  | none => .ok () m

/-- Ends a thread: the live pools that belong to it are retired, and its register is gone. -/
def exitThread (m : Machine) (thread : ThreadId) : Machine :=
  let owned := m.listedPools.filter fun p => p.owner == some thread && p.phase == .live
  let m :=
    if owned.isEmpty then m
    else
      owned.foldl (fun m p => (m.retire { thread, nested := true } p.id).2)
        (m.note (.threadReaped thread owned.length))
  m.updateRegister thread fun _ => .empty

/-- Returns the unused segments of a pool to the system heap. Answers the number of bytes. -/
def trimPool (m : Machine) (id : PoolId) : Outcome Nat :=
  match m.pool? id with
  | none => .ok 0 m
  | some p =>
    match p.heap.trim m.system with
    | .error fault => .stop fault m
    | .ok step =>
      let m := m.putHeap id step.heap step.system
      .ok step.answer (if 0 < step.answer then m.note (.segmentsReturned id step.answer) else m)

/-- Serves a request from a pool and tags the block. -/
def allocateIn (m : Machine) (id : PoolId) (request : Request) :
    Outcome (Except Failure Address) :=
  match m.pool? id with
  | none => .ok (.error (.unavailable id)) m
  | some p =>
    if p.phase ≠ .live then .ok (.error (.unavailable id)) m
    else
      match p.heap.allocate m.system request.size request.align with
      | .error fault => .stop fault m
      | .ok step =>
        let m := m.putHeap id step.heap step.system
        match step.answer with
        | none => .ok (.error (.outOfMemory request.size (some id))) m
        | some addr =>
          match m.tags.insert addr ⟨id, request.origin⟩ with
          | .error (fault, tags) => .stop fault { m with tags }
          | .ok tags =>
            let m := { m with tags }
            let m :=
              if p.heap.segments.length < step.heap.segments.length then
                m.note (.segmentReserved id)
              else m
            .ok (.ok addr) (if request.zeroed then m.write addr request.size fun _ => 0 else m)

/-- Resizes a block of a pool. There is no answer if the pool cannot do it. -/
def resizeIn (m : Machine) (id : PoolId) (addr : Address) (size : Nat) :
    Outcome (Option Address) :=
  match m.pool? id with
  | none => .ok none m
  | some p =>
    match p.heap.resize m.system addr size with
    | .error fault => .stop fault m
    | .ok step =>
      let m := m.putHeap id step.heap step.system
      match step.answer with
      | none => .ok none m
      | some resized =>
        if resized.moved then
          match m.tags.move addr resized.addr with
          | .error (fault, tags) => .stop fault { m with tags }
          | .ok tags => .ok (some resized.addr) { m with tags }
        else .ok (some resized.addr) m

/-- Releases a block that is no longer tagged. A delete-pending pool that loses its last block is
destroyed. -/
def releaseIn (m : Machine) (caller : Caller) (id : PoolId) (addr : Address) : Outcome Unit :=
  match m.pool? id with
  | none => .ok () m
  | some p =>
    match p.heap.release m.system addr with
    | .error fault => .stop fault m
    | .ok step =>
      let m := m.putHeap id step.heap step.system
      if step.answer.isNone ∧ p.phase ≠ .destroyed then .stop (.notLive addr id) m
      else if p.phase = .deletePending ∧ step.heap.live.isEmpty then
        .ok () (m.destroy caller { p with heap := step.heap })
      else .ok () m

/-- Resizes a block through the handle of the pool that owns it. -/
def resizeBlock (m : Machine) (id : PoolId) (addr : Address) (size : Nat) :
    Outcome (Option Address) :=
  if m.owner? addr = some id then m.resizeIn id addr size else .stop (.notOwned addr id) m

def untag (m : Machine) (addr : Address) : Machine :=
  { m with tags := ((m.tags.remove? addr).map (·.2)).getD m.tags }

/-- Releases a block through the handle of a pool. -/
def releaseBlock (m : Machine) (caller : Caller) (id : PoolId) (addr : Address) : Outcome Unit :=
  match m.owner? addr with
  | some owner =>
    if owner = id then (m.untag addr).releaseIn caller id addr
    else .stop (.foreignBlock addr owner id) m
  | none => m.releaseIn caller id addr

end PooledMemory.Machine
