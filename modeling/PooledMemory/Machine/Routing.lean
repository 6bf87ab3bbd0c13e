import PooledMemory.Machine.Lifecycle

namespace PooledMemory

/-- Where a request goes. -/
inductive Target
  | pool (id : PoolId)
  | systemHeap
  /-- The register names a pool that accepts no more requests. -/
  | unavailable (id : PoolId)
  deriving DecidableEq, Repr

namespace Machine

/-- Whether anything still refers to a pool: its handle, the listing, or the tag of a block. -/
def isReferenced (m : Machine) (id : PoolId) : Bool :=
  ((m.pool? id).map (·.held)).getD false || m.roster.contains id ||
    m.tags.toList.any (·.2.pool == id)

/-- Makes a thread remember the pool that it looked up. -/
def remember (m : Machine) (thread : ThreadId) (id : PoolId) : Machine :=
  m.updateRegister thread ({ · with resolved := some id })

/-- The pool with this number, from the memory of the thread if possible and else from the list. -/
def resolve (m : Machine) (thread : ThreadId) (id : PoolId) : Option Pool × Machine :=
  if (m.threads thread).resolved = some id ∧ m.isReferenced id then (m.pool? id, m)
  else if m.roster.contains id then (m.pool? id, m.remember thread id)
  else (none, m)

def currentTarget (m : Machine) (caller : Caller) : Target × Machine :=
  if caller.nested then (.systemHeap, m)
  else
    match (m.threads caller.thread).current with
    | none => (.systemHeap, m)
    | some id =>
      let (found, m) := m.resolve caller.thread id
      match found with
      | some p => (if p.phase = .live then .pool id else .unavailable id, m)
      | none => (.unavailable id, m)

/-- Where requests of this caller go, given the pool that they name. -/
def target (m : Machine) (caller : Caller) (named : Option PoolId) : Target × Machine :=
  match named with
  | some id => (.pool id, m)
  | none => m.currentTarget caller

/-- Makes a pool current, or the system heap if none is given. Answers what was current. -/
def select (m : Machine) (caller : Caller) (id : Option PoolId) : Option PoolId × Machine :=
  let previous := (m.threads caller.thread).current
  match id with
  | some pool => (previous, (m.remember caller.thread pool).setCurrent caller.thread id)
  | none => (previous, m.setCurrent caller.thread none)

def serve (m : Machine) (target : Target) (request : Request) :
    Outcome (Except Failure Address) :=
  match target with
  | .pool id => m.allocateIn id request
  | .unavailable id => .ok (.error (.unavailable id)) m
  | .systemHeap =>
    match m.system.allocate? request.size request.align request.zeroed with
    | some (addr, system) => .ok (.ok addr) { m with system }
    | none => .ok (.error (.outOfMemory request.size none)) m

/-- Serves a request of this caller from the named pool, or else from where its requests go. -/
def allocate (m : Machine) (caller : Caller) (named : Option PoolId) (request : Request) :
    Outcome (Except Failure Address) :=
  let (target, m) := m.target caller named
  m.serve target request

def releaseToSystem (m : Machine) (addr : Address) : Machine :=
  { m with system := m.system.release addr }

/-- Releases a block to its owner, or to the system heap if no pool owns it. Where the caller
expects an owner, another one is a fault. -/
def release (m : Machine) (caller : Caller) (expected : Option PoolId) (addr : Address) :
    Outcome Unit :=
  if m.tags.isEmpty then .ok () (m.releaseToSystem addr)
  else
    match m.tags.remove? addr with
    | some (tag, tags) =>
      let m := { m with tags }
      if expected.all (· == tag.pool) then m.releaseIn caller tag.pool addr
      else .stop (.wrongOwner addr tag.pool) m
    | none =>
      match if caller.nested then none else m.holder? addr with
      | some holder => .stop (.insidePool addr holder) (m.note (.strayRelease holder addr))
      | none => .ok () (m.releaseToSystem addr)

def free (m : Machine) (caller : Caller) (expected : Option PoolId) (addr : Address) :
    Outcome Unit :=
  if m.marks.contains addr then .stop (.marked addr) m else m.release caller expected addr

/-- Moves the content of a block of the system heap whose size nobody knows: resizing it first
gives a block of the new size with the same content. -/
def moveStaged (m : Machine) (caller : Caller) (source moved : Address) (size : Nat) :
    Outcome (Option Address) :=
  match m.system.reallocate? source size with
  | none => (m.release caller none moved).map fun _ => none
  | some (staged, system) =>
    let system := { system with bytes := system.bytes.copy staged moved size }
    .ok (some moved) { m with system := system.release staged }

/-- Copies the content of a block to its new place and releases the old one. -/
def moveContent (m : Machine) (caller : Caller) (source : Address) (owner : Option PoolId)
    (known : Option Nat) (moved : Address) (size : Nat) : Outcome (Option Address) :=
  let copied (old : Nat) : Machine :=
    { m with system := { m.system with bytes := m.system.bytes.copy source moved (min old size) } }
  match owner with
  | some id =>
    (((copied ((m.blockSize? id source).getD 0)).untag source).releaseIn caller id source).map
      fun _ => some moved
  | none =>
    let old := known.getD (m.system.usableSize source)
    if 0 < old then .ok (some moved) ((copied old).releaseToSystem source)
    else m.moveStaged caller source moved size

/-- Resizes a block, and moves it to the target if another heap owns it. -/
def relocate (m : Machine) (caller : Caller) (target : Target) (addr : Address) (known : Option Nat)
    (request : Request) : Outcome (Option Address) :=
  let elsewhere (owner : Option PoolId) : Outcome (Option Address) :=
    (m.serve target request).bind fun
      | .error _, m => .ok none m
      | .ok moved, m => m.moveContent caller addr owner known moved request.size
  match m.owner? addr, target with
  | some owner, .pool id =>
    if owner = id then m.resizeIn owner addr request.size else elsewhere (some owner)
  | some owner, .unavailable id =>
    if owner = id then m.resizeIn owner addr request.size else .ok none m
  | some owner, .systemHeap => elsewhere (some owner)
  | none, .unavailable _ => .ok none m
  | none, .pool _ => elsewhere none
  | none, .systemHeap =>
    if request.align ≤ granule then
      match m.system.reallocate? addr request.size with
      | some (moved, system) => .ok (some moved) { m with system }
      | none => .ok none m
    else elsewhere none

/-- Resizes a block that is not marked. It moves to the named pool, or else to where requests of
this caller go. -/
def reallocate (m : Machine) (caller : Caller) (named : Option PoolId) (addr : Address)
    (size : Nat) : Outcome (Option Address) :=
  let (target, m) := m.target caller named
  if m.marks.contains addr then .stop (.marked addr) m
  else m.relocate caller target addr none (.plain size caller.site)

end Machine

end PooledMemory
