import PooledMemory.Boxed
import PooledMemory.Proofs.Machine.Routing

namespace PooledMemory

/-- What a program, its threads and the system heap below it can do. -/
inductive Call
  | openPool (caller : Caller) (settings : PoolSettings)
  | dropPool (caller : Caller) (id : PoolId)
  | trimPool (id : PoolId)
  | exitThread (thread : ThreadId)
  | select (caller : Caller) (id : Option PoolId)
  /-- The end of a scope, which makes what was current before it current again. -/
  | restore (thread : ThreadId) (current : Option PoolId)
  | allocate (caller : Caller) (named : Option PoolId) (request : Request)
  | allocateLayout (caller : Caller) (size align : Nat) (zeroed : Bool)
  /-- A request that goes to the system heap past all pools. -/
  | foreign (request : Request)
  | resizeBlock (id : PoolId) (addr : Address) (size : Nat)
  | releaseBlock (caller : Caller) (id : PoolId) (addr : Address)
  | reallocate (caller : Caller) (named : Option PoolId) (addr : Address) (size : Nat)
  | reallocateLayout (caller : Caller) (addr : Address) (old align size : Nat)
  | free (caller : Caller) (expected : Option PoolId) (addr : Address)
  | freeLayout (caller : Caller) (addr : Address)
  | mark (addr : Address)
  | unmark (addr : Address)
  | write (addr : Address) (len : Nat) (content : Nat → UInt8)
  | box (caller : Caller) (named : Option PoolId) (value : Value)
  | boxOrAbort (caller : Caller) (named : Option PoolId) (value : Value)
  | assignBox (box : Boxed) (value : Value)
  | dropBox (caller : Caller) (box : Boxed)
  | unbox (caller : Caller) (box : Boxed)
  | dropValue (value : Value)
  | reportLeaks
  /-- The system heap will serve requests in another way. -/
  | adjust (system : SystemHeap)

namespace Call

def run (c : Call) (m : Machine) : Outcome Unit :=
  match c with
  | openPool caller settings => .ok () (m.openPool caller settings).2
  | dropPool caller id => m.dropPool caller id
  | trimPool id => (m.trimPool id).map fun _ => ()
  | exitThread thread => .ok () (m.exitThread thread)
  | select caller id => .ok () (m.select caller id).2
  | restore thread current => .ok () (m.setCurrent thread current)
  | allocate caller named request => (m.allocate caller named request).map fun _ => ()
  | allocateLayout caller size align zeroed =>
    (m.allocateLayout caller size align zeroed).map fun _ => ()
  | foreign request => (m.serve .systemHeap request).map fun _ => ()
  | resizeBlock id addr size => (m.resizeBlock id addr size).map fun _ => ()
  | releaseBlock caller id addr => m.releaseBlock caller id addr
  | reallocate caller named addr size => (m.reallocate caller named addr size).map fun _ => ()
  | reallocateLayout caller addr old align size =>
    (m.reallocateLayout caller addr old align size).map fun _ => ()
  | free caller expected addr => m.free caller expected addr
  | freeLayout caller addr => m.freeLayout caller addr
  | mark addr => .ok () (m.mark addr)
  | unmark addr => .ok () (m.unmark addr)
  | write addr len content => .ok () (m.write addr len content)
  | box caller named value => (m.box caller named value).map fun _ => ()
  | boxOrAbort caller named value => (m.boxOrAbort caller named value).map fun _ => ()
  | assignBox boxed value => .ok () (m.assignBox boxed value)
  | dropBox caller boxed => m.dropBox caller boxed
  | unbox caller boxed => (m.unbox caller boxed).map fun _ => ()
  | dropValue value => .ok () (m.dropValue value)
  | reportLeaks => .ok () m.reportLeaks.2
  | adjust system => .ok () { m with system }

/-- The block whose tag tells a call where to release or move it. -/
def routed? : Call → Option Address
  | reallocate _ _ addr _ => some addr
  | reallocateLayout _ addr _ _ _ => some addr
  | free _ _ addr => some addr
  | freeLayout _ addr => some addr
  | dropBox _ boxed => some boxed.addr
  | unbox _ boxed => some boxed.addr
  | _ => none

/-- The block that a call is to release, resize or move. -/
def block? : Call → Option Address
  | resizeBlock _ addr _ => some addr
  | releaseBlock _ _ addr => some addr
  | c => c.routed?

theorem block?_of_routed {c : Call} {addr : Address} (routed : c.routed? = some addr) :
    c.block? = some addr := by
  cases c <;> first | exact routed | cases routed

def expected? : Call → Option PoolId
  | free _ expected _ => expected
  | _ => none

/-- What may become of a system heap on its own: everything that it does in one way or another is
different, and it goes on from any address that lies behind its blocks, but it keeps those that it has
handed out, with their sizes and their content. -/
structure Adjusts (before after : SystemHeap) : Prop where
  sound : after.Sound
  blocks : after.blocks = before.blocks
  extents : ∀ b ∈ before.blocks, after.reach b = before.reach b
  bytes : after.bytes = before.bytes

/-- Budgets are words, and the system heap keeps what it has handed out. -/
def Sane (m : Machine) : Call → Prop
  | openPool _ settings => settings.maxSize < wordSize
  | adjust system => Adjusts m.system system
  | _ => True

end Call

namespace Machine

/-- A live block of the pool starts at the address. -/
def IsLiveIn (m : Machine) (id : PoolId) (addr : Address) : Prop :=
  ∃ p ∈ m.pools, p.id = id ∧ ∃ b ∈ p.heap.live, b.addr = addr

/-- A block of the system heap that no pool holds starts at the address. -/
def IsLoaned (m : Machine) (addr : Address) : Prop :=
  ∃ b ∈ m.system.blocks, b.addr = addr ∧ ∀ p ∈ m.pools, b ∉ p.heap.holdings

end Machine

namespace Call

/-- Callers pass only blocks in use, and who names an owner names the right one. -/
structure Proper (c : Call) (m : Machine) : Prop where
  sane : c.Sane m
  inUse : ∀ addr, c.block? = some addr → (∃ id, m.IsLiveIn id addr) ∨ m.IsLoaned addr
  named : ∀ id addr, c.expected? = some id → c.block? = some addr → m.IsLiveIn id addr

end Call

namespace Machine

/-- The states that programs reach with calls as they should be. -/
inductive Reachable : Machine → Prop
  | start (slots : List Nat) : Reachable (.start slots)
  | step {m : Machine} (c : Call) : Reachable m → c.Proper m → Reachable (c.run m).machine

/-- The states that programs also reach with calls that a fault stops, whatever they pass. Any other
call routes blocks that are recorded, for the owner it names if any, or that the system heap has
handed out. -/
inductive Attempted : Machine → Prop
  | start (slots : List Nat) : Attempted (.start slots)
  | step {m : Machine} (c : Call) : Attempted m → c.Sane m →
      (∀ addr, c.routed? = some addr → m.IsLoaned addr ∨
        ∃ id, m.owner? addr = some id ∧ c.expected?.all (· == id) = true) →
      Attempted (c.run m).machine
  | stopped {m : Machine} (c : Call) {fault : Fault} : Attempted m →
      (c.run m).answer = .error fault → Attempted (c.run m).machine

variable {m : Machine} {lost : List (Address × PoolId)} {loans : List SystemBlock} {id : PoolId}

theorem Sound.loaned (sound : m.Sound lost loans) {addr : Address} (loaned : m.IsLoaned addr) :
    addr ∈ loans.map (·.addr) := by
  obtain ⟨b, member, rfl, free⟩ := loaned
  rcases List.mem_append.1 (sound.held.subset member) with held | other
  · obtain ⟨p, inPools, own⟩ := List.mem_flatMap.1 held
    exact absurd own (free p inPools)
  · exact List.mem_map_of_mem other

theorem Sound.owner?_of_live (sound : m.Sound [] loans) {addr : Address}
    (live : m.IsLiveIn id addr) : m.owner? addr = some id := by
  have member := sound.agree.mem_iff.2 (mem_livePairs.2 live)
  rw [List.append_nil] at member
  obtain ⟨⟨a, tag⟩, inTags, same⟩ := List.mem_map.1 member
  cases same
  exact sound.tags.owner?_eq_some_iff.2 ⟨tag, inTags, rfl⟩

end Machine

end PooledMemory
