import PooledMemory.Event
import PooledMemory.Marks
import PooledMemory.TagTable
import PooledMemory.Value

namespace PooledMemory

/-- What a thread remembers between its calls. -/
structure Register where
  /-- The pool that serves requests without a named pool, or the system heap if there is none. -/
  current : Option PoolId
  /-- The pool that was looked up last. It does not keep that pool alive. -/
  resolved : Option PoolId
  deriving DecidableEq, Repr

def Register.empty : Register := ⟨none, none⟩

/-- Who makes a call. -/
structure Caller where
  thread : ThreadId
  /-- Whether the call comes from within the bookkeeping of another one. Such calls are served by
  the system heap and never look at the pools. -/
  nested : Bool := false
  /-- Whether the thread is already unwinding from a fault. -/
  unwinding : Bool := false
  /-- Where in the program the call is made. -/
  site : Location := default
  deriving DecidableEq, Repr

/-- The whole state: the system heap, the pools on top of it and what is recorded about them. -/
structure Machine where
  system : SystemHeap
  /-- Every pool ever opened, the oldest first. -/
  pools : List Pool
  /-- The listed pools. A pool is listed until it is destroyed. -/
  roster : List PoolId
  nextId : PoolId
  tags : TagTable
  marks : Marks
  threads : ThreadId → Register
  /-- All events so far, the oldest first. -/
  events : List Event
  /-- The values whose destructors have run, the latest first. -/
  dropped : List Value

/-- The answer of an operation, or the fault that stopped it, and the state it leaves behind. -/
structure Outcome (α : Type) where
  answer : Except Fault α
  machine : Machine

namespace Outcome

def ok {α : Type} (answer : α) (machine : Machine) : Outcome α := ⟨.ok answer, machine⟩

def stop {α : Type} (fault : Fault) (machine : Machine) : Outcome α := ⟨.error fault, machine⟩

/-- Goes on with the answer and the state of an operation that was not stopped. -/
def bind {α β : Type} (o : Outcome α) (next : α → Machine → Outcome β) : Outcome β :=
  match o.answer with
  | .ok answer => next answer o.machine
  | .error fault => stop fault o.machine

def map {α β : Type} (f : α → β) (o : Outcome α) : Outcome β := ⟨o.answer.map f, o.machine⟩

end Outcome

namespace Machine

/-- No pools, no marks, empty registers, and a system heap that has handed out nothing. -/
def start (slots : List Nat) : Machine where
  system := .start slots
  pools := []
  roster := []
  nextId := 1
  tags := .empty
  marks := .empty
  threads := fun _ => .empty
  events := []
  dropped := []

def pool? (m : Machine) (id : PoolId) : Option Pool := m.pools.find? (·.id == id)

def updatePool (m : Machine) (id : PoolId) (f : Pool → Pool) : Machine :=
  { m with pools := m.pools.map fun p => if p.id = id then f p else p }

theorem pool?_updatePool {m : Machine} {id other : PoolId} {f : Pool → Pool}
    (keeps : ∀ p, (f p).id = p.id) :
    (m.updatePool id f).pool? other =
      (m.pool? other).map fun p => if p.id = id then f p else p := by
  have same : ∀ p : Pool, (if p.id = id then f p else p).id = p.id := by
    intro p
    split
    · exact keeps p
    · rfl
  simp only [pool?, updatePool, List.find?_map, Function.comp_def, same]

theorem pool?_id {m : Machine} {id : PoolId} {p : Pool} (found : m.pool? id = some p) :
    p.id = id := by
  simpa using List.find?_some found

def setPhase (m : Machine) (id : PoolId) (phase : Phase) : Machine :=
  m.updatePool id ({ · with phase })

/-- Stores what a heap operation leaves behind. -/
def putHeap (m : Machine) (id : PoolId) (heap : Heap) (system : SystemHeap) : Machine :=
  { m.updatePool id ({ · with heap }) with system }

def note (m : Machine) (event : Event) : Machine := { m with events := m.events ++ [event] }

def updateRegister (m : Machine) (thread : ThreadId) (f : Register → Register) : Machine :=
  { m with threads := fun t => if t = thread then f (m.threads t) else m.threads t }

theorem threads_updateRegister {m : Machine} {thread other : ThreadId} {f : Register → Register} :
    (m.updateRegister thread f).threads other =
      if other = thread then f (m.threads other) else m.threads other := rfl

def setCurrent (m : Machine) (thread : ThreadId) (current : Option PoolId) : Machine :=
  m.updateRegister thread ({ · with current })

/-- Empties the register of a thread if it names this pool. -/
def clearCurrent (m : Machine) (thread : ThreadId) (id : PoolId) : Machine :=
  if (m.threads thread).current = some id then m.setCurrent thread none else m

def write (m : Machine) (addr : Address) (len : Nat) (content : Nat → UInt8) : Machine :=
  { m with system := { m.system with bytes := m.system.bytes.write addr len content } }

/-- Removes an element; the last one takes its place. -/
def swapRemove (ids : List PoolId) (id : PoolId) : List PoolId :=
  match ids.idxOf? id, ids.getLast? with
  | some i, some last => ids.dropLast.set i last
  | _, _ => ids

def listedPools (m : Machine) : List Pool := m.roster.filterMap m.pool?

def poolReports (m : Machine) : List PoolReport := m.listedPools.map (·.report)

/-- The listed pool whose memory an address lies in, in use or not. -/
def holder? (m : Machine) (addr : Address) : Option PoolId :=
  (m.listedPools.find? (·.heap.contains addr)).map (·.id)

/-- The pool that issued the block at an address, if one did and the block is still live. -/
def owner? (m : Machine) (addr : Address) : Option PoolId := m.tags.owner? addr

def blockSize? (m : Machine) (id : PoolId) (addr : Address) : Option Nat :=
  (m.pool? id).bind (·.heap.sizeOf? addr)

/-- The usable size of a block. -/
def sizeOf (m : Machine) (addr : Address) : Nat :=
  match m.owner? addr with
  | some id => (m.blockSize? id addr).getD 0
  | none => m.system.usableSize addr

/-- Every live block of every pool by ascending address. -/
def liveBlocks (m : Machine) : List BlockReport :=
  (m.tags.toList.filterMap fun (addr, tag) =>
    (m.blockSize? tag.pool addr).map fun size => ⟨addr, size, tag.pool, tag.origin⟩).mergeSort
    fun a b => decide (a.addr ≤ b.addr)

/-- Reports every live block as an event and answers how many there are. -/
def reportLeaks (m : Machine) : Nat × Machine :=
  (m.liveBlocks.length, m.liveBlocks.foldl (fun m block => m.note (.leakedBlock block)) m)

/-- The usage of the system heap, given as `system`, followed by one line for each pool. -/
def usageReport (m : Machine) (system : Usage) : String :=
  m.poolReports.foldl (fun text pool => text ++ "\n" ++ pool.text) ("system heap: " ++ system.text)

def mark (m : Machine) (addr : Address) : Machine := { m with marks := m.marks.insert addr }

def unmark (m : Machine) (addr : Address) : Machine := { m with marks := m.marks.erase addr }

end Machine

end PooledMemory
