import PooledMemory.Pool

namespace PooledMemory

/-- What pools report about themselves while they work. -/
inductive Event
  | poolCreated (pool : PoolId) (name : String) (maxSize : Nat) (owned lazy : Bool)
  | segmentReserved (pool : PoolId)
  | segmentsReturned (pool : PoolId) (bytes : Nat)
  /-- Destruction of the pool waits for this many live blocks. -/
  | deletionDeferred (pool : PoolId) (name : String) (live : Nat)
  /-- The pool is gone, and with it this many blocks that nobody had released. -/
  | poolDestroyed (pool : PoolId) (name : String) (leaked : Nat)
  /-- A thread ends and takes this many pools with it. -/
  | threadReaped (thread : ThreadId) (pools : Nat)
  /-- An address in the memory of a pool was released, but no live block starts there. -/
  | strayRelease (pool : PoolId) (addr : Address)
  | leakedBlock (block : BlockReport)
  deriving DecidableEq, Repr

namespace Event

inductive Level
  | trace
  | debug
  | warn
  deriving DecidableEq, Repr

def Level.text : Level → String
  | trace => "TRACE"
  | debug => "DEBUG"
  | warn => "WARN"

def level : Event → Level
  | segmentReserved _ => .trace
  | segmentsReturned _ _ => .trace
  | strayRelease _ _ => .warn
  | leakedBlock _ => .warn
  | _ => .debug

def message : Event → String
  | poolCreated _ _ _ _ _ => "pool created"
  | segmentReserved _ => "pool segment reserved"
  | segmentsReturned _ _ => "pool segments returned to the system"
  | deletionDeferred _ _ _ => "pool deletion deferred until its remaining blocks are freed"
  | poolDestroyed _ _ _ => "pool destroyed"
  | threadReaped _ _ => "destroying pools owned by exiting thread"
  | strayRelease _ _ => "release of an address inside pool memory that is not a live block"
  | leakedBlock _ => "leaked block"

/-- A value in the record of an event. -/
inductive Field
  | text (value : String)
  | number (value : Nat)
  | flag (value : Bool)
  | address (value : Address)
  | block (value : BlockReport)
  deriving DecidableEq, Repr

/-- The record of an event, field by field. -/
def fields : Event → List (String × Field)
  | poolCreated pool name maxSize owned lazy =>
    [("pool", .text pool.text), ("identifier", .text name), ("max_size", .number maxSize),
      ("owned", .flag owned), ("lazy_deleted", .flag lazy)]
  | segmentReserved pool => [("pool", .text pool.text), ("bytes", .number segmentBytes)]
  | segmentsReturned pool bytes => [("pool", .text pool.text), ("bytes", .number bytes)]
  | deletionDeferred pool name live =>
    [("pool", .text pool.text), ("identifier", .text name), ("live_blocks", .number live)]
  | poolDestroyed pool name leaked =>
    [("pool", .text pool.text), ("identifier", .text name), ("leaked_blocks", .number leaked)]
  | threadReaped thread pools => [("thread", .text thread.text), ("pools", .number pools)]
  | strayRelease pool addr => [("pool", .text pool.text), ("address", .address addr)]
  | leakedBlock block => [("block", .block block)]

end Event

end PooledMemory
