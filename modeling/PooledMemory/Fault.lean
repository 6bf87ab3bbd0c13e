import PooledMemory.Word

namespace PooledMemory

/-- Pools are numbered from one in the order in which they are opened. -/
abbrev PoolId := Nat

/-- Threads are numbered by whoever starts them. -/
abbrev ThreadId := Nat

namespace PoolId

def text (id : PoolId) : String := s!"pool#{id}"

end PoolId

/-- Why an allocation was not served. -/
inductive Failure
  /-- The budget of the pool or the system heap did not allow it. -/
  | outOfMemory (requested : Nat) (pool : Option PoolId)
  /-- The pool is being destroyed, or already gone. -/
  | unavailable (pool : PoolId)
  deriving DecidableEq, Repr

def Failure.message : Failure → String
  | .outOfMemory requested pool =>
    let source := (pool.map PoolId.text).getD "the system heap"
    s!"out of memory: {requested} bytes could not be allocated from {source}"
  | .unavailable pool =>
    s!"{pool.text} is being destroyed and no longer accepts allocations"

/-- A misuse that stops an operation, or a broken invariant that would. -/
inductive Fault
  /-- Memory returned to a pool lies in none of its segments. -/
  | outsideSegments (addr : Address)
  /-- A range returned to a segment does not fit into it. -/
  | pastSegmentEnd
  /-- A range returned to a segment starts inside of a free range. -/
  | rangeAlreadyFree (offset : Nat)
  /-- A block was issued at an address where another one is still recorded. -/
  | taggedTwice (addr : Address)
  /-- A marked block was about to be released or resized. -/
  | marked (addr : Address)
  /-- A block was released into a pool that does not own it. -/
  | wrongOwner (addr : Address) (owner : PoolId)
  /-- An address inside the memory of a pool was released, but no live block starts there. -/
  | insidePool (addr : Address) (holder : PoolId)
  /-- A block was to be resized by a pool that does not own it. -/
  | notOwned (addr : Address) (pool : PoolId)
  /-- A block of one pool was handed to another one for release. -/
  | foreignBlock (addr : Address) (owner pool : PoolId)
  /-- A pool was to release an address where it has no live block. -/
  | notLive (addr : Address) (pool : PoolId)
  /-- The handle of a pool that must outlive its blocks was dropped too early. -/
  | droppedWithBlocks (pool : PoolId) (live : Nat)
  /-- A marked block reached an entry point that can only stop the whole process. -/
  | abortedOnMark (addr : Address)
  /-- A value could not be placed by an entry point that can only stop the whole process. -/
  | abortedOnFailure (cause : Failure)
  deriving DecidableEq, Repr

namespace Fault

/-- Whether the fault ends the process rather than the operation. -/
def isFatal : Fault → Bool
  | abortedOnMark _ => true
  | abortedOnFailure _ => true
  | _ => false

/-- The report of a fault, with addresses written by `hex`. -/
def message (hex : Address → String) : Fault → String
  | outsideSegments addr => s!"block at {hex addr} does not belong to any segment"
  | pastSegmentEnd => "range returned to a segment extends past its end"
  | rangeAlreadyFree offset => s!"double free: range at offset {offset} is already free"
  | taggedTwice addr =>
    s!"block at {hex addr} was tagged twice; a pool must have issued overlapping blocks"
  | marked addr => s!"block at {hex addr} was marked with failonfree() and must not be freed"
  | wrongOwner addr owner =>
    s!"block at {hex addr} belongs to {owner.text}, not to the pool it was released into"
  | insidePool addr holder =>
    s!"block at {hex addr} lies inside {holder.text} but is not a live block; double free or interior pointer?"
  | notOwned addr pool => s!"block at {hex addr} does not belong to {pool.text}"
  | foreignBlock addr owner pool =>
    s!"block at {hex addr} belongs to {owner.text} and cannot be released into {pool.text}"
  | notLive addr pool => s!"block at {hex addr} is not live in {pool.text}; double free?"
  | droppedWithBlocks pool live =>
    s!"dropped {pool.text} with {live} live blocks - this is forbidden by DropPolicy::MustNotReleaseBlocks"
  | abortedOnMark addr => s!"block at {hex addr} was marked with failonfree() and must not be freed"
  | abortedOnFailure cause => cause.message

end Fault

def hexDigits (n : Nat) : String := String.ofList (Nat.toDigits 16 n)

/-- An address in hexadecimal. -/
def hexText (addr : Address) : String := "0x" ++ hexDigits addr

end PooledMemory
