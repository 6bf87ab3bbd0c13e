import PooledMemory.Session.Content

namespace PooledMemory.Session

/-- A block in a slot of the session. -/
structure BlockRef where
  slot : Nat
  /-- Whether the last block ever stored is meant, even if it was released since. -/
  stale : Bool := false
  /-- Bytes to add to the address of the block. -/
  offset : Nat := 0
  deriving DecidableEq, Repr

/-- Whether an address other than that of the current block may be meant. -/
def BlockRef.isLoose (ref : BlockRef) : Bool := ref.stale || decide (0 < ref.offset)

/-- What is asked of an allocation. -/
inductive Demand
  | plain (size : Nat)
  | aligned (size align : Nat)
  | array (count size : Nat)
  deriving DecidableEq, Repr

/-- The request for a demand that is made at `site`, if there can be one. -/
def Demand.request? (site : Location) : Demand → Option Request
  | plain size => some (.plain size site)
  | aligned size align => Request.aligned? size align site
  | array count size => Request.array? count size site

/-- The alignment that a demand names. -/
def Demand.align : Demand → Nat
  | aligned _ align => align
  | _ => granule

/-- The number of bytes that a demand asks for. -/
def Demand.size : Demand → Nat
  | plain size => size
  | aligned size _ => size
  | array count size => count * size

/-- What is put into a box, before it is known whether its type takes a number or a text. -/
structure Literal where
  number : Int := 0
  text : String := ""
  deriving DecidableEq, Repr

/-- The commands of a session. Pools, blocks, boxes and holds are named by numbers that the
commands choose. -/
inductive Command
  | openPool (handle : Nat) (settings : PoolSettings)
  | showPool (handle : Nat)
  | dropPool (handle : Nat) (unwinding : Bool)
  | showUsage (handle : Nat)
  | trimPool (handle : Nat)
  | allocate (slot : Nat) (handle : Option Nat) (demand : Demand)
  | allocateLayout (slot size align : Nat) (zeroed : Bool)
  | foreign (slot size : Nat)
  | resizeBlock (handle : Nat) (block : BlockRef) (size : Nat)
  | releaseBlock (handle : Nat) (block : BlockRef)
  | owns (handle : Nat) (block : BlockRef)
  | reallocate (handle : Option Nat) (block : BlockRef) (size : Nat)
  | reallocateLayout (block : Option BlockRef) (size : Nat)
  | free (handle : Option Nat) (block : BlockRef)
  | freeElsewhere (block : BlockRef)
  | freeLayout (block : Option BlockRef)
  | sizeOf (block : BlockRef)
  | ownerOf (block : BlockRef)
  | fill (block : BlockRef) (seed : UInt8) (len : Option Nat)
  | check (block : BlockRef) (seed : UInt8) (len : Option Nat)
  | read (block : BlockRef) (start : Nat) (len : Option Nat)
  | liveBlocks
  | reportLeaks
  | listPools
  | systemUsage (usage : Usage)
  | usageReport (usage : Usage)
  | trimSystem (keep : Nat) (released : Bool)
  | mark (block : BlockRef)
  | unmark (block : BlockRef)
  | current
  | select (handle : Option Nat)
  | hold (hold : Nat) (handle : Option Nat)
  | unhold (hold : Nat)
  | scope (handle : Option Nat) (body : List Command) (unwinds : Bool)
  | exitThread
  | showAllocator
  | box (slot : Nat) (handle : Option Nat) (type : Option ValueType) (value : Literal)
      (orAbort : Bool)
  | readBox (slot : Nat)
  | writeBox (slot : Nat) (value : Literal)
  | showBox (slot : Nat)
  | boxOwner (slot : Nat)
  | dropBox (slot : Nat)
  | unbox (slot : Nat)
  | drops
  | configure (limit : Option Nat) (tellsSizes : Option Bool)
  | unknown
  deriving Inhabited

/-- Why a command was not carried out. -/
inductive Refusal
  | noPool
  | taken
  | empty
  | dangling
  | outOfRange
  | layout
  | badType
  | badOperation
  deriving DecidableEq, Repr

/-- Where a block lies, without its address. -/
inductive Place
  | segment (slot offset : Nat)
  | region
  | system
  deriving DecidableEq, Repr

def Place.text : Place → String
  | segment slot offset => s!"s{slot}+{offset}"
  | region => "large"
  | system => "system"

/-- An event, and who would own a block requested while the event is handled, if that was tried. -/
structure Logged where
  event : Event
  place : Option Place
  probe : Option (Option PoolId)
  deriving DecidableEq, Repr

/-- What has changed since the last report. -/
structure Changes where
  usages : List (Nat × Usage)
  pools : Option (List PoolReport)
  current : Option (Option PoolId)
  events : List Logged
  deriving DecidableEq, Repr

/-- The answer to a command. -/
inductive Reply
  | done
  | nothing
  | text (value : String)
  | number (value : Nat)
  | flag (value : Bool)
  | pool (id : Option PoolId)
  | block (place : Place) (size : Nat) (owner : Option PoolId) (aligned : Option Bool)
  | boxed (place : Place) (owner : Option PoolId) (aligned : Bool)
  | content (value : Content)
  | bytes (values : List UInt8)
  | freed (bySystem : Bool)
  | poolReport (report : PoolReport)
  | poolReports (reports : List PoolReport)
  | blockReports (reports : List (Place × BlockReport))
  | usage (usage : Usage)
  | trimmed (released : Bool) (keep : Nat)
  | refused (refusal : Refusal)
  | failed (failure : Failure)
  | faulted (fault : Fault)
  /-- The thread unwound on purpose. -/
  | unwound
  | scope (previous : Option PoolId) (steps : List (Reply × Changes)) (unwound : Bool)

end PooledMemory.Session
