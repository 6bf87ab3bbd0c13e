import PooledMemory.Session.Command

namespace PooledMemory

namespace Session

/-- A block as a slot keeps it. -/
structure Held where
  addr : Address
  /-- The size last requested. -/
  requested : Nat
  /-- The alignment that was requested. -/
  align : Nat
  /-- The pool that issued the block. -/
  issuer : Option PoolId
  deriving DecidableEq, Repr

/-- The last block stored in a slot, and whether the slot still holds it. -/
structure Slot where
  last : Held
  isFull : Bool
  deriving DecidableEq, Repr

/-- A box as a slot keeps it. -/
structure HeldBox where
  box : Boxed
  /-- The owner of the box when it was made. -/
  owner : Option PoolId
  deriving DecidableEq, Repr

/-- An association list in which every key occurs at most once. -/
def put {κ α : Type} [BEq κ] (entries : List (κ × α)) (key : κ) (value : α) : List (κ × α) :=
  (key, value) :: entries.filter (·.1 != key)

def drop {κ α : Type} [BEq κ] (entries : List (κ × α)) (key : κ) : List (κ × α) :=
  entries.filter (·.1 != key)

end Session

open Session

/-- A machine in use: the pools, blocks, boxes and holds that commands name by numbers, and what
has been reported so far. -/
structure Session where
  machine : Machine
  handles : List (Nat × PoolId) := []
  slots : List (Nat × Slot) := []
  boxes : List (Nat × HeldBox) := []
  /-- The pool to restore when a hold ends, for each hold of each thread. -/
  holds : List ((ThreadId × Nat) × Option PoolId) := []
  running : List ThreadId := []
  /-- The characters of the texts in boxes. -/
  texts : Array String := #[]
  /-- Whether an allocation is tried while an event is handled. -/
  probes : Bool := false
  reportedUsages : List (Nat × Usage) := []
  reportedPools : List PoolReport := []
  reportedCurrent : List (ThreadId × Option PoolId) := []
  reportedEvents : Nat := 0

namespace Session

/-- A session at its start, with these slots for segments. -/
def start (slots : List Nat) (probes : Bool) : Session := { machine := .start slots, probes }

/-- A reply and the session that goes on, or the fault that ended the process. -/
abbrev Turn := Except Fault (Reply × Session)

def reply (s : Session) (r : Reply) : Turn := .ok (r, s)

/-- Takes over the state that an operation leaves behind. A fault is the reply, unless it ends the
process. -/
def finish {α : Type} (s : Session) (o : Outcome α) (next : α → Session → Turn) : Turn :=
  let s := { s with machine := o.machine }
  match o.answer with
  | .ok answer => next answer s
  | .error fault => if fault.isFatal then .error fault else s.reply (.faulted fault)

/-- Goes on with the pool of a handle. -/
def withPool (s : Session) (handle : Nat) (next : PoolId → Turn) : Turn :=
  match s.handles.lookup handle with
  | some id => next id
  | none => s.reply (.refused .noPool)

/-- Goes on with the pool of a handle, if one is named. -/
def withNamed (s : Session) (handle : Option Nat) (next : Option PoolId → Turn) : Turn :=
  match handle with
  | some handle => s.withPool handle fun id => next (some id)
  | none => next none

/-- Whether the region of a block is no longer owned by the pool that issued it. -/
def lostRegion (s : Session) (held : Held) : Bool :=
  held.issuer.isSome && (SystemHeap.slotOf? held.addr).isNone &&
    s.machine.owner? held.addr != held.issuer

/-- Whether a block that a pool issued is owned by no pool any more. -/
def isOrphan (s : Session) (held : Held) : Bool :=
  held.issuer.isSome && (s.machine.owner? held.addr).isNone

/-- Goes on with a block and the address that is meant. Where the block has to be a live one,
`needsOwner` refuses blocks of pools that nobody owns. -/
def withBlock (s : Session) (ref : BlockRef) (needsOwner : Bool) (next : Held → Address → Turn) :
    Turn :=
  match s.slots.lookup ref.slot with
  | none => s.reply (.refused .empty)
  | some slot =>
    if !ref.stale && !slot.isFull then s.reply (.refused .empty)
    else if s.lostRegion slot.last then s.reply (.refused .dangling)
    else if needsOwner && !ref.isLoose && s.isOrphan slot.last then s.reply (.refused .dangling)
    else next slot.last (slot.last.addr + ref.offset)

/-- Goes on with the box in a slot, if its block has kept its owner. -/
def withBox (s : Session) (slot : Nat) (next : Boxed → Turn) : Turn :=
  match s.boxes.lookup slot with
  | none => s.reply (.refused .empty)
  | some held =>
    if s.machine.owner? held.box.addr = held.owner then next held.box else s.reply (.refused .dangling)

/-- Where an address lies, given whether a pool holds it. -/
def place (addr : Address) (pooled : Bool) : Place :=
  match SystemHeap.slotOf? addr with
  | some slot => .segment slot (addr - SystemHeap.slotBase slot)
  | none => if pooled then .region else .system

/-- Stores a block in a slot and shows it. -/
def store (s : Session) (slot : Nat) (addr : Address) (requested align : Nat) : Turn :=
  let owner := s.machine.owner? addr
  let aligned := if granule < align then some (decide (addr % align = 0)) else none
  { s with slots := put s.slots slot ⟨⟨addr, requested, align, owner⟩, true⟩ }.reply
    (.block (place addr owner.isSome) (s.machine.sizeOf addr) owner aligned)

/-- Stores a served block; without one the slot stays as it is. -/
def storeIfServed (slot requested align : Nat) (served : Except Failure Address) (s : Session) :
    Turn :=
  match served with
  | .ok addr => s.store slot addr requested align
  | .error _ => s.reply .nothing

/-- Stores a resized block; without one the slot stays as it is. -/
def storeIfResized (slot requested align : Nat) (resized : Option Address) (s : Session) : Turn :=
  match resized with
  | some addr => s.store slot addr requested align
  | none => s.reply .nothing

/-- Empties a slot. The last block in it can still be named. -/
def vacate (s : Session) (slot : Nat) : Session :=
  { s with
    slots := s.slots.map fun (n, held) =>
      (n, if n = slot then { held with isFull := false } else held) }

/-- Replies to the release of a block and empties its slot. -/
def released (before : Session) (ref : BlockRef) (addr : Address) (s : Session) : Turn :=
  let freed := s.machine.system.freed
  let new := freed.take (freed.length - before.machine.system.freed.length)
  (if ref.isLoose then s else s.vacate ref.slot).reply (.freed (new.contains addr))

/-- The usable size of the block at an address. If the address need not be that of the block in the
slot, there may be no block at all, and then nothing is usable. -/
def sizeAt (s : Session) (ref : BlockRef) (addr : Address) : Nat :=
  if ref.isLoose && (s.machine.owner? addr).isNone then 0 else s.machine.sizeOf addr

/-- How many bytes may be touched at an address, given the block that it was named by: for a block
of a pool as many as are in use there now, for any other the size last requested. -/
def reach (s : Session) (ref : BlockRef) (held : Held) (addr : Address) : Nat :=
  if held.issuer.isSome then s.sizeAt ref addr else held.requested

/-- Goes on with a range of a block, if it has one. -/
def withRange (s : Session) (ref : BlockRef) (held : Held) (addr : Address) (start : Nat)
    (len : Option Nat) (next : Nat → Turn) : Turn :=
  let reach := s.reach ref held addr
  let len := len.getD reach
  if reach < start + len then s.reply (.refused .outOfRange) else next len

/-- Blocks in regions are listed by pool and by size, those of unknown origin first. -/
def listedBefore (a b : BlockReport) : Bool :=
  if a.pool ≠ b.pool then decide (a.pool < b.pool)
  else if a.size ≠ b.size then decide (a.size < b.size)
  else a.origin.isNone || b.origin.isSome

/-- The live blocks, those in segments by address and the others behind them. -/
def liveBlocks (s : Session) : List (Place × BlockReport) :=
  let placed := s.machine.liveBlocks.map fun block => (place block.addr true, block)
  let regions := placed.filter fun (place, _) => place == .region
  placed.filter (fun (place, _) => place != .region) ++
    regions.mergeSort fun a b => listedBefore a.2 b.2

/-- What is shown of an address in texts. -/
def masked : Address → String := fun _ => "0xADDR"

/-- What is shown in texts of the place that asked for a block. -/
def maskedSite : Location → String := fun _ => "ORIGIN"

end Session

end PooledMemory
