import PooledMemory.Fault
import PooledMemory.Request

namespace PooledMemory

/-- What is recorded about a block that a pool has issued. -/
structure Tag where
  pool : PoolId
  /-- The place in the program that asked for the block, if it is known. -/
  origin : Option Location
  deriving DecidableEq, Repr

/-- The tags of the blocks whose addresses fall into one shard. -/
abbrev Shard := List (Address × Tag)

/-- The tags of all blocks issued by pools, spread over shards that are created on first use.
The number of tags is kept apart, so that an empty table is recognised at once. -/
structure TagTable where
  shards : Vector (Option Shard) 64
  count : Nat

namespace TagTable

def empty : TagTable := ⟨Vector.replicate 64 none, 0⟩

def isEmpty (t : TagTable) : Bool := t.count == 0

def shardOf (addr : Address) : Fin 64 :=
  ⟨((addr >>> 4) ^^^ (addr >>> 12)) % 64, Nat.mod_lt _ (by decide)⟩

def shard (t : TagTable) (addr : Address) : Option Shard := t.shards[shardOf addr]

def get? (t : TagTable) (addr : Address) : Option Tag :=
  if t.isEmpty then none else (t.shard addr).bind fun s => s.lookup addr

/-- The pool that issued the block at an address. -/
def owner? (t : TagTable) (addr : Address) : Option PoolId := (t.get? addr).map (·.pool)

theorem get?_empty (addr : Address) : empty.get? addr = none := rfl

/-- Records a block. It is a fault if another one is recorded at its address still, which is then
forgotten. The fault comes with the table that it leaves behind. -/
def insert (t : TagTable) (addr : Address) (tag : Tag) : Except (Fault × TagTable) TagTable :=
  let s := (t.shard addr).getD []
  match s.lookup addr with
  | none =>
    .ok { t with
      shards := t.shards.set (shardOf addr) (some ((addr, tag) :: s))
      count := t.count + 1 }
  | some _ =>
    .error (.taggedTwice addr, { t with
      shards := t.shards.set (shardOf addr) (some ((addr, tag) :: s.filter (·.1 != addr))) })

/-- Forgets the block at an address and answers what was recorded about it. -/
def remove? (t : TagTable) (addr : Address) : Option (Tag × TagTable) :=
  if t.isEmpty then none
  else
    match t.shard addr with
    | none => none
    | some s =>
      match s.lookup addr with
      | none => none
      | some tag =>
        some (tag,
          { t with
            shards := t.shards.set (shardOf addr) (some (s.filter (·.1 != addr)))
            count := t.count - 1 })

def removeAll (t : TagTable) (addrs : List Address) : TagTable :=
  addrs.foldl (fun t addr => ((t.remove? addr).map (·.2)).getD t) t

/-- Moves the record of a block to the address where the block is now. -/
def move (t : TagTable) (source target : Address) : Except (Fault × TagTable) TagTable :=
  match t.remove? source with
  | none => .ok t
  | some (tag, t) => t.insert target tag

def toList (t : TagTable) : List (Address × Tag) :=
  t.shards.toList.flatMap fun s => s.getD []

end TagTable

end PooledMemory
