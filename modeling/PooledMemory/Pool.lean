import PooledMemory.Heap.Resize
import PooledMemory.Request

namespace PooledMemory

/-- What becomes of live blocks when their pool is destroyed. -/
inductive DropPolicy
  /-- The memory is released, whatever lives in it. -/
  | mayReleaseBlocks
  /-- Dropping the handle while blocks live is a fault, and the pool waits for their release. -/
  | mustNotReleaseBlocks
  deriving DecidableEq, Repr

namespace DropPolicy

/-- The policy of a pool that names none. -/
def standard : DropPolicy := mayReleaseBlocks

def text : DropPolicy → String
  | mayReleaseBlocks => "MayReleaseBlocks"
  | mustNotReleaseBlocks => "MustNotReleaseBlocks"

end DropPolicy

/-- The life of a pool. It only ever moves to a later phase. -/
inductive Phase
  | live
  /-- Destruction waits for the release of the last block. -/
  | deletePending
  | destroyed
  deriving DecidableEq, Repr

/-- How a pool is to be set up. -/
structure PoolSettings where
  maxSize : Nat := maxWord
  identifier : Option String := none
  /-- Whether the pool belongs to the thread that opens it. -/
  owned : Bool := false
  /-- Whether destruction waits for the release of the last block. -/
  lazy : Bool := false
  policy : DropPolicy := .standard
  deriving DecidableEq, Repr

/-- An independently managed heap with its own budget. -/
structure Pool where
  id : PoolId
  settings : PoolSettings
  owner : Option ThreadId
  phase : Phase
  heap : Heap
  /-- Whether the handle of the pool still exists. -/
  held : Bool
  deriving DecidableEq, Repr

namespace Pool

/-- Whether destruction waits for live blocks. -/
def keepsBlocks (p : Pool) : Bool :=
  p.settings.lazy || p.settings.policy == .mustNotReleaseBlocks

/-- The identifier, or nothing for a pool without one. -/
def name (p : Pool) : String := p.settings.identifier.getD ""

end Pool

/-- What a listing shows of a pool. -/
structure PoolReport where
  id : PoolId
  identifier : Option String
  owner : Option ThreadId
  maxSize : Nat
  allocated : Nat
  deletePending : Bool
  deriving DecidableEq, Repr

def ThreadId.text (thread : ThreadId) : String := s!"ThreadId({thread})"

namespace PoolReport

def text (r : PoolReport) : String :=
  let identifier := (r.identifier.map fun name => " '" ++ name ++ "'").getD ""
  let budget := if r.maxSize = maxWord then "" else s!" of {r.maxSize}"
  let owner := (r.owner.map fun thread => ", owned by " ++ ThreadId.text thread).getD ""
  let pending := if r.deletePending then ", delete pending" else ""
  r.id.text ++ identifier ++ s!": {r.allocated}" ++ budget ++ " bytes allocated" ++ owner ++ pending

end PoolReport

def Pool.report (p : Pool) : PoolReport where
  id := p.id
  identifier := p.settings.identifier
  owner := p.owner
  maxSize := p.settings.maxSize
  allocated := p.heap.allocated
  deletePending := p.phase == .deletePending

/-- What a listing shows of a live block. -/
structure BlockReport where
  addr : Address
  size : Nat
  pool : PoolId
  origin : Option Location
  deriving DecidableEq, Repr

namespace BlockReport

/-- The line for a block, with its address written by `hex` and its origin by `site`. -/
def text (hex : Address → String) (site : Location → String) (r : BlockReport) : String :=
  s!"{r.size} bytes at {hex r.addr} in {r.pool.text}" ++
    (r.origin.map fun origin => s!" allocated at {site origin}").getD ""

end BlockReport

end PooledMemory
