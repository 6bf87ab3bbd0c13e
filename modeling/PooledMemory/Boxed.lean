import PooledMemory.Machine.Layouts

namespace PooledMemory

/-- The request for a place for a value. Values without a size get one too, so that their owner can be
told. -/
def ValueType.request (type : ValueType) (site : Location) : Request :=
  ⟨max type.size 1, type.align, false, some site⟩

/-- An owning pointer to a value in a block of its own. -/
structure Boxed where
  addr : Address
  type : ValueType
  deriving DecidableEq, Repr

namespace Machine

def dropValue (m : Machine) (value : Value) : Machine := { m with dropped := value :: m.dropped }

def readBox (m : Machine) (box : Boxed) : Value :=
  .load m.system.bytes box.addr box.type

/-- Writes a value into a box and leaves the old one to itself. -/
def fillBox (m : Machine) (box : Boxed) (value : Value) : Machine :=
  m.write box.addr value.type.payload value.byte

/-- Puts a value into a block of its own. A value that finds no place is dropped. -/
def box (m : Machine) (caller : Caller) (named : Option PoolId) (value : Value) :
    Outcome (Except Failure Boxed) :=
  (m.allocate caller named (value.type.request caller.site)).bind fun
    | .error failure, m => .ok (.error failure) (m.dropValue value)
    | .ok addr, m => .ok (.ok ⟨addr, value.type⟩) (m.fillBox ⟨addr, value.type⟩ value)

/-- Puts a value into a block of its own, or ends the process if it finds no place. -/
def boxOrAbort (m : Machine) (caller : Caller) (named : Option PoolId) (value : Value) :
    Outcome Boxed :=
  (m.box caller named value).bind fun
    | .error failure, m => .stop (.abortedOnFailure failure) m
    | .ok box, m => .ok box m

/-- Drops the value in a box and puts another one in its place. -/
def assignBox (m : Machine) (box : Boxed) (value : Value) : Machine :=
  (m.dropValue (m.readBox box)).fillBox box value

def dropBox (m : Machine) (caller : Caller) (box : Boxed) : Outcome Unit :=
  (m.dropValue (m.readBox box)).release caller none box.addr

/-- Takes the value out of a box and releases its block. -/
def unbox (m : Machine) (caller : Caller) (box : Boxed) : Outcome Value :=
  (m.release caller none box.addr).map fun _ => m.readBox box

end Machine

end PooledMemory
