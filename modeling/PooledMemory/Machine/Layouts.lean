import PooledMemory.Machine.Routing

namespace PooledMemory.Machine

/-- A request by size and alignment, as language runtimes make them. The place that asks is not
recorded. -/
def allocateLayout (m : Machine) (caller : Caller) (size align : Nat) (zeroed : Bool) :
    Outcome (Except Failure Address) :=
  m.allocate caller none ⟨size, align, zeroed, none⟩

/-- Releases a block of a language runtime. Runtimes cannot unwind here, so a marked block ends
the process. -/
def freeLayout (m : Machine) (caller : Caller) (addr : Address) : Outcome Unit :=
  if m.marks.contains addr then .stop (.abortedOnMark addr) m else m.release caller none addr

/-- Resizes a block of a language runtime, which knows its size and alignment. A marked block ends
the process. -/
def reallocateLayout (m : Machine) (caller : Caller) (addr : Address) (old align size : Nat) :
    Outcome (Option Address) :=
  if m.marks.contains addr then .stop (.abortedOnMark addr) m
  else
    let (target, m) := m.target caller none
    m.relocate caller target addr (some old) ⟨size, align, false, none⟩

end PooledMemory.Machine
