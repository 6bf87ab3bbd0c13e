import PooledMemory.Session.Run
import PooledMemory.Proofs.Segment
import PooledMemory.Proofs.SystemHeap
import PooledMemory.Proofs.Heap.Segments
import PooledMemory.Proofs.Heap.Tiling
import PooledMemory.Proofs.Heap.Supply
import PooledMemory.Proofs.Heap.Soundness
import PooledMemory.Proofs.Heap.Placement
import PooledMemory.Proofs.Heap.Release
import PooledMemory.Proofs.Heap.Resize
import PooledMemory.Proofs.Heap.Content
import PooledMemory.Proofs.Heap.Peak
import PooledMemory.Proofs.Heap.Returns
import PooledMemory.Proofs.Heap.Remnants
import PooledMemory.Proofs.TagTable
import PooledMemory.Proofs.TagMap
import PooledMemory.Proofs.Machine.Soundness
import PooledMemory.Proofs.Machine.Lifecycle
import PooledMemory.Proofs.Machine.Routing
import PooledMemory.Proofs.Machine.Call
import PooledMemory.Proofs.Machine.Step
import PooledMemory.Proofs.Machine.Reachable
import PooledMemory.Proofs.Machine.Tiling
import PooledMemory.Proofs.Machine.Records
import PooledMemory.Proofs.Machine.Budgets
import PooledMemory.Proofs.Machine.Rejection
import PooledMemory.Proofs.Machine.Blocks
import PooledMemory.Proofs.Machine.Change
import PooledMemory.Proofs.Machine.Effects
import PooledMemory.Proofs.Machine.Loans
import PooledMemory.Proofs.Machine.Relocation
import PooledMemory.Proofs.Machine.Reallocation
import PooledMemory.Proofs.Machine.Conduct
import PooledMemory.Proofs.Machine.Phases
import PooledMemory.Proofs.Machine.Isolation
import PooledMemory.Proofs.Machine.Footprint
import PooledMemory.Proofs.Machine.Peak
import PooledMemory.Proofs.Machine.Returns
import PooledMemory.Proofs.Machine.Custody
import PooledMemory.Proofs.Machine.Dispatch
import PooledMemory.Proofs.Machine.Steady
import PooledMemory.Proofs.Machine.Marks
import PooledMemory.Proofs.Machine.MarkedSet
import PooledMemory.Proofs.Machine.Interference
import PooledMemory.Proofs.Machine.Anywhere
import PooledMemory.Proofs.Machine.Implicit
import PooledMemory.Proofs.Machine.Remnants
import PooledMemory.Proofs.Session.Calls
import PooledMemory.Proofs.Session.Scopes
import PooledMemory.Proofs.Session.Refusal
import PooledMemory.Proofs.Machine.Tidiness
import PooledMemory.Proofs.Heap.Oblivious
import PooledMemory.Proofs.Machine.Oblivious
import PooledMemory.Proofs.Machine.Past
import PooledMemory.Proofs.Heap.Extent
import PooledMemory.Proofs.Heap.Balance
import PooledMemory.Proofs.Machine.Deeds
import PooledMemory.Proofs.Machine.Journal
import PooledMemory.Proofs.Machine.Balance
import PooledMemory.Proofs.Machine.Arena
import PooledMemory.Proofs.Machine.Milestones
import PooledMemory.Proofs.Machine.Registers
import PooledMemory.Proofs.Heap.Canonical
import PooledMemory.Proofs.Heap.Room
import PooledMemory.Proofs.Machine.Room
import PooledMemory.Proofs.Heap.Order
import PooledMemory.Proofs.Machine.GivingBack
import PooledMemory.Proofs.Machine.Alarms
import PooledMemory.Proofs.Machine.Order
import PooledMemory.Proofs.Machine.Retirement
import PooledMemory.Proofs.Heap.Trimming
import PooledMemory.Proofs.Machine.Trimming
import PooledMemory.Proofs.Heap.InPlace
import PooledMemory.Proofs.Machine.InPlace
import PooledMemory.Proofs.Heap.FirstFit
import PooledMemory.Proofs.Machine.FirstFit
import PooledMemory.Proofs.Machine.Misuse
import PooledMemory.Proofs.Machine.Zeroing
import PooledMemory.Proofs.Heap.Alignment
import PooledMemory.Proofs.Heap.FreeBytes
import PooledMemory.Proofs.Machine.Lookup
import PooledMemory.Proofs.Machine.Measures
import PooledMemory.Proofs.Machine.Undisturbed
import PooledMemory.Proofs.Machine.Boxes
import PooledMemory.Proofs.Machine.Reaping
import PooledMemory.Proofs.Machine.Recall
import PooledMemory.Proofs.TagMap
import PooledMemory.Proofs.Machine.MarkedSet
