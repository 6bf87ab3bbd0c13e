import PooledMemory.Machine.Layouts
import PooledMemory.Proofs.Machine.Loans
import PooledMemory.Proofs.Machine.Reachable
import PooledMemory.Session.Run

namespace PooledMemory

namespace Bytes

variable {bytes : Bytes} {start len : Nat}

theorem fill_at {i : Nat} {value : UInt8} (inside : i < len) :
    bytes.fill start len value (start + i) = value :=
  write_of_mem (Nat.le_add_right _ _) (Nat.add_lt_add_left inside _)

end Bytes

namespace SystemHeap

/-- Zeroed memory in two ways: where the natural alignment is enough and the block is not too small
for it, the memory comes zeroed, and any other block is overwritten as soon as it is there. -/
def zeroedOrFilled? (s : SystemHeap) (size align : Nat) : Option (Address × SystemHeap) :=
  let size := max size 1
  if align ≤ granule ∧ align ≤ size then s.take? size align true
  else
    (s.take? size align false).map fun (addr, taken) =>
      (addr, { taken with bytes := taken.bytes.fill addr size 0 })

/-- Memory that is delivered as it is becomes zeroed memory when what was asked for is filled. -/
theorem delivered_fill (s : SystemHeap) (addr size : Nat) :
    (s.delivered addr size false).fill addr size 0 = s.delivered addr size true := by
  have wider := s.size_le_extent addr size
  funext x
  simp only [delivered, Bytes.fill, Bytes.write, Bool.false_and, Bool.true_and, Bool.false_eq_true,
    if_false, decide_eq_true_eq]
  by_cases inside : addr ≤ x ∧ x < addr + s.extent addr size
  · have asked : addr ≤ x ∧ x < addr + size ↔ x - addr < size := by
      rw [Nat.sub_lt_iff_lt_add inside.1, Nat.add_comm]
      exact and_iff_right inside.1
    simp only [if_pos inside, asked]
  · have outside : ¬ (addr ≤ x ∧ x < addr + size) := fun asked =>
      inside ⟨asked.1, Nat.lt_of_lt_of_le asked.2 (Nat.add_le_add_left wider addr)⟩
    rw [if_neg outside, if_neg inside, if_neg inside]

/-- It makes no difference in which of the two ways a block gets its zeroes. -/
theorem allocate?_zeroed (s : SystemHeap) (size align : Nat) :
    s.allocate? size align true = s.zeroedOrFilled? size align := by
  unfold allocate? zeroedOrFilled?
  simp only
  split
  · rfl
  · unfold take?
    split
    · rfl
    · simp only [Option.map_map]
      congr 1
      funext addr
      simp only [Function.comp_apply, delivered_fill]

end SystemHeap

namespace Machine

/-- A block has come into use and reads as zero as far as it was asked for. Nothing else that the
system heap has handed out, in use or not, is written to. -/
structure Cleared (m : Machine) (owner : Option PoolId) (addr size : Nat) (after : Machine) :
    Prop where
  zero : ∀ i < size, after.system.bytes (addr + i) = 0
  kept : ∀ x, m.system.Holds x → ¬ (⟨addr, size⟩ : Span).has x = true →
    after.system.bytes x = m.system.bytes x
  inUse : ∃ b : Block, b.owner = owner ∧ b.addr = addr ∧ size ≤ b.size ∧
    ∀ c, after.InUse c ↔ c = b ∨ m.InUse c

variable {m : Machine} {lost : List (Address × PoolId)} {loans : List SystemBlock} {id : PoolId}
  {p : Pool} {request : Request} {addr : Address}

theorem Supplied.inUse {owner : Option PoolId} {o : Outcome (Except Failure Address)}
    (supplied : Supplied m owner request o) (served : o.answer = .ok (.ok addr)) :
    ∃ b : Block, b.owner = owner ∧ b.addr = addr ∧ request.size ≤ b.size ∧
      ∀ c, o.machine.InUse c ↔ c = b ∨ m.InUse c := by
  cases supplied with
  | refused => cases served
  | @supplied b after change own fits =>
    cases served
    exact ⟨b, own, rfl, fits, fun c => by simpa [Outcome.ok] using change.inUse c⟩

/-- The zeroes are the last thing that is written. -/
theorem allocateIn_zeroed {step : HeapStep (Option Address)} {m after : Machine}
    (found : m.pool? id = some p) (live : p.phase = .live)
    (allocated : p.heap.allocate m.system request.size request.align = .ok step)
    (zeroed : request.zeroed = true)
    (served : m.allocateIn id request = .ok (.ok addr) after) :
    after.system.bytes = step.system.bytes.fill addr request.size 0 := by
  unfold Machine.allocateIn at served
  simp only [found, live, ne_eq, not_true_eq_false, if_false, allocated, zeroed, if_true] at served
  cases answer : step.answer with
  | none =>
    rw [answer] at served
    cases served
  | some start =>
    simp only [answer] at served
    cases tagged : (m.putHeap id step.heap step.system).tags.insert start ⟨id, request.origin⟩ with
    | error twice =>
      rw [tagged] at served
      cases served
    | ok tags =>
      simp only [tagged] at served
      cases served
      split
      · rfl
      · rfl

/-- A block of a pool may come with anything in it, from free memory, from a parked chunk or in a
new segment or region. -/
theorem Sound.allocateIn_cleared (sound : m.Sound lost loans) (id : PoolId)
    (zeroed : request.zeroed = true)
    (served : (m.allocateIn id request).answer = .ok (.ok addr)) :
    m.Cleared (some id) addr request.size (m.allocateIn id request).machine := by
  have supplied := sound.allocateIn_supplied id request
  have placing := sound.allocateIn_placing id request
  generalize same : m.allocateIn id request = o at supplied placing served ⊢
  have inUse := supplied.inUse served
  cases placing with
  | unavailable => cases served
  | refused => cases served
  | @placed p step start tags bytes events found live allocated grants answer tagged outside after =>
    cases served
    have filled : bytes = step.system.bytes.fill addr request.size 0 :=
      allocateIn_zeroed found live allocated zeroed same
    refine ⟨fun i inside => ?_, fun x held apart => ?_, inUse⟩
    · exact (congrFun filled _).trans (Bytes.fill_at inside)
    · exact (outside x apart).trans (Heap.allocate_held sound.below allocated held.occupies)

theorem Sound.serve_cleared (sound : m.Sound lost loans) (target : Target)
    (zeroed : request.zeroed = true)
    (served : (m.serve target request).answer = .ok (.ok addr)) :
    m.Cleared target.owner addr request.size (m.serve target request).machine := by
  cases target with
  | pool id => exact sound.allocateIn_cleared id zeroed served
  | unavailable id => cases served
  | systemHeap =>
    have inUse := (sound.serve_supplied .systemHeap request).inUse served
    simp only [Machine.serve] at served inUse ⊢
    cases taken : m.system.allocate? request.size request.align request.zeroed with
    | none =>
      rw [taken] at served
      cases served
    | some found =>
      obtain ⟨start, system⟩ := found
      simp only [taken] at served inUse ⊢
      cases served
      have wider : request.size ≤ max request.size 1 := Nat.le_max_left _ _
      refine ⟨fun i inside => ?_, fun x held _ => sound.below.take_held taken held.occupies, inUse⟩
      rw [zeroed] at taken
      exact SystemHeap.take_content taken (Span.has_add (Nat.lt_of_lt_of_le inside wider))

theorem Sound.allocate_cleared (sound : m.Sound lost loans) (caller : Caller)
    (named : Option PoolId) (zeroed : request.zeroed = true)
    (served : (m.allocate caller named request).answer = .ok (.ok addr)) :
    m.Cleared (m.target caller named).1.owner addr request.size
      (m.allocate caller named request).machine := by
  obtain ⟨threads, same⟩ := target_machine m caller named
  have sound' : { m with threads }.Sound lost loans := sound.frame rfl rfl rfl rfl
  simp only [Machine.allocate, same] at served ⊢
  exact { sound'.serve_cleared _ zeroed served with }

/-- Too many elements to be counted are refused before anything is looked at but the handle. Any
other request for zeroed memory that is served, from wherever and however, gives zeroes and nothing
else is written to. -/
theorem Attempted.zeroed_cleared (attempted : Attempted m) (caller : Caller) :
    (∀ (count size : Nat) (site : Location), wordSize ≤ count * size →
      Request.array? count size site = none ∧
        ∀ (s : Session) (slot : Nat) (handle : Option Nat),
          s.runBlock caller (.allocate slot handle (.array count size)) =
            s.withNamed handle fun _ => s.reply .nothing) ∧
      (∀ (count size : Nat) (site : Location), count * size < wordSize → ∃ request,
        Request.array? count size site = some request ∧ request.size = count * size ∧
          ∀ (named : Option PoolId) (addr : Address),
            (m.allocate caller named request).answer = .ok (.ok addr) →
            m.Cleared (m.target caller named).1.owner addr (count * size)
              (m.allocate caller named request).machine) ∧
      (∀ (size align : Nat) (addr : Address),
        (m.allocateLayout caller size align true).answer = .ok (.ok addr) →
        m.Cleared (m.target caller none).1.owner addr size
          (m.allocateLayout caller size align true).machine) ∧
      ∀ size align : Nat,
        m.system.allocate? size align true = m.system.zeroedOrFilled? size align := by
  obtain ⟨lost, loans, sound⟩ := attempted.sound
  refine ⟨fun count size site many => ?_, fun count size site few => ?_,
    fun size align addr served => ?_, m.system.allocate?_zeroed⟩
  · have refused : ∀ site, Request.array? count size site = none := fun site => by
      simp [Request.array?, Word.mul?, Nat.not_lt.2 many]
    refine ⟨refused site, fun s slot handle => ?_⟩
    simp only [Session.runBlock, Session.Demand.request?, refused]
  · refine ⟨⟨count * size, granule, true, some site⟩, ?_, rfl, fun named addr served => ?_⟩
    · simp [Request.array?, Word.mul?, few]
    · exact sound.allocate_cleared caller named rfl served
  · exact sound.allocate_cleared caller none rfl served

/-- A parked chunk that is full of the byte of released memory serves an array, and the system heap
serves three bytes at a multiple of 64. -/
theorem busy_cleared :
    (busy.system.bytes (SystemHeap.slotBase 3) = poisonByte ∧
      busy.Cleared (some 1) (SystemHeap.slotBase 3) (5 * 8)
        (busy.allocate { thread := 1 } (some 1) ⟨5 * 8, granule, true, some default⟩).machine) ∧
      busy.Cleared none (SystemHeap.firstBlock + 200000) 3
        (busy.allocateLayout { thread := 1 } 3 64 true).machine := by
  obtain ⟨_, arrays, layouts, _⟩ := busy_reachable.attempted.zeroed_cleared { thread := 1 }
  obtain ⟨request, counted, _, cleared⟩ := arrays 5 8 default (by decide)
  obtain rfl : ⟨5 * 8, granule, true, some default⟩ = request :=
    Option.some_inj.1 ((by decide : Request.array? 5 8 = _).symm.trans counted)
  exact ⟨⟨by decide +kernel, cleared (some 1) _ (by decide +kernel)⟩,
    layouts 3 64 _ (by decide +kernel)⟩

end Machine

end PooledMemory
