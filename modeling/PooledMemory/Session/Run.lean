import PooledMemory.Session.State

namespace PooledMemory.Session

/-- The value of a literal for a type. The characters of a text are stored first. -/
def literal (s : Session) (type : ValueType) (value : Literal) : Value × Session :=
  match type with
  | .text => (.ofNumber .text s.texts.size, { s with texts := s.texts.push value.text })
  | .bytes count => (.array count (UInt8.ofNat (value.number % 256).toNat), s)
  | type => (.ofNumber type value.number, s)

def content (s : Session) (box : Boxed) : Content := .ofValue s.texts (s.machine.readBox box)

/-- Stores a box in a slot and shows it. -/
def storeBox (s : Session) (slot : Nat) (box : Boxed) : Turn :=
  let owner := s.machine.owner? box.addr
  { s with boxes := put s.boxes slot ⟨box, owner⟩ }.reply
    (.boxed (place box.addr owner.isSome) owner (decide (box.addr % box.type.align = 0)))

/-- A thread number that no running thread has. -/
def freshThread (s : Session) : ThreadId := s.running.foldl max 0 + 1

/-- Shows something of a pool. -/
def showPool (s : Session) (id : PoolId) (view : Pool → Reply) : Turn :=
  match s.machine.pool? id with
  | some p => s.reply (view p)
  | none => s.reply .nothing

/-- Commands about whole pools. -/
def runPool (s : Session) (caller : Caller) : Command → Turn
  | .openPool handle settings =>
    if (s.handles.lookup handle).isSome then s.reply (.refused .taken)
    else
      let (id, machine) := s.machine.openPool caller settings
      { s with machine, handles := put s.handles handle id }.showPool id fun p =>
        .poolReport p.report
  | .showPool handle => s.withPool handle fun id => s.showPool id fun p => .poolReport p.report
  | .dropPool handle unwinding =>
    s.withPool handle fun id =>
      { s with
        handles := drop s.handles handle
        reportedUsages := drop s.reportedUsages handle }.finish
          (s.machine.dropPool { caller with unwinding } id)
        fun _ s => s.reply (if unwinding then .unwound else .done)
  | .showUsage handle =>
    s.withPool handle fun id => s.showPool id fun p => .text p.heap.usage.text
  | .trimPool handle =>
    s.withPool handle fun id =>
      s.finish (s.machine.trimPool id) fun bytes s => s.reply (.number bytes)
  | .listPools => s.reply (.poolReports s.machine.poolReports)
  | .liveBlocks => s.reply (.blockReports s.liveBlocks)
  | .reportLeaks =>
    let (count, machine) := s.machine.reportLeaks
    { s with machine }.reply (.number count)
  | .systemUsage usage => s.reply (.usage usage)
  | .usageReport usage => s.reply (.text (s.machine.usageReport usage))
  | .trimSystem keep released => s.reply (.trimmed released keep)
  | .configure limit tellsSizes =>
    let system := s.machine.system
    let system :=
      { system with
        limit := (limit.map SystemHeap.clampLimit).getD system.limit
        tellsSizes := tellsSizes.getD system.tellsSizes }
    { s with machine := { s.machine with system } }.reply .done
  | _ => s.reply (.refused .badOperation)

/-- Commands that obtain, resize or release blocks. -/
def runBlock (s : Session) (caller : Caller) : Command → Turn
  | .allocate slot handle demand =>
    s.withNamed handle fun named =>
      match demand.request? caller.site with
      | none => s.reply .nothing
      | some request =>
        s.finish (s.machine.allocate caller named request)
          (storeIfServed slot demand.size demand.align)
  | .allocateLayout slot size align zeroed =>
    if layoutFits size align then
      s.finish (s.machine.allocateLayout caller size align zeroed) (storeIfServed slot size align)
    else s.reply (.refused .layout)
  | .foreign slot size =>
    match s.machine.system.allocate? size granule false with
    | none => s.reply .nothing
    | some (addr, system) =>
      { s with machine := { s.machine with system } }.store slot addr size granule
  | .resizeBlock handle ref size =>
    s.withPool handle fun id =>
      s.withBlock ref false fun held addr =>
        s.finish (s.machine.resizeBlock id addr size) (storeIfResized ref.slot size held.align)
  | .releaseBlock handle ref =>
    s.withPool handle fun id =>
      s.withBlock ref false fun held addr =>
        s.finish (s.machine.releaseBlock caller id addr) fun _ s =>
          (if held.issuer.isSome && !ref.isLoose then s.vacate ref.slot else s).reply .done
  | .reallocate handle ref size =>
    s.withNamed handle fun named =>
      s.withBlock ref true fun _ addr =>
        s.finish (s.machine.reallocate caller named addr size)
          (storeIfResized ref.slot size granule)
  | .reallocateLayout none _ => s.reply (.flag true)
  | .reallocateLayout (some ref) size =>
    s.withBlock ref true fun held addr =>
      s.finish (s.machine.reallocateLayout caller addr held.requested held.align size)
        (storeIfResized ref.slot size held.align)
  | .free handle ref =>
    s.withNamed handle fun named =>
      s.withBlock ref true fun _ addr =>
        s.finish (s.machine.free caller named addr) fun _ after => released s ref addr after
  | .freeElsewhere ref =>
    s.withBlock ref true fun _ addr =>
      let helper := s.freshThread
      let o := s.machine.free { thread := helper } none addr
      s.finish { o with machine := o.machine.exitThread helper } fun _ after =>
        released s ref addr after
  | .freeLayout none => s.reply (.flag true)
  | .freeLayout (some ref) =>
    s.withBlock ref true fun _ addr =>
      s.finish (s.machine.freeLayout caller addr) fun _ after => released s ref addr after
  | _ => s.reply (.refused .badOperation)

/-- Commands that look at blocks, or write into them. -/
def runContent (s : Session) : Command → Turn
  | .owns handle ref =>
    s.withPool handle fun id =>
      s.withBlock ref false fun _ addr => s.reply (.flag (s.machine.blockSize? id addr).isSome)
  | .sizeOf ref => s.withBlock ref true fun _ addr => s.reply (.number (s.sizeAt ref addr))
  | .ownerOf ref => s.withBlock ref false fun _ addr => s.reply (.pool (s.machine.owner? addr))
  | .fill ref seed len =>
    s.withBlock ref true fun held addr =>
      s.withRange ref held addr 0 len fun len =>
        { s with machine := s.machine.write addr len (Bytes.pattern seed) }.reply (.number len)
  | .check ref seed len =>
    s.withBlock ref true fun held addr =>
      s.withRange ref held addr 0 len fun len =>
        s.reply (.flag (s.machine.system.bytes.hasPattern addr len seed))
  | .read ref start len =>
    s.withBlock ref true fun held addr =>
      s.withRange ref held addr start len fun len =>
        s.reply (.bytes (s.machine.system.bytes.slice (addr + start) len))
  | .mark ref =>
    s.withBlock ref false fun _ addr => { s with machine := s.machine.mark addr }.reply .done
  | .unmark ref =>
    s.withBlock ref false fun _ addr => { s with machine := s.machine.unmark addr }.reply .done
  | .showAllocator => s.reply (.text "PoolAllocator \x7b .. \x7d")
  | _ => s.reply (.refused .badOperation)

/-- Commands about the current pool of a thread. -/
def runThread (s : Session) (caller : Caller) : Command → Turn
  | .current => s.reply (.pool (s.machine.threads caller.thread).current)
  | .select handle =>
    s.withNamed handle fun named =>
      let (previous, machine) := s.machine.select caller named
      { s with machine }.reply (.pool previous)
  | .hold hold handle =>
    s.withNamed handle fun named =>
      if (s.holds.lookup (caller.thread, hold)).isSome then s.reply (.refused .taken)
      else
        let (previous, machine) := s.machine.select caller named
        { s with machine, holds := put s.holds (caller.thread, hold) previous }.reply
          (.pool previous)
  | .unhold hold =>
    match s.holds.lookup (caller.thread, hold) with
    | none => s.reply (.refused .empty)
    | some previous =>
      { s with
        machine := s.machine.setCurrent caller.thread previous
        holds := drop s.holds (caller.thread, hold) }.reply (.pool previous)
  | .exitThread =>
    if s.running.contains caller.thread then
      { s with
        machine := s.machine.exitThread caller.thread
        running := s.running.filter (· != caller.thread)
        holds := s.holds.filter (·.1.1 != caller.thread)
        reportedCurrent := drop s.reportedCurrent caller.thread }.reply .done
    else s.reply (.refused .empty)
  | _ => s.reply (.refused .badOperation)

/-- Commands about boxes. -/
def runBox (s : Session) (caller : Caller) : Command → Turn
  | .box slot handle type value orAbort =>
    s.withNamed handle fun named =>
      if (s.boxes.lookup slot).isSome then s.reply (.refused .taken)
      else
        match type with
        | none => s.reply (.refused .badType)
        | some type =>
          let (value, s) := s.literal type value
          if orAbort then
            s.finish (s.machine.boxOrAbort caller named value) fun box s => s.storeBox slot box
          else
            s.finish (s.machine.box caller named value) fun
              | .ok box, s => s.storeBox slot box
              | .error failure, s => s.reply (.failed failure)
  | .readBox slot => s.withBox slot fun box => s.reply (.content (s.content box))
  | .writeBox slot value =>
    s.withBox slot fun box =>
      let (value, s) := s.literal box.type value
      let s := { s with machine := s.machine.assignBox box value }
      s.reply (.content (s.content box))
  | .showBox slot =>
    s.withBox slot fun box => s.reply (.text (Content.debugText s.texts (s.machine.readBox box)))
  | .boxOwner slot =>
    match s.boxes.lookup slot with
    | none => s.reply (.refused .empty)
    | some held => s.reply (.pool (s.machine.owner? held.box.addr))
  | .dropBox slot =>
    s.withBox slot fun box =>
      { s with boxes := drop s.boxes slot }.finish (s.machine.dropBox caller box) fun _ s =>
        s.reply .done
  | .unbox slot =>
    s.withBox slot fun box =>
      { s with boxes := drop s.boxes slot }.finish (s.machine.unbox caller box) fun value after =>
        { after with machine := after.machine.dropValue value }.reply
          (.content (.ofValue s.texts value))
  | .drops => s.reply (.number (s.machine.dropped.countP (·.type == .counted)))
  | _ => s.reply (.refused .badOperation)

/-- Carries out any command but a scope. -/
def runPlain (s : Session) (caller : Caller) (c : Command) : Turn :=
  match c with
  | .openPool .. | .showPool .. | .dropPool .. | .showUsage .. | .trimPool .. | .listPools
  | .liveBlocks | .reportLeaks | .systemUsage .. | .usageReport .. | .trimSystem ..
  | .configure .. => s.runPool caller c
  | .allocate .. | .allocateLayout .. | .foreign .. | .resizeBlock .. | .releaseBlock ..
  | .reallocate .. | .reallocateLayout .. | .free .. | .freeElsewhere .. | .freeLayout .. =>
    s.runBlock caller c
  | .owns .. | .sizeOf .. | .ownerOf .. | .fill .. | .check .. | .read .. | .mark .. | .unmark ..
  | .showAllocator => s.runContent c
  | .current | .select .. | .hold .. | .unhold .. | .exitThread => s.runThread caller c
  | .box .. | .readBox .. | .writeBox .. | .showBox .. | .boxOwner .. | .dropBox .. | .unbox ..
  | .drops => s.runBox caller c
  | .scope .. | .unknown => s.reply (.refused .badOperation)

/-- Tries an allocation in the way in which the handler of an event would, and answers the owner
of the block. -/
def probe (s : Session) (thread : ThreadId) : Option PoolId × Session :=
  let caller : Caller := { thread, nested := true }
  let o := s.machine.allocate caller none (.plain 24)
  match o.answer with
  | .ok (.ok addr) =>
    (o.machine.owner? addr, { s with machine := (o.machine.free caller none addr).machine })
  | _ => (none, { s with machine := o.machine })

/-- Prepares events for a report. -/
def logEvents (s : Session) (thread : ThreadId) : List Event → List Logged × Session
  | [] => ([], s)
  | event :: rest =>
    let place := match event with
      | .strayRelease _ addr => some (place addr true)
      | _ => none
    let (owner, s) :=
      if s.probes then
        let (owner, s) := s.probe thread
        (some owner, s)
      else (none, s)
    let (logged, s) := s.logEvents thread rest
    (⟨event, place, owner⟩ :: logged, s)

/-- The text by which reports of leaks are put in order. -/
def leakText : Event → String
  | .leakedBlock block => block.text masked maskedSite
  | _ => ""

/-- What has changed since the last report, and the session with that report noted. -/
def changes (s : Session) (thread : ThreadId) (c : Command) : Changes × Session :=
  let usages := s.handles.filterMap fun (handle, id) =>
    (s.machine.pool? id).map fun p => (handle, p.heap.usage)
  let newUsages := usages.filter fun (handle, usage) =>
    usage != (s.reportedUsages.lookup handle).getD {}
  let pools := s.machine.poolReports
  let current := (s.machine.threads thread).current
  let sameCurrent := match c with
    | .exitThread => true
    | _ => current == (s.reportedCurrent.lookup thread).getD none
  let events := s.machine.events.drop s.reportedEvents
  let ordered := match c with
    | .reportLeaks => events.mergeSort fun a b => decide (leakText a ≤ leakText b)
    | _ => events
  let (logged, s) := s.logEvents thread ordered
  (⟨newUsages, if pools = s.reportedPools then none else some pools,
      if sameCurrent then none else some current, logged⟩,
    { s with
      reportedUsages := usages
      reportedPools := pools
      reportedCurrent :=
        if sameCurrent then s.reportedCurrent else put s.reportedCurrent thread current
      reportedEvents := s.machine.events.length })

mutual

/-- Carries out a command on a thread. -/
def run (s : Session) (thread : ThreadId) : Command → Turn
  | .scope handle body unwinds =>
    s.withNamed handle fun named =>
      let (previous, machine) := s.machine.select { thread } named
      match runAll { s with machine } thread body with
      | .error fault => .error fault
      | .ok (steps, s) =>
        { s with machine := s.machine.setCurrent thread previous }.reply
          (.scope previous steps unwinds)
  | c => s.runPlain { thread } c

/-- Carries out commands one after the other and reports the changes after each. -/
def runAll (s : Session) (thread : ThreadId) :
    List Command → Except Fault (List (Reply × Changes) × Session)
  | [] => .ok ([], s)
  | c :: rest =>
    match run s thread c with
    | .error fault => .error fault
    | .ok (reply, s) =>
      let (changes, s) := s.changes thread c
      match runAll s thread rest with
      | .error fault => .error fault
      | .ok (steps, s) => .ok ((reply, changes) :: steps, s)

end

/-- Carries out one command, on a thread that is started if it does not run yet. -/
def step (s : Session) (thread : ThreadId) (c : Command) :
    Except Fault (Reply × Changes × Session) :=
  let s := match c with
    | .exitThread => s
    | _ => if s.running.contains thread then s else { s with running := thread :: s.running }
  match s.run thread c with
  | .error fault => .error fault
  | .ok (reply, s) =>
    let (changes, s) := s.changes thread c
    .ok (reply, changes, s)

/-- How a script ended. -/
inductive Ending
  /-- The process was stopped by this fault. -/
  | aborted (fault : Fault)
  | completed (pools : List PoolReport) (blocks : List (Place × BlockReport))

/-- Carries out a script of commands on threads. -/
def play (s : Session) : List (ThreadId × Command) → List (Reply × Changes) × Ending
  | [] => ([], .completed s.machine.poolReports s.liveBlocks)
  | (thread, c) :: rest =>
    match s.step thread c with
    | .error fault => ([], .aborted fault)
    | .ok (reply, changes, s) =>
      let (steps, ending) := play s rest
      ((reply, changes) :: steps, ending)

end PooledMemory.Session
