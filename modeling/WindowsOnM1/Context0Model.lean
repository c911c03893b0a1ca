import WindowsOnM1.Attempts
import Mathlib.Data.BitVec

/-!
The context-0 mappings of `apple_agx_context0_broker.c`, made and withdrawn through
`AgxRrExchange`. What the broker answers may depend on everything asked before; the counters
that only diagnostics read are left out, as is the platform above.
-/
namespace WindowsOnM1.Context0
open Attempts

abbrev U32 := BitVec 32
abbrev U64 := BitVec 64

abbrev abiVersion : U32 := 4
abbrev window : U32 := 0x600
abbrev responseOffset : U32 := 0x80
abbrev commandMap : U32 := 3
abbrev commandUnmap : U32 := 4
abbrev commandQuery : U32 := 5
abbrev commandVerifyAbsent : U32 := 7
abbrev flagActive : U32 := 2
abbrev flagPrefixUnchanged : U32 := 4
abbrev leafBytes : U64 := 0x4000

structure Request where
  version : U32
  bytes : U32
  command : U32
  reserved : U32
  sequence : U64
  epoch : U64
  va : U64
  ipa : U64
  length : U64
  handle : U64
  deriving DecidableEq

structure Response where
  receipt : U64
  status : U32
  flags : U32
  epoch : U64
  root : U64
  ttbr0 : U64
  systemVa : U64
  systemBytes : U64
  handle : U64
  pa : U64
  count : U64
  arenaVersion : U32
  arenaClass : U32
  arenaVa : U64
  arenaBytes : U64
  deriving DecidableEq

def Response.zero : Response := ⟨0,0,0,0,0,0,0,0,0,0,0,0,0,0,0⟩
def lowWord (word : U64) : U32 := word.setWidth 32
def highWord (word : U64) : U32 := (word >>> 32).setWidth 32

def Response.ofWords (word : Nat → U64) : Response where
  receipt := word 0
  status := lowWord (word 1)
  flags := highWord (word 1)
  epoch := word 2
  root := word 3
  ttbr0 := word 4
  systemVa := word 5
  systemBytes := word 6
  handle := word 7
  pa := word 8
  count := word 9
  arenaVersion := lowWord (word 10)
  arenaClass := highWord (word 10)
  arenaVa := word 11
  arenaBytes := word 12

/-- What was asked for the journal's root, and what was read back if it was sent at all. -/
structure Exchange where
  request : Request
  root : U64
  response : Option Response
  deriving DecidableEq

/-- Reads depend on the exchanges before, and on the request whose doorbell was rung last. -/
structure Io where
  callbacks : Bool
  read64 : List Exchange → Option Request → U32 → U64

/-- `AgxRrExchange` up to the check of its answer. -/
def retainedExchange (io : Io) (log : List Exchange) (request : Request) : Request × Option Response :=
  if io.callbacks = false then (request,none)
  else
    let sequence := io.read64 log none (window + responseOffset) + 1
    let sent := { request with version := abiVersion, bytes := 64, reserved := 0, sequence := sequence }
    if sequence = 0 then (sent,none)
    else (sent,some (Response.ofWords (fun i => io.read64 log (some sent) (window + responseOffset + BitVec.ofNat 32 (8 * i)))))

/-- `LastResponse`. -/
def Exchange.last (exchange : Exchange) : Response := exchange.response.getD Response.zero

/-- An answer to this very request, with the epoch, the root and the flags that are expected. -/
def Exchange.Accepted (exchange : Exchange) : Prop :=
  ∃ response, exchange.response = some response ∧ response.receipt = exchange.request.sequence ∧ response.status = 0 ∧
    response.epoch = exchange.request.epoch ∧ response.root = exchange.root ∧
    response.flags &&& (flagActive ||| flagPrefixUnchanged) = flagActive ||| flagPrefixUnchanged

instance (exchange : Exchange) : Decidable exchange.Accepted :=
  match same : exchange.response with
  | none => isFalse (fun ⟨_,wrong,_⟩ => by rw [same] at wrong; cases wrong)
  | some response =>
    decidable_of_iff (response.receipt = exchange.request.sequence ∧ response.status = 0 ∧ response.epoch = exchange.request.epoch ∧
      response.root = exchange.root ∧ response.flags &&& (flagActive ||| flagPrefixUnchanged) = flagActive ||| flagPrefixUnchanged)
      ⟨fun holds => ⟨response,same,holds⟩,fun ⟨_,same',holds⟩ => by rw [same] at same'; cases same'; exact holds⟩

inductive MemoryState
  | empty | cpuOwned | prepared | gpuMapped | inFlight | completed
  deriving DecidableEq

structure MemoryObject where
  cpuAddress : U64
  deviceAddress : U64
  length : U64
  devicePages : U64
  devicePageCount : U32
  gpuVirtualAddress : U64
  submittedFence : U64
  context : U32
  state : MemoryState
  deriving DecidableEq

inductive Protection
  | firmwareDeviceReadWrite | firmwareSharedReadWrite | firmwareGpuSharedReadWrite | firmwarePrivateReadWrite
  | firmwareGpuPrivateReadWrite | firmwareReadWriteGpuReadOnly | gpuSharedReadOnly | gpuSharedWriteOnly | gpuSharedReadWrite
  | other
  deriving DecidableEq

/-- A mapping with the place of its object; no object stands there for a null pointer. -/
structure Mapping where
  context : U32
  virtualAddress : U64
  physicalAddress : U64
  length : U64
  protection : Protection
  object : Nat
  deriving DecidableEq

structure Graph where
  initialized : Bool
  built : Bool
  brokerOnly : Bool
  mappingsReady : Bool
  brokerOutstanding : Nat
  ttbr0PhysicalAddress : U64
  ttbr1PhysicalAddress : U64
  ttbr0 : U64
  ttbr1 : U64
  pageCount : U32
  mappings : List Mapping
  objects : List MemoryObject
  channelMemory : List (Nat × U64)
  renderSharedMemory : List (Nat × U64)

abbrev mappingCapacity : Nat := 95
abbrev maxLeaves : Nat := 256
abbrev regionBBufferMgrGpuVa : U64 := 0x420000000

/-- The leaves of a length, as a 32-bit count. -/
def leavesIn (length : U64) : Nat := length.toNat / 0x4000 % 2^32

def countLeaves : List Mapping → Nat → Nat
  | [], total => total
  | mapping :: rest, total =>
    if mapping.length = 0 ∨ mapping.length &&& 0x3fff ≠ 0 then 0
    else if leavesIn mapping.length > maxLeaves - total then 0
    else countLeaves rest (total + leavesIn mapping.length)

def graphLeafCount (graph : Graph) : Nat :=
  if graph.mappings.length ≠ mappingCapacity - 1 then 0 else countLeaves graph.mappings 0

/-- What `graph_valid` refuses about a mapping on its own. -/
def BadMapping (objects : List MemoryObject) (mapping : Mapping) (total : Nat) : Prop :=
  match objects[mapping.object]? with
  | none => True
  | some object =>
    object.state = .empty ∨ object.cpuAddress = 0 ∨ object.devicePages ≠ 0 ∨ object.devicePageCount ≠ 0 ∨ mapping.context ≠ 0 ∨
      mapping.length = 0 ∨ mapping.length &&& 0x3fff ≠ 0 ∨ mapping.virtualAddress &&& 0x3fff ≠ 0 ∨
      mapping.physicalAddress ≠ object.deviceAddress ∨ mapping.length ≠ object.length ∨
      (if mapping.virtualAddress = regionBBufferMgrGpuVa then mapping.protection ≠ .firmwareGpuSharedReadWrite
        else mapping.protection ≠ .firmwareSharedReadWrite) ∨
      mapping.virtualAddress > BitVec.allOnes 64 - mapping.length ∨ mapping.physicalAddress > BitVec.allOnes 64 - mapping.length ∨
      mapping.length.toNat / 0x4000 > maxLeaves - total

instance (objects : List MemoryObject) (mapping : Mapping) (total : Nat) : Decidable (BadMapping objects mapping total) := by
  unfold BadMapping
  split
  all_goals exact inferInstance

/-- What `graph_valid` refuses about a mapping beside an earlier one. -/
def Clash (mapping earlier : Mapping) : Prop :=
  (mapping.virtualAddress < earlier.virtualAddress + earlier.length ∧
    earlier.virtualAddress < mapping.virtualAddress + mapping.length) ∨
  (mapping.object ≠ earlier.object ∧ mapping.physicalAddress < earlier.physicalAddress + earlier.length ∧
    earlier.physicalAddress < mapping.physicalAddress + mapping.length)

instance (mapping earlier : Mapping) : Decidable (Clash mapping earlier) := inferInstanceAs (Decidable (_ ∨ _))

/-- The loop of `graph_valid`, with the mappings seen so far. -/
def checkMappings (objects : List MemoryObject) : (earlier rest : List Mapping) → (total : Nat) → Option Nat
  | _, [], total => some total
  | earlier, mapping :: rest, total =>
    if BadMapping objects mapping total then none
    else if ∃ before ∈ earlier, Clash mapping before then none
    else checkMappings objects (earlier ++ [mapping]) rest (total + leavesIn mapping.length)

def GraphValid (graph : Graph) : Prop :=
  graph.initialized = true ∧ graph.built = true ∧ graph.brokerOnly = true ∧ graph.mappingsReady = false ∧
    graph.brokerOutstanding = 0 ∧ graph.ttbr0PhysicalAddress = 0 ∧ graph.ttbr1PhysicalAddress = 0 ∧ graph.ttbr0 = 0 ∧
    graph.ttbr1 = 0 ∧ graph.pageCount = 0 ∧ graphLeafCount graph ≠ 0 ∧
    checkMappings graph.objects [] graph.mappings 0 = some (graphLeafCount graph)

instance (graph : Graph) : Decidable (GraphValid graph) := by
  unfold GraphValid
  exact inferInstance

/-- A leaf of a mapping, before it is mapped. -/
structure Place where
  range : Nat
  offset : U64
  va : U64
  pa : U64
  deriving DecidableEq

def placesOf (range : Nat) (mapping : Mapping) : List Place :=
  (List.range (mapping.length.toNat / 0x4000)).map (fun k =>
    ⟨range,BitVec.ofNat 64 (0x4000 * k),mapping.virtualAddress + BitVec.ofNat 64 (0x4000 * k),
      mapping.physicalAddress + BitVec.ofNat 64 (0x4000 * k)⟩)

/-- The leaves in the order of the two loops of `AppleAgxContext0BrokerMap`. -/
def places (graph : Graph) : List Place := graph.mappings.zipIdx.flatMap (fun mapping => placesOf mapping.2 mapping.1)

inductive LeafState
  | mapped | unmapped
  deriving DecidableEq

structure Leaf where
  va : U64
  ipa : U64
  pa : U64
  handle : U64
  range : Nat
  state : LeafState
  deriving DecidableEq

structure Journal where
  graph : Option Graph
  epoch : U64
  root : U64
  uncertain : Bool
  leaves : List Leaf

structure World where
  journal : Journal
  log : List Exchange
inductive Failure
  | invalid | mapFailed | queryFailed | retireFailed
  deriving DecidableEq
abbrev Op (α : Type) := Attempt Failure World α
def setJournal (update : Journal → Journal) : Op PUnit := change (fun world => { world with journal := update world.journal })
def setGraph (update : Graph → Graph) : Op PUnit :=
  setJournal (fun journal => { journal with graph := journal.graph.map update })

section
variable (io : Io)

def exchange (command : U32) (leaf : Leaf) : Op Exchange := do
  let world ← current
  let asked := retainedExchange io world.log
    ⟨0,0,command,0,0,world.journal.epoch,leaf.va,leaf.ipa,leafBytes,if command = commandMap then 0 else leaf.handle⟩
  change (fun world => { world with log := world.log ++ [⟨asked.1,world.journal.root,asked.2⟩] })
  pure ⟨asked.1,world.journal.root,asked.2⟩

/-- An answer that may stand for a mapping whose handle is not known. -/
def hold : Op PUnit := setJournal (fun journal => { journal with
  uncertain := true
  graph := journal.graph.map (fun graph => { graph with brokerOutstanding := graph.brokerOutstanding + 1 }) })
def refuseMap (asked : Exchange) : Op PUnit := do
  if asked.last.status = 0 ∨ asked.last.handle ≠ 0 then hold else pure ⟨⟩
  stop .mapFailed
def addLeaf (leaf : Leaf) : Op PUnit := setJournal (fun journal => { journal with
  leaves := journal.leaves ++ [leaf]
  graph := journal.graph.map (fun graph => { graph with brokerOutstanding := graph.brokerOutstanding + 1 }) })

/-- An answer with the success and the number of leaves that are expected. -/
def Exchange.Counts (exchange : Exchange) (count : Nat) : Prop := exchange.Accepted ∧ exchange.last.count.toNat = count
instance (exchange : Exchange) (count : Nat) : Decidable (exchange.Counts count) := inferInstanceAs (Decidable (_ ∧ _))
def queryLeaf (leaf : Leaf) : Op PUnit := do
  let world ← current
  let seen ← exchange io commandQuery leaf
  stopIf (¬ (seen.Counts world.journal.leaves.length ∧ seen.last.pa = leaf.pa)) .queryFailed

def mapLeaf (place : Place) (ipa : U64) : Op PUnit := do
  stopIf (ipa &&& 0x3fff ≠ 0) .invalid
  let asked ← exchange io commandMap ⟨place.va,ipa,place.pa,0,place.range,.mapped⟩
  if asked.Accepted then
    if asked.last.handle = 0 then
      hold
      stop .mapFailed
    else
      let leaf : Leaf := ⟨place.va,ipa,place.pa,asked.last.handle,place.range,.mapped⟩
      addLeaf leaf
      let world ← current
      stopIf (asked.last.count.toNat ≠ world.journal.leaves.length) .queryFailed
      queryLeaf io leaf
  else refuseMap asked

def mapLeaves (resolve : Nat → U64 → Option U64) : List Place → Op PUnit
  | [] => pure ⟨⟩
  | place :: rest =>
    match resolve place.range place.offset with
    | none => stop .invalid
    | some ipa => do
      mapLeaf io place ipa
      mapLeaves resolve rest

/-- `AppleAgxMemoryMarkGpuMapped` for context 0. -/
def markGpuMapped (object : MemoryObject) (gpuVirtualAddress : U64) : Option MemoryObject :=
  if gpuVirtualAddress = 0 ∨ gpuVirtualAddress &&& 0x3fff ≠ 0 ∨ object.state ≠ .prepared then none
  else some { object with context := 0, gpuVirtualAddress := gpuVirtualAddress, state := .gpuMapped }

/-- `AppleAgxMemoryMarkGpuUnmapped`. -/
def markGpuUnmapped (object : MemoryObject) : Option MemoryObject :=
  if object.state ≠ .gpuMapped ∧ object.state ≠ .completed then none
  else some { object with context := 0, gpuVirtualAddress := 0, submittedFence := 0, state := .prepared }

/-- The objects after marking all of a list, or up to the first that is refused. -/
def markAll : List (Nat × U64) → List MemoryObject → List MemoryObject × Bool
  | [], objects => (objects,true)
  | (place,gpuVirtualAddress) :: rest, objects =>
    match objects[place]?.bind (markGpuMapped · gpuVirtualAddress) with
    | none => (objects,false)
    | some object => markAll rest (objects.set place object)

/-- The objects after the loop of `AppleAgxContext0BrokerRetire`. -/
def unmarkAll : List Mapping → List MemoryObject → List MemoryObject × Bool
  | [], objects => (objects,true)
  | mapping :: rest, objects =>
    match objects[mapping.object]? with
    | none => unmarkAll rest objects
    | some object =>
      if object.state = .gpuMapped ∨ object.state = .completed then
        match markGpuUnmapped object with
        | none => (objects,false)
        | some object => unmarkAll rest (objects.set mapping.object object)
      else unmarkAll rest objects

/-- Objects marked in the journal's graph; the call stops where one is refused. -/
def mark (marks : Graph → List MemoryObject × Bool) (failure : Failure) : Op PUnit := do
  let world ← current
  match world.journal.graph with
  | none => pure ⟨⟩
  | some graph =>
    setGraph (fun graph => { graph with objects := (marks graph).1 })
    stopIf ((marks graph).2 = false) failure

def brokerMap (graph : Graph) (resolve : Nat → U64 → Option U64) (epoch root : U64) : Op PUnit := do
  let world ← current
  stopIf (world.journal.leaves ≠ [] ∨ world.journal.uncertain = true ∨ epoch = 0 ∨ root = 0 ∨ root &&& 0x3fff ≠ 0 ∨
    ¬ GraphValid graph) .invalid
  setJournal (fun journal => { journal with graph := some graph, epoch := epoch, root := root })
  mapLeaves io resolve (places graph)
  mark (fun graph => markAll graph.channelMemory graph.objects) .invalid
  mark (fun graph => markAll graph.renderSharedMemory graph.objects) .invalid
  setGraph (fun graph => { graph with mappingsReady := true })

def verifyLeaves : List Leaf → Op PUnit
  | [] => pure ⟨⟩
  | leaf :: rest => do
    stopIf (leaf.state ≠ .mapped) .queryFailed
    queryLeaf io leaf
    verifyLeaves rest

def brokerVerify : Op PUnit := do
  let world ← current
  match world.journal.graph with
  | none => stop .invalid
  | some graph =>
    stopIf (graph.mappingsReady = false ∨ world.journal.uncertain = true ∨ graphLeafCount graph = 0 ∨
      world.journal.leaves.length ≠ graphLeafCount graph) .invalid
    verifyLeaves io world.journal.leaves

def unmapLeaf (leaf : Leaf) (others : List Leaf) : Op PUnit := do
  let asked ← exchange io commandUnmap leaf
  stopIf (¬ asked.Counts others.length) .retireFailed
  setJournal (fun journal => { journal with leaves := others ++ [{ leaf with state := .unmapped }] })

def verifyAbsent (leaf : Leaf) (others : List Leaf) : Op PUnit := do
  let asked ← exchange io commandVerifyAbsent leaf
  stopIf (¬ asked.Counts others.length) .retireFailed
  setJournal (fun journal => { journal with
    leaves := others
    graph := journal.graph.map (fun graph => { graph with brokerOutstanding := graph.brokerOutstanding - 1 }) })

/-- The last leaf of the journal, with the ones before it. -/
def retireLeaf (leaf : Leaf) (others : List Leaf) : Op PUnit := do
  if leaf.state = .mapped then unmapLeaf io leaf others else pure ⟨⟩
  verifyAbsent io leaf others

def retireLeaves : (count : Nat) → Op PUnit
  | 0 => pure ⟨⟩
  | count+1 => do
    let world ← current
    match world.journal.leaves.getLast? with
    | none => pure ⟨⟩
    | some leaf =>
      retireLeaf io leaf world.journal.leaves.dropLast
      retireLeaves count

def brokerRetire : Op PUnit := do
  let world ← current
  stopIf (world.journal.uncertain = true) .retireFailed
  match world.journal.graph with
  | none => stopIf (world.journal.leaves ≠ []) .retireFailed
  | some _ =>
    retireLeaves io world.journal.leaves.length
    mark (fun graph => unmarkAll graph.mappings graph.objects) .retireFailed
    setGraph (fun graph => { graph with mappingsReady := false })

inductive Call
  | map (graph : Graph) (resolve : Nat → U64 → Option U64) (epoch root : U64)
  | verify
  | retire
def act : Call → Op PUnit
  | .map graph resolve epoch root => brokerMap io graph resolve epoch root
  | .verify => brokerVerify io
  | .retire => brokerRetire io
def runCalls (calls : List Call) (world : World) : World := calls.foldl (fun world call => (act io call world).2) world

end

def fresh : World := ⟨⟨none,0,0,false,[]⟩,[]⟩

end WindowsOnM1.Context0
