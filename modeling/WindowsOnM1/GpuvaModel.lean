import Mathlib.Data.BitVec
import WindowsOnM1.DrainLoop

/-!
The GPU-VA shadow graph of `apple_agx_gpuva_g3_graph.c`. A linked list is the list of its
nodes from the head on; a pointer is the serial number that its node got when it was
linked, so that a pointer to a removed node finds nothing. What the allocator and the
broker answer is read from an environment, and the graph keeps the requests that it sent.
-/
namespace WindowsOnM1.GpuvaModel
open DrainLoop

abbrev U32 := BitVec 32
abbrev U64 := BitVec 64

/-- `G3_PAGE - 1`. -/
abbrev pageMask : U64 := 0x3fff
abbrev maxU64 : U64 := ~~~0

/-- `APPLE_AGX_GPUVA_G3_RETAINED_LOCAL`. -/
abbrev retainedLocalLimit : U32 := 4096

inductive BackingKind
  | Local
  | System
  | Private
  /-- A value outside the enumeration. -/
  | Other (value : U32)
deriving DecidableEq

/-- The commands of the broker that the graph sends. -/
inductive Command
  | Create
  | RegisterTable
  | RegisterBacking
  | UpdateParent
  | UpdateLeaf
  | RelocateRoot
  | Lease
  | JobBegin
  | JobEnd
  | Release
  | Destroy
  | RevokeBacking
  | RevokeTable
  | RegisterSharedBacking
  | FlushTlb
deriving DecidableEq

/-- `AGX_GPUVA_V5_REQUEST`, without the fields that the client fills in. -/
structure Request where
  command : Command
  flags : U32 := 0
  processId : U64 := 0
  processGeneration : U64 := 0
  tableIpa : U64 := 0
  auxIpa : U64 := 0
  allocationGeneration : U64 := 0
  logicalIpa : Fin 4 → U64 := fun _ => 0
  token : U64 := 0
  slot : Nat := 0
  index : Nat := 0
  validMask : U32 := 0
  writableMask : U32 := 0

/-- The fields of `AGX_GPUVA_V5_RESPONSE` that the graph reads. -/
structure Response where
  status : U32
  flags : U32
  token : U64
deriving DecidableEq

/-- `APPLE_AGX_GPUVA_G3_NODE`: a table, an edge to a table, a leaf or a backing. -/
structure GpuvaNode where
  id : Nat
  ipa : U64
  auxIpa : U64 := 0
  generation : U64 := 0
  index : Nat := 0
  level : Nat := 0
  references : U32 := 0
  writable : Bool := false
  retained : Bool := false
  frame : Option Nat := none
  kind : BackingKind := .Local
  slots : Nat → Option Nat := fun _ => none
  childTable : Option Nat := none

/-- `APPLE_AGX_GPUVA_G3_FRAME`. -/
structure GpuvaFrame where
  id : Nat
  ipa : U64
  generation : U64
  mappings : U64 := 0
  grants : U64 := 0
deriving DecidableEq

/-- `APPLE_AGX_GPUVA_G3_REGISTRY`, with the number of frames that were linked. -/
structure GpuvaRegistry where
  frames : List GpuvaFrame
  nextGeneration : U64
  frameBuckets : Nat → List Nat
  linked : Nat

/-- `APPLE_AGX_GPUVA_G3_GRAPH`. `registered` says that it has a registry; the last three
    fields count the nodes that were linked and the allocations that were asked for, and
    hold the requests that were sent with what came back, the oldest first. -/
structure GpuvaGraph where
  processId : U64
  processGeneration : U64
  sharedBackingGeneration : U64
  registered : Bool
  rootIpa : U64
  nextGeneration : U64
  mappingGeneration : U64
  leaseToken : U64
  tables : List GpuvaNode
  parents : List GpuvaNode
  leaves : List GpuvaNode
  backings : List GpuvaNode
  rootTable : Option Nat
  lastStatus : U32
  created : Bool
  uncertain : Bool
  jobInFlight : Bool
  slot : Nat
  tableHint : Option Nat
  attachFailure : Nat
  retainedLocal : U32
  spareNode : Bool
  backingBuckets : Nat → List Nat
  linked : Nat
  allocations : Nat
  calls : List (Request × Option Response)

/-- What the allocator and the client of a graph answer in turn; a call of the client that fails has no response. -/
structure GpuvaEnv where
  allocate : Nat → Bool
  clientCall : Nat → Option Response

/-- A graph with the registry that it shares. -/
structure GpuvaState where
  graph : GpuvaGraph
  registry : GpuvaRegistry

/-- One call of `Allocate`. -/
def allocate (env : GpuvaEnv) (graph : GpuvaGraph) : Bool × GpuvaGraph :=
  (env.allocate graph.allocations,{ graph with allocations := graph.allocations + 1 })

/-- `node`: whether there is memory for a node. -/
def node (env : GpuvaEnv) (graph : GpuvaGraph) : Bool × GpuvaGraph :=
  match allocate env graph with
  | (true,asked) => (true,asked)
  | (false,asked) => (asked.spareNode,{ asked with spareNode := false })

/-- `AppleAgxGpuvaG3GraphReserveNode`. -/
def reserveNode (env : GpuvaEnv) (graph : GpuvaGraph) : Bool × GpuvaGraph :=
  if graph.spareNode then (true,graph)
  else match allocate env graph with
    | (held,asked) => (held,{ asked with spareNode := held })

def bucket (ipa : U64) : Nat := ((ipa >>> 14) * 0x9e3779b97f4a7c15 >>> 52).toNat

/-- The node that a pointer refers to. -/
def nodeAt (nodes : List GpuvaNode) (id : Nat) : Option GpuvaNode := nodes.find? (fun item => item.id == id)

/-- `slot`. -/
def slot (table : Option GpuvaNode) (index : Nat) : Option Nat := table.bind (fun table => table.slots index)

/-- `call_with_response`, with the response of an acknowledged request. -/
def callWithResponse (env : GpuvaEnv) (request : Request) (graph : GpuvaGraph) : Option Response × GpuvaGraph :=
  if graph.uncertain then (none,graph)
  else
    let sent := { request with processId := graph.processId, processGeneration := graph.processGeneration }
    match env.clientCall graph.calls.length with
    | none => (none,{ graph with
        calls := graph.calls ++ [(sent,none)], lastStatus := ~~~0, uncertain := true })
    | some response =>
      let answered := { graph with
        calls := graph.calls ++ [(sent,some response)], lastStatus := response.status
        uncertain := response.flags != 0 || response.status == 5 || response.status == 6 }
      (if response.status = 0 ∧ response.flags = 0 then some response else none,answered)

/-- `call`. -/
def call (env : GpuvaEnv) (request : Request) (graph : GpuvaGraph) : Bool × GpuvaGraph :=
  match callWithResponse env request graph with
  | (response,left) => (response.isSome,left)

/-- `find_table`, which remembers what it found. -/
def findTable (ipa : U64) (level : Nat) (graph : GpuvaGraph) : Option GpuvaNode × GpuvaGraph :=
  match (graph.tableHint.bind (nodeAt graph.tables)).filter (fun item => item.ipa == ipa && item.level == level) with
  | some item => (some item,graph)
  | none =>
    match graph.tables.find? (fun item => item.ipa == ipa && item.level == level) with
    | some item => (some item,{ graph with tableHint := some item.id })
    | none => (none,graph)

/-- `find_edge`. -/
def findEdge (edges : List GpuvaNode) (ipa : U64) (index : Nat) : Option GpuvaNode :=
  edges.find? (fun edge => edge.ipa == ipa && edge.index == index)

/-- `find_backing`. -/
def findBacking (graph : GpuvaGraph) (ipa : U64) : Option GpuvaNode :=
  ((graph.backingBuckets (bucket ipa)).filterMap (nodeAt graph.backings)).find? (fun item => item.ipa == ipa)

/-- A list without the node that a pointer refers to. -/
def without (nodes : List GpuvaNode) (id : Nat) : List GpuvaNode := nodes.filter (fun item => item.id != id)

/-- The hint after the removal of a node. -/
def hintWithout (graph : GpuvaGraph) (id : Nat) : Option Nat :=
  if graph.tableHint = some id then none else graph.tableHint

/-- A list in which the node of a pointer is changed. -/
def modifyNode (nodes : List GpuvaNode) (id : Nat) (change : GpuvaNode → GpuvaNode) : List GpuvaNode :=
  nodes.map (fun item => if item.id = id then change item else item)

/-- `table->Slots[index] = target`. -/
def setSlot (tables : List GpuvaNode) (id index : Nat) (target : Option Nat) : List GpuvaNode :=
  modifyNode tables id (fun table => { table with slots := Function.update table.slots index target })

/-- `find_frame`. -/
def findFrame (graph : GpuvaGraph) (registry : GpuvaRegistry) (ipa : U64) : Option GpuvaFrame :=
  if ¬ graph.registered then none
  else ((registry.frameBuckets (bucket ipa)).filterMap
    (fun id => registry.frames.find? (fun frame => frame.id == id))).find? (fun frame => frame.ipa == ipa)

def modifyFrame (registry : GpuvaRegistry) (id : Nat) (change : GpuvaFrame → GpuvaFrame) : GpuvaRegistry :=
  { registry with frames := registry.frames.map (fun frame => if frame.id = id then change frame else frame) }

/-- `release_frame`. -/
def releaseFrame (id : Nat) (registry : GpuvaRegistry) : GpuvaRegistry :=
  match registry.frames.find? (fun frame => frame.id == id) with
  | none => registry
  | some frame =>
    if frame.mappings ≠ 0 ∨ frame.grants ≠ 0 then registry
    else { registry with
      frames := registry.frames.filter (fun other => other.id != id)
      frameBuckets := Function.update registry.frameBuckets (bucket frame.ipa)
        ((registry.frameBuckets (bucket frame.ipa)).erase id) }

def addMapping (frame : GpuvaFrame) (state : GpuvaState) : Bool × GpuvaState :=
  if frame.mappings = maxU64 then (false,state)
  else (true,{ state with
    registry := modifyFrame state.registry frame.id (fun frame => { frame with mappings := frame.mappings + 1 }) })

/-- `AppleAgxGpuvaG3MappingAcquire`. -/
def mappingAcquire (env : GpuvaEnv) (ipa : U64) (state : GpuvaState) : Bool × GpuvaState :=
  if ¬ state.graph.registered ∨ ipa = 0 ∨ ipa &&& 0xfff ≠ 0 ∨ maxU64 - 0xfff < ipa ∨ state.graph.uncertain then (false,state)
  else
    let page := ipa &&& ~~~pageMask
    match findFrame state.graph state.registry page with
    | some frame => addMapping frame state
    | none =>
      if state.registry.nextGeneration = maxU64 then (false,state)
      else match allocate env state.graph with
        | (false,asked) => (false,{ state with graph := asked })
        | (true,asked) =>
          let frame : GpuvaFrame := { id := state.registry.linked, ipa := page
                                      generation := state.registry.nextGeneration + 1 }
          addMapping frame ⟨asked,{
            frames := frame :: state.registry.frames
            nextGeneration := state.registry.nextGeneration + 1
            frameBuckets := Function.update state.registry.frameBuckets (bucket page)
              (frame.id :: state.registry.frameBuckets (bucket page))
            linked := state.registry.linked + 1 }⟩

/-- `AppleAgxGpuvaG3MappingRelease`. -/
def mappingRelease (ipa : U64) (state : GpuvaState) : GpuvaState :=
  match findFrame state.graph state.registry (ipa &&& ~~~pageMask) with
  | none => { state with graph := { state.graph with uncertain := true } }
  | some frame =>
    if frame.mappings = 0 then { state with graph := { state.graph with uncertain := true } }
    else { state with
      registry := releaseFrame frame.id
        (modifyFrame state.registry frame.id (fun frame => { frame with mappings := frame.mappings - 1 })) }

/-- `release_grant`. -/
def releaseGrant (backing : GpuvaNode) (state : GpuvaState) : GpuvaState :=
  { graph := { state.graph with
      retainedLocal := if backing.retained then state.graph.retainedLocal - 1 else state.graph.retainedLocal
      backingBuckets := Function.update state.graph.backingBuckets (bucket backing.ipa)
        ((state.graph.backingBuckets (bucket backing.ipa)).erase backing.id)
      backings := without state.graph.backings backing.id
      tableHint := hintWithout state.graph backing.id }
    registry := match backing.frame with
      | none => state.registry
      | some frame => releaseFrame frame
          (modifyFrame state.registry frame (fun frame => { frame with grants := frame.grants - 1 })) }

/-- `reuse_backing` and the reference that follows it. -/
def addReference (backing : GpuvaNode) (graph : GpuvaGraph) : GpuvaGraph :=
  { graph with
    retainedLocal := if backing.retained then graph.retainedLocal - 1 else graph.retainedLocal
    backings := modifyNode graph.backings backing.id
      (fun item => { item with retained := false, references := item.references + 1 }) }

def dropReference (backing : GpuvaNode) (graph : GpuvaGraph) : GpuvaGraph :=
  { graph with
    backings := modifyNode graph.backings backing.id (fun item => { item with references := item.references - 1 }) }

/-- The request that revokes a backing. -/
def revokeRequest (backing : GpuvaNode) : Request :=
  { command := .RevokeBacking, auxIpa := backing.ipa, allocationGeneration := backing.generation }

/-- A backing without references that is kept. -/
def keepable (graph : GpuvaGraph) (backing : GpuvaNode) : Bool :=
  backing.kind == .Local && backing.frame.isNone && graph.sharedBackingGeneration != 0 &&
    backing.generation == graph.sharedBackingGeneration

/-- `revoke_unused_backing`. -/
def revokeUnusedBacking (env : GpuvaEnv) (id : Nat) (state : GpuvaState) : Bool × GpuvaState :=
  match nodeAt state.graph.backings id with
  | none => (true,state)
  | some backing =>
    if backing.references ≠ 0 then (true,state)
    else if keepable state.graph backing && backing.retained then (true,state)
    else if keepable state.graph backing && state.graph.retainedLocal < retainedLocalLimit then
      (true,{ state with graph := { state.graph with
        backings := modifyNode state.graph.backings id (fun item => { item with retained := true })
        retainedLocal := state.graph.retainedLocal + 1 } })
    else match call env (revokeRequest backing) state.graph with
      | (false,left) => (false,{ state with graph := { left with uncertain := true } })
      | (true,left) => (true,releaseGrant backing { state with graph := left })

/-- `AppleAgxGpuvaG3GraphCreate`. -/
def create (env : GpuvaEnv) (rootIpa : U64) (paging : Bool) (graph : GpuvaGraph) : Bool × GpuvaGraph :=
  if graph.created ∨ rootIpa = 0 ∨ rootIpa &&& pageMask ≠ 0 ∨ graph.uncertain then (false,graph)
  else match node env graph with
    | (false,left) => (false,left)
    | (true,left) =>
      match allocate env left with
      | (false,left) => (false,left)
      | (true,left) =>
        match call env { command := .Create, tableIpa := rootIpa, flags := if paging then 1 else 0 } left with
        | (false,left) => (false,left)
        | (true,left) => (true,{ left with
            tables := { id := left.linked, ipa := rootIpa } :: left.tables
            linked := left.linked + 1
            rootTable := some left.linked
            rootIpa := rootIpa
            created := true })

/-- `reachable`, which looks `depth` edges up. -/
def reachable (graph : GpuvaGraph) : (depth : Nat) → (ipa : U64) → Bool
  | 0, ipa => ipa == graph.rootIpa
  | depth+1, ipa =>
    ipa == graph.rootIpa ||
      graph.parents.any (fun edge => edge.auxIpa == ipa && reachable graph depth edge.ipa)

/-- The table of an edge: of level 0, else of level 1. -/
def findParent (ipa : U64) (graph : GpuvaGraph) : Option GpuvaNode × GpuvaGraph :=
  match findTable ipa 0 graph with
  | (some parent,found) => (some parent,found)
  | (none,found) => findTable ipa 1 found

def entryCount (level : Nat) : Nat := if level = 0 then 8 else 2048

/-- The request that stores an entry of a table. -/
def parentRequest (tableIpa : U64) (index : Nat) (childIpa : U64) : Request :=
  { command := .UpdateParent, tableIpa := tableIpa, index := index, auxIpa := childIpa }

/-- A new edge from a table to its child. -/
def linkChild (parent child : GpuvaNode) (index : Nat) (graph : GpuvaGraph) : GpuvaGraph :=
  { graph with
    parents := { id := graph.linked, ipa := parent.ipa, auxIpa := child.ipa, index := index
                 childTable := some child.id } :: graph.parents
    tables := setSlot graph.tables parent.id index (some graph.linked)
    linked := graph.linked + 1 }

/-- An edge that leads to another child. -/
def relinkChild (edge child : GpuvaNode) (graph : GpuvaGraph) : GpuvaGraph :=
  { graph with
    parents := modifyNode graph.parents edge.id
      (fun item => { item with auxIpa := child.ipa, childTable := some child.id }) }

def unlinkChild (parent edge : GpuvaNode) (index : Nat) (graph : GpuvaGraph) : GpuvaGraph :=
  { graph with
    tables := setSlot graph.tables parent.id index none
    parents := without graph.parents edge.id
    tableHint := hintWithout graph edge.id }

/-- `++graph->MappingGeneration`. -/
def countMapping (graph : GpuvaGraph) : GpuvaGraph := { graph with mappingGeneration := graph.mappingGeneration + 1 }

/-- `AppleAgxGpuvaG3GraphUpdateParent`. -/
def updateParent (env : GpuvaEnv) (tableIpa : U64) (index : Nat) (childIpa : U64) (graph : GpuvaGraph) :
    Bool × GpuvaGraph :=
  if ¬ graph.created ∨ graph.uncertain then (false,graph)
  else if graph.jobInFlight ∨ graph.mappingGeneration = maxU64 then (false,graph)
  else match findParent tableIpa graph with
    | (none,graph) => (false,graph)
    | (some parent,graph) =>
      if childIpa = 0 then
        if entryCount parent.level ≤ index then (false,graph)
        else match findEdge graph.parents tableIpa index with
          | none => (true,graph)
          | some edge =>
            match call env (parentRequest tableIpa index 0) graph with
            | (false,left) => (false,left)
            | (true,left) => (true,countMapping (unlinkChild parent edge index left))
      else match findTable childIpa (parent.level + 1) graph with
        | (none,graph) => (false,graph)
        | (some child,graph) =>
          if entryCount parent.level ≤ index then (false,graph)
          else match findEdge graph.parents tableIpa index with
            | some edge =>
              if edge.auxIpa = childIpa then (true,graph)
              else match call env (parentRequest tableIpa index childIpa) graph with
                | (false,left) => (false,left)
                | (true,left) => (true,countMapping (relinkChild edge child left))
            | none =>
              match node env graph with
              | (false,left) => (false,left)
              | (true,left) =>
                match call env (parentRequest tableIpa index childIpa) left with
                | (false,left) => (false,left)
                | (true,left) => (true,countMapping (linkChild parent child index left))

def relocateRoot (ipa : U64) (graph : GpuvaGraph) : GpuvaGraph :=
  match findTable ipa 0 { graph with rootIpa := ipa } with
  | (table,found) => countMapping { found with rootTable := table.map (fun table => table.id) }

/-- `AppleAgxGpuvaG3GraphBindRoot`. -/
def bindRoot (env : GpuvaEnv) (ipa : U64) (graph : GpuvaGraph) : Bool × GpuvaGraph :=
  if ¬ graph.created ∨ graph.uncertain then (false,graph)
  else match findTable ipa 0 graph with
    | (none,graph) => (false,graph)
    | (some _,graph) =>
      if graph.mappingGeneration = maxU64 then (false,graph)
      else if graph.rootIpa = ipa then (true,graph)
      else match call env { command := .RelocateRoot, tableIpa := ipa } graph with
        | (false,left) => (false,left)
        | (true,left) => (true,relocateRoot ipa left)

structure LeafTarget where
  guestIpa : U64
  writable : Bool
  kind : BackingKind
deriving DecidableEq

/-- The request that registers a backing. -/
def grantRequest (graph : GpuvaGraph) (backing : GpuvaNode) : Request :=
  { command := if backing.kind ≠ .Private ∧ (backing.frame.isSome ∨ graph.sharedBackingGeneration ≠ 0)
      then .RegisterSharedBacking else .RegisterBacking
    auxIpa := backing.ipa
    allocationGeneration := backing.generation }

def linkBacking (backing : GpuvaNode) (state : GpuvaState) : GpuvaState :=
  { graph := { state.graph with
      backings := { backing with id := state.graph.linked } :: state.graph.backings
      backingBuckets := Function.update state.graph.backingBuckets (bucket backing.ipa)
        (state.graph.linked :: state.graph.backingBuckets (bucket backing.ipa))
      linked := state.graph.linked + 1 }
    registry := match backing.frame with
      | none => state.registry
      | some frame => modifyFrame state.registry frame (fun frame => { frame with grants := frame.grants + 1 }) }

/-- The node of a new backing, with the graph whose generation it may have taken. -/
def newBacking (target : LeafTarget) (frame : Option GpuvaFrame) (graph : GpuvaGraph) : GpuvaNode × GpuvaGraph :=
  let shared := target.kind ≠ .Private ∧ graph.sharedBackingGeneration ≠ 0
  let counted := if shared then graph else { graph with nextGeneration := graph.nextGeneration + 1 }
  ({ id := 0, ipa := target.guestIpa, kind := target.kind, frame := frame.map (fun frame => frame.id)
     generation := match frame with
       | some frame => frame.generation
       | none => if shared then graph.sharedBackingGeneration else counted.nextGeneration },counted)

/-- The registration of a new backing. A failure says whether the page is unavailable. -/
def grantBacking (env : GpuvaEnv) (backing : GpuvaNode) (state : GpuvaState) : Except Bool (Nat × Bool) × GpuvaState :=
  match call env (grantRequest state.graph backing) state.graph with
  | (false,left) =>
    (.error (backing.kind == .System && !left.uncertain && (left.lastStatus == 4 || left.lastStatus == 7)),
      { state with graph := left })
  | (true,left) => (.ok (left.linked,true),linkBacking backing { state with graph := left })

/-- The part of `AppleAgxGpuvaG3GraphTryLeafBacking` that finds or registers the backing of
    a page. A success names the backing and says whether it is new. -/
def obtainBacking (env : GpuvaEnv) (target : LeafTarget) (state : GpuvaState) :
    Except Bool (Nat × Bool) × GpuvaState :=
  match findBacking state.graph target.guestIpa with
  | some backing => if backing.kind ≠ target.kind then (.error false,state) else (.ok (backing.id,false),state)
  | none =>
    match node env state.graph with
    | (false,left) => (.error false,{ state with graph := left })
    | (true,left) =>
      let frame := if target.kind = .System then findFrame left state.registry target.guestIpa else none
      if target.kind = .System ∧ frame.all (fun frame => frame.mappings == 0 || frame.grants == maxU64) then
        (.error false,{ state with graph := left })
      else if target.kind = .Private ∧ left.nextGeneration = maxU64 then (.error false,{ state with graph := left })
      else match newBacking target frame left with
        | (backing,counted) => grantBacking env backing { state with graph := counted }

/-- The request that stores a leaf; without a target it clears it. -/
def leafRequest (tableIpa : U64) (index : Nat) (target : Option (LeafTarget × U64)) : Request :=
  match target with
  | none => { command := .UpdateLeaf, tableIpa := tableIpa, index := index, flags := 15 }
  | some (target,generation) =>
    { command := .UpdateLeaf, tableIpa := tableIpa, index := index, flags := 15
      allocationGeneration := generation, validMask := 15, writableMask := if target.writable then 15 else 0
      logicalIpa := fun i => target.guestIpa + BitVec.ofNat 64 (i.val * 0x1000) }

/-- What a refused leaf store leaves: a backing that is new is revoked again. -/
def withdrawBacking (env : GpuvaEnv) (backing : GpuvaNode) (new : Bool) (state : GpuvaState) : GpuvaState :=
  let rejectedStatus := state.graph.lastStatus
  let left :=
    if ¬ new then state
    else match call env (revokeRequest backing) state.graph with
      | (false,left) => { state with graph := { left with uncertain := true } }
      | (true,left) => releaseGrant backing { state with graph := left }
  { left with graph := { left.graph with lastStatus := rejectedStatus } }

def unlinkLeaf (table leaf : GpuvaNode) (index : Nat) (graph : GpuvaGraph) : GpuvaGraph :=
  { graph with
    tables := setSlot graph.tables table.id index none
    leaves := without graph.leaves leaf.id
    tableHint := hintWithout graph leaf.id }

def linkLeaf (table backing : GpuvaNode) (index : Nat) (target : LeafTarget) (graph : GpuvaGraph) : GpuvaGraph :=
  { graph with
    leaves := { id := graph.linked, ipa := table.ipa, auxIpa := target.guestIpa, kind := target.kind
                generation := backing.generation, index := index, writable := target.writable } :: graph.leaves
    tables := setSlot graph.tables table.id index (some graph.linked)
    linked := graph.linked + 1 }

/-- A leaf that leads to another page or with another right. -/
def relinkLeaf (leaf backing : GpuvaNode) (target : LeafTarget) (graph : GpuvaGraph) : GpuvaGraph :=
  { graph with
    leaves := modifyNode graph.leaves leaf.id (fun item => { item with
      auxIpa := target.guestIpa, kind := target.kind, generation := backing.generation
      writable := target.writable }) }

def countMappingOf (state : GpuvaState) : GpuvaState := { state with graph := countMapping state.graph }

/-- The clearing of a leaf in `AppleAgxGpuvaG3GraphTryLeafBacking`. -/
def clearLeaf (env : GpuvaEnv) (table leaf : GpuvaNode) (index : Nat) (state : GpuvaState) : Bool × GpuvaState :=
  match findBacking state.graph leaf.auxIpa with
  | none => (false,state)
  | some backing =>
    if backing.references = 0 then (false,state)
    else match call env (leafRequest table.ipa index none) state.graph with
      | (false,left) => (false,{ state with graph := left })
      | (true,left) =>
        match revokeUnusedBacking env backing.id
          { state with graph := dropReference backing (unlinkLeaf table leaf index left) } with
        | (false,left) => (false,left)
        | (true,left) => (true,countMappingOf left)

/-- The store of a new leaf with its backing. -/
def storeNewLeaf (env : GpuvaEnv) (table : GpuvaNode) (index : Nat) (target : LeafTarget) (id : Nat) (new : Bool)
    (state : GpuvaState) : Bool × GpuvaState :=
  match nodeAt state.graph.backings id with
  | none => (false,state)
  | some backing =>
    match call env (leafRequest table.ipa index (some (target,backing.generation))) state.graph with
    | (false,left) => (false,withdrawBacking env backing new { state with graph := left })
    | (true,left) =>
      (true,countMappingOf { state with graph := addReference backing (linkLeaf table backing index target left) })

/-- The store of another page or right in a leaf. -/
def storeLeaf (env : GpuvaEnv) (table leaf oldBacking : GpuvaNode) (index : Nat) (target : LeafTarget) (id : Nat)
    (new : Bool) (state : GpuvaState) : Bool × GpuvaState :=
  match nodeAt state.graph.backings id with
  | none => (false,state)
  | some backing =>
    match call env (leafRequest table.ipa index (some (target,backing.generation))) state.graph with
    | (false,left) => (false,withdrawBacking env backing new { state with graph := left })
    | (true,left) =>
      if oldBacking.id = backing.id then
        (true,countMappingOf { state with graph := relinkLeaf leaf backing target left })
      else match revokeUnusedBacking env oldBacking.id { state with
          graph := relinkLeaf leaf backing target (addReference backing (dropReference oldBacking left)) } with
        | (false,left) => (false,left)
        | (true,left) => (true,countMappingOf left)

/-- `AppleAgxGpuvaG3GraphTryLeafBacking`, with its result and whether the page is unavailable. -/
def tryLeafBacking (env : GpuvaEnv) (tableIpa : U64) (index : Nat) (target : LeafTarget) (state : GpuvaState) :
    (Bool × Bool) × GpuvaState :=
  if ¬ state.graph.created ∨ state.graph.uncertain ∨ state.graph.jobInFlight ∨ state.graph.mappingGeneration = maxU64 ∨
      (target.kind ≠ .Local ∧ target.kind ≠ .System ∧ target.kind ≠ .Private) then ((false,false),state)
  else match findTable tableIpa 2 state.graph with
    | (none,graph) => ((false,false),{ state with graph := graph })
    | (some table,graph) =>
      let found := { state with graph := graph }
      if 2048 ≤ index ∨ target.guestIpa &&& pageMask ≠ 0 then ((false,false),found)
      else match (table.slots index).bind (nodeAt graph.leaves) with
        | some leaf =>
          if target.guestIpa = 0 then
            match clearLeaf env table leaf index found with
            | (done,left) => ((done,false),left)
          else if leaf.auxIpa = target.guestIpa ∧ leaf.writable = target.writable ∧ leaf.kind = target.kind then
            ((true,false),found)
          else match findBacking graph leaf.auxIpa with
            | none => ((false,false),found)
            | some oldBacking =>
              if oldBacking.references = 0 then ((false,false),found)
              else match obtainBacking env target found with
                | (.error unavailable,left) => ((false,unavailable),left)
                | (.ok (id,new),left) =>
                  match storeLeaf env table leaf oldBacking index target id new left with
                  | (done,left) => ((done,false),left)
        | none =>
          if target.guestIpa = 0 then ((true,false),found)
          else match node env graph with
            | (false,graph) => ((false,false),{ found with graph := graph })
            | (true,graph) =>
              match obtainBacking env target { found with graph := graph } with
              | (.error unavailable,left) => ((false,unavailable),left)
              | (.ok (id,new),left) =>
                match storeNewLeaf env table index target id new left with
                | (done,left) => ((done,false),left)

/-- `AppleAgxGpuvaG3GraphUpdateLeaf`, where only the clearing of a leaf is used. -/
def updateLeaf (env : GpuvaEnv) (tableIpa : U64) (index : Nat) (guestIpa : U64) (writable : Bool) (state : GpuvaState) :
    Bool × GpuvaState :=
  match tryLeafBacking env tableIpa index ⟨guestIpa,writable,.Local⟩ state with
  | ((done,_),left) => (done,left)

/-- An operation on the graph of a state. -/
def onGraph (operation : GpuvaGraph → Bool × GpuvaGraph) (state : GpuvaState) : Bool × GpuvaState :=
  match operation state.graph with
  | (done,graph) => (done,{ state with graph := graph })

/-- The first loop of `retire_table`: stale links to the table are cleared. The edges bound its turns. -/
def clearLinks (env : GpuvaEnv) (ipa : U64) : (turns : Nat) → GpuvaGraph → Bool × GpuvaGraph :=
  drain (fun graph => graph.parents.find? (fun edge => edge.auxIpa == ipa))
    (fun edge graph =>
      if reachable graph 4 edge.ipa then (false,graph) else updateParent env edge.ipa edge.index 0 graph)

/-- The loop of `retire_table` over the leaves of the table. -/
def clearLeaves (env : GpuvaEnv) (ipa : U64) : (turns : Nat) → GpuvaState → Bool × GpuvaState :=
  drain (fun state => state.graph.leaves.find? (fun leaf => leaf.ipa == ipa))
    (fun leaf => updateLeaf env ipa leaf.index 0 false)

/-- The loop of `retire_table` over the edges of the table. -/
def clearEdges (env : GpuvaEnv) (ipa : U64) : (turns : Nat) → GpuvaGraph → Bool × GpuvaGraph :=
  drain (fun graph => graph.parents.find? (fun edge => edge.ipa == ipa))
    (fun edge => updateParent env ipa edge.index 0)

/-- The second loop of `retire_table`: the entries of the table are cleared. -/
def clearEntries (env : GpuvaEnv) (table : GpuvaNode) (state : GpuvaState) : Bool × GpuvaState :=
  if table.level = 2 then clearLeaves env table.ipa state.graph.leaves.length state
  else onGraph (clearEdges env table.ipa state.graph.parents.length) state
def removeTable (table : GpuvaNode) (graph : GpuvaGraph) : GpuvaGraph :=
  { graph with tables := without graph.tables table.id, tableHint := hintWithout graph table.id }

/-- The request that revokes a table. -/
def revokeTableRequest (table : GpuvaNode) : Request :=
  { command := .RevokeTable, tableIpa := table.ipa, index := table.level }

/-- `retire_table`. -/
def retireTable (env : GpuvaEnv) (table : GpuvaNode) (state : GpuvaState) : Bool × GpuvaState :=
  if table.ipa = state.graph.rootIpa then (false,state)
  else match onGraph (clearLinks env table.ipa state.graph.parents.length) state with
    | (false,left) => (false,left)
    | (true,left) =>
      match clearEntries env table left with
      | (false,left) => (false,left)
      | (true,left) =>
        match call env (revokeTableRequest table) left.graph with
        | (false,graph) => (false,{ left with graph := graph })
        | (true,graph) => (true,{ left with graph := removeTable table graph })

def linkTable (ipa : U64) (level : Nat) (graph : GpuvaGraph) : GpuvaGraph :=
  { graph with
    tables := { id := graph.linked, ipa := ipa, level := level } :: graph.tables
    linked := graph.linked + 1 }

/-- The registration in `AppleAgxGpuvaG3GraphRegisterTable`; `replaced` says that an old table was retired for it. -/
def registerNewTable (env : GpuvaEnv) (ipa : U64) (level : Nat) (replaced : Bool) (graph : GpuvaGraph) :
    Bool × GpuvaGraph :=
  match call env { command := .RegisterTable, auxIpa := ipa, index := level } graph with
  | (false,left) => (false,if replaced then { left with uncertain := true } else left)
  | (true,left) => (true,linkTable ipa level left)

/-- `AppleAgxGpuvaG3GraphRegisterTable`. -/
def registerTable (env : GpuvaEnv) (ipa : U64) (level : Nat) (state : GpuvaState) : Bool × GpuvaState :=
  if ¬ state.graph.created ∨ state.graph.uncertain ∨ ipa = 0 ∨ ipa &&& pageMask ≠ 0 ∨ 2 < level then (false,state)
  else
    let existing := state.graph.tables.find? (fun table => table.ipa == ipa)
    if existing.any (fun table => table.level == level) then (true,state)
    else match node env state.graph with
      | (false,left) => (false,{ state with graph := left })
      | (true,left) =>
        match allocate env left with
        | (false,left) => (false,{ state with graph := left })
        | (true,left) =>
          match existing with
          | none => onGraph (registerNewTable env ipa level false) { state with graph := left }
          | some table =>
            match retireTable env table { state with graph := left } with
            | (false,left) => (false,left)
            | (true,left) => onGraph (registerNewTable env ipa level true) left

/-- `AppleAgxGpuvaG3GraphFlush`. -/
def flush (env : GpuvaEnv) (startVa endVa : U64) (graph : GpuvaGraph) : Bool × GpuvaGraph :=
  if ¬ graph.created ∨ graph.uncertain then (false,graph)
  else call env { command := .FlushTlb, tableIpa := graph.rootIpa
                  logicalIpa := fun i => if i = 0 then startVa else if i = 1 then endVa else 0 } graph

/-- `AppleAgxGpuvaG3GraphLeaf`. -/
def leaf (tableIpa : U64) (index : Nat) (graph : GpuvaGraph) : Option GpuvaNode × GpuvaGraph :=
  if 2048 ≤ index then (none,graph)
  else match findTable tableIpa 2 graph with
    | (table,graph) => ((slot table index).bind (nodeAt graph.leaves),graph)

def rootIndex (va : U64) : Nat := (va >>> 36 &&& 7).toNat
def middleIndex (va : U64) : Nat := (va >>> 25 &&& 2047).toNat
def leafIndex (va : U64) : Nat := (va >>> 14 &&& 2047).toNat

/-- The table that a pointer to a table refers to. -/
def tableAt (graph : GpuvaGraph) (table : Option Nat) : Option GpuvaNode := table.bind (nodeAt graph.tables)

/-- The edge to the middle table of an address. -/
def rootEdge (graph : GpuvaGraph) (va : U64) : Option GpuvaNode :=
  (slot (tableAt graph graph.rootTable) (rootIndex va)).bind (nodeAt graph.parents)

/-- The edge to the leaf table of an address. -/
def middleEdge (graph : GpuvaGraph) (va : U64) : Option GpuvaNode :=
  (rootEdge graph va).bind (fun edge =>
    (slot (tableAt graph edge.childTable) (middleIndex va)).bind (nodeAt graph.parents))

/-- `AppleAgxGpuvaG3GraphTranslateVa`. -/
def translateVa (graph : GpuvaGraph) (va : U64) : Option U64 :=
  if ¬ graph.created ∨ graph.uncertain ∨ 1 <<< 39 ≤ va then none
  else match (middleEdge graph va).bind (fun edge =>
      (slot (tableAt graph edge.childTable) (leafIndex va)).bind (nodeAt graph.leaves)) with
    | none => none
    | some leaf => if leaf.auxIpa = 0 then none else some (leaf.auxIpa + (va &&& pageMask))

/-- `AppleAgxGpuvaG3GraphLeafTableIpa`. -/
def leafTableIpa (graph : GpuvaGraph) (va : U64) : Option U64 :=
  if ¬ graph.created ∨ graph.uncertain ∨ 1 <<< 39 ≤ va then none
  else (middleEdge graph va).map (fun edge => edge.auxIpa)

/-- The reserved address of a private leaf. -/
def privateVa (va : U64) : Bool := 1 <<< 25 ≤ va && va < 1 <<< 39 && va &&& 0x1ffffff == 0

/-- The index in the root of a reserved address. -/
def privateRootIndex (va : U64) : Nat := (va >>> 36).toNat

/-- The links of `AppleAgxGpuvaG3GraphAttachPrivate` behind its checks. -/
def attachLinks (env : GpuvaEnv) (va middle leaf : U64) (rootEdge leafEdge : Option GpuvaNode) (graph : GpuvaGraph) :
    Bool × GpuvaGraph :=
  match updateParent env middle (middleIndex va) leaf graph with
  | (false,left) => (false,{ left with attachFailure := 8 })
  | (true,linked) =>
    if rootEdge.isSome then (true,linked)
    else match updateParent env linked.rootIpa (privateRootIndex va) middle linked with
      | (true,left) => (true,left)
      | (false,left) =>
        let failed := { left with attachFailure := 9 }
        if leafEdge.isSome ∨ failed.uncertain then (false,failed)
        else match updateParent env middle (middleIndex va) 0 failed with
          | (true,left) => (false,left)
          | (false,left) => (false,{ left with uncertain := true })

/-- `AppleAgxGpuvaG3GraphAttachPrivate`. -/
def attachPrivate (env : GpuvaEnv) (va middle leaf : U64) (graph : GpuvaGraph) : Bool × GpuvaGraph :=
  if ¬ graph.created ∨ graph.uncertain then (false,{ graph with attachFailure := 1 })
  else if ¬ privateVa va then (false,{ graph with attachFailure := 4 })
  else match findTable middle 1 graph with
    | (none,graph) => (false,{ graph with attachFailure := 5 })
    | (some _,graph) =>
      match findTable leaf 2 graph with
      | (none,graph) => (false,{ graph with attachFailure := 6 })
      | (some _,found) =>
        let graph := { found with attachFailure := 0 }
        let rootEdge := findEdge graph.parents graph.rootIpa (privateRootIndex va)
        let middle := rootEdge.elim middle (fun edge => edge.auxIpa)
        let leafEdge := findEdge graph.parents middle (middleIndex va)
        if rootEdge.isSome ∧ leafEdge.any (fun edge => edge.auxIpa == leaf) then (true,graph)
        else if graph.jobInFlight then (false,{ graph with attachFailure := 2 })
        else if graph.leaseToken ≠ 0 then (false,{ graph with attachFailure := 3 })
        else if leafEdge.any (fun edge => edge.auxIpa != leaf) then (false,{ graph with attachFailure := 7 })
        else attachLinks env va middle leaf rootEdge leafEdge graph

/-- `AppleAgxGpuvaG3GraphCanDetachPrivateRoot`. -/
def canDetachPrivateRoot (va root leaf : U64) (graph : GpuvaGraph) : Bool :=
  if graph.uncertain ∨ graph.jobInFlight ∨ graph.leaseToken ≠ 0 ∨ ¬ privateVa va then false
  else match findEdge graph.parents root (privateRootIndex va) with
    | none => graph.parents.all (fun edge => edge.ipa != root)
    | some privateEdge =>
      graph.parents.all (fun edge => !(edge.ipa == root && edge.id != privateEdge.id) &&
        !(edge.ipa == privateEdge.auxIpa && (edge.index != middleIndex va || edge.auxIpa != leaf))) &&
      (findEdge graph.parents privateEdge.auxIpa (middleIndex va)).any (fun edge => edge.auxIpa == leaf)

/-- `AppleAgxGpuvaG3GraphDetachPrivateRoot`. -/
def detachPrivateRoot (env : GpuvaEnv) (va root leaf : U64) (graph : GpuvaGraph) : Bool × GpuvaGraph :=
  if ¬ canDetachPrivateRoot va root leaf graph then (false,graph)
  else updateParent env root (privateRootIndex va) 0 graph

/-- `AppleAgxGpuvaG3GraphBeginJob`. -/
def beginJob (env : GpuvaEnv) (slot : Nat) (graph : GpuvaGraph) : Bool × GpuvaGraph :=
  if ¬ graph.created ∨ graph.uncertain ∨ graph.leaseToken ≠ 0 ∨ graph.jobInFlight ∨ slot = 0 ∨ 63 ≤ slot then
    (false,graph)
  else match callWithResponse env { command := .Lease, slot := slot } graph with
    | (none,left) =>
      (false,if ¬ left.uncertain ∧ left.lastStatus = 0 then { left with uncertain := true } else left)
    | (some response,left) =>
      if response.token = 0 then
        (false,if ¬ left.uncertain ∧ left.lastStatus = 0 then { left with uncertain := true } else left)
      else match call env { command := .JobBegin, slot := slot, token := response.token }
          { left with leaseToken := response.token, slot := slot } with
        | (false,left) => (false,{ left with uncertain := true })
        | (true,left) => (true,{ left with jobInFlight := true })

/-- `AppleAgxGpuvaG3GraphEndJob`. -/
def endJob (env : GpuvaEnv) (graph : GpuvaGraph) : Bool × GpuvaGraph :=
  if ¬ graph.jobInFlight ∨ graph.leaseToken = 0 ∨ graph.uncertain then (false,graph)
  else match call env { command := .JobEnd, slot := graph.slot, token := graph.leaseToken } graph with
    | (false,left) => (false,{ left with uncertain := true })
    | (true,left) =>
      match call env { command := .Release, slot := graph.slot, token := graph.leaseToken }
          { left with jobInFlight := false } with
      | (false,left) => (false,{ left with uncertain := true })
      | (true,left) => (true,{ left with leaseToken := 0, slot := 0 })

/-- The loop over the leaves; their number bounds its turns. -/
def destroyLeaves (env : GpuvaEnv) : (turns : Nat) → GpuvaState → Bool × GpuvaState :=
  drain (fun state => state.graph.leaves.head?) (fun leaf => updateLeaf env leaf.ipa leaf.index 0 false)

/-- The revocation of one backing when no leaf is left. -/
def revokeNext (env : GpuvaEnv) (backing : GpuvaNode) (state : GpuvaState) : Bool × GpuvaState :=
  match call env (revokeRequest backing) state.graph with
  | (false,left) => (false,{ state with graph := left })
  | (true,left) => (true,releaseGrant backing { state with graph := left })

def destroyBackings (env : GpuvaEnv) : (turns : Nat) → GpuvaState → Bool × GpuvaState :=
  drain (fun state => state.graph.backings.head?) (revokeNext env)
def destroyParents (env : GpuvaEnv) : (turns : Nat) → GpuvaGraph → Bool × GpuvaGraph :=
  drain (fun graph => graph.parents.head?) (fun edge => updateParent env edge.ipa edge.index 0)

/-- The loop over the tables of a level, which goes over the tables that were there. -/
def destroyTables (env : GpuvaEnv) (level : Nat) : List GpuvaNode → GpuvaGraph → Bool × GpuvaGraph
  | [], graph => (true,graph)
  | table :: rest, graph =>
    if table.level ≠ level ∨ table.ipa = graph.rootIpa then destroyTables env level rest graph
    else match call env (revokeTableRequest table) graph with
      | (false,left) => (false,left)
      | (true,left) => destroyTables env level rest (removeTable table left)

/-- The last step: the process is destroyed and the tables that are left are freed. -/
def destroyProcess (env : GpuvaEnv) (graph : GpuvaGraph) : Bool × GpuvaGraph :=
  match call env { command := .Destroy } graph with
  | (false,left) => (false,left)
  | (true,left) => (true,{ left with
      tables := [], tableHint := none, spareNode := false, created := false, rootIpa := 0, rootTable := none })

/-- Two steps of which the second needs the first. -/
def andThen (first second : GpuvaState → Bool × GpuvaState) (state : GpuvaState) : Bool × GpuvaState :=
  match first state with
  | (false,left) => (false,left)
  | (true,left) => second left

/-- `AppleAgxGpuvaG3GraphDestroy`. -/
def destroy (env : GpuvaEnv) (state : GpuvaState) : Bool × GpuvaState :=
  if ¬ state.graph.created ∨ state.graph.uncertain ∨ state.graph.leaseToken ≠ 0 ∨ state.graph.jobInFlight then
    (false,state)
  else
    andThen (fun state => destroyLeaves env state.graph.leaves.length state)
      (andThen (fun state => destroyBackings env state.graph.backings.length state)
        (andThen (onGraph (fun graph => destroyParents env graph.parents.length graph))
          (andThen (onGraph (fun graph => destroyTables env 2 graph.tables graph))
            (andThen (onGraph (fun graph => destroyTables env 1 graph.tables graph))
              (andThen (onGraph (fun graph => destroyTables env 0 graph.tables graph))
                (onGraph (destroyProcess env))))))) state

end WindowsOnM1.GpuvaModel
