import WindowsOnM1.MemoryLedger
import WindowsOnM1.GpuvaWorld

/-!
The memory of a graph: which nodes, arrays of slots and reserved nodes it gets from
`Allocate` and gives to `Free`. A block is the number of the call of `Allocate` that
returned it. Every operation is followed along the branches that it takes on the graph;
the frames of the registry are not followed.
-/
namespace WindowsOnM1.GpuvaHeap
open MemoryLedger GpuvaModel GpuvaWorld

/-- The history of the memory, and the blocks of the nodes, of the arrays of slots of the
    tables, and of the reserved node. -/
structure Heap where
  events : List MemoryEvent
  nodeBlock : Nat → Nat
  slotBlock : Nat → Nat
  spareBlock : Nat

def heapInit : Heap := { events := [], nodeBlock := fun _ => 0, slotBlock := fun _ => 0, spareBlock := 0 }
def Heap.allocate (block : Nat) (heap : Heap) : Heap := { heap with events := heap.events ++ [.allocated block] }

/-- `Free`. -/
def Heap.free (block : Nat) (heap : Heap) : Heap := { heap with events := heap.events ++ [.freed block] }
def Heap.link (id block : Nat) (heap : Heap) : Heap := { heap with nodeBlock := Function.update heap.nodeBlock id block }

/-- A table that is linked with its slots. -/
def Heap.linkTable (id block slots : Nat) (heap : Heap) : Heap :=
  { heap with
    nodeBlock := Function.update heap.nodeBlock id block
    slotBlock := Function.update heap.slotBlock id slots }

/-- `remove_node` of a node without slots. -/
def Heap.freeNode (id : Nat) (heap : Heap) : Heap := heap.free (heap.nodeBlock id)

/-- `remove_node` of a table. -/
def Heap.freeTable (id : Nat) (heap : Heap) : Heap := (heap.free (heap.slotBlock id)).free (heap.nodeBlock id)

/-- `node`, with the block that it returns. -/
def nodeHeap (env : GpuvaEnv) (graph : GpuvaGraph) (heap : Heap) : Option Nat × Heap :=
  if env.allocate graph.allocations then (some graph.allocations,heap.allocate graph.allocations)
  else if graph.spareNode then (some heap.spareBlock,heap)
  else (none,heap)

/-- `AppleAgxGpuvaG3GraphReserveNode`. -/
def reserveNodeHeap (env : GpuvaEnv) (graph : GpuvaGraph) (heap : Heap) : Heap :=
  if graph.spareNode then heap
  else if env.allocate graph.allocations then { heap.allocate graph.allocations with spareBlock := graph.allocations }
  else heap

/-- A node with its slots, as `node` and `allocate_slots` get them. -/
def tableHeap (env : GpuvaEnv) (graph : GpuvaGraph) (heap : Heap) : Option (Nat × Nat) × Heap :=
  match nodeHeap env graph heap with
  | (none,heap) => (none,heap)
  | (some block,heap) =>
    let left := (node env graph).2
    if env.allocate left.allocations then (some (block,left.allocations),heap.allocate left.allocations)
    else (none,heap.free block)

/-- `AppleAgxGpuvaG3GraphCreate`. -/
def createHeap (env : GpuvaEnv) (rootIpa : U64) (paging : Bool) (graph : GpuvaGraph) (heap : Heap) : Heap :=
  if graph.created ∨ rootIpa = 0 ∨ rootIpa &&& pageMask ≠ 0 ∨ graph.uncertain then heap
  else match tableHeap env graph heap with
    | (none,heap) => heap
    | (some (block,slots),heap) =>
      match call env { command := .Create, tableIpa := rootIpa, flags := if paging then 1 else 0 }
          (allocate env (node env graph).2).2 with
      | (false,_) => (heap.free slots).free block
      | (true,left) => heap.linkTable left.linked block slots

/-- `AppleAgxGpuvaG3GraphUpdateParent`. -/
def updateParentHeap (env : GpuvaEnv) (tableIpa : U64) (index : Nat) (childIpa : U64) (graph : GpuvaGraph) (heap : Heap) :
    Heap :=
  if ¬ graph.created ∨ graph.uncertain then heap
  else if graph.jobInFlight ∨ graph.mappingGeneration = maxU64 then heap
  else match findParent tableIpa graph with
    | (none,_) => heap
    | (some parent,graph) =>
      if childIpa = 0 then
        if entryCount parent.level ≤ index then heap
        else match findEdge graph.parents tableIpa index with
          | none => heap
          | some edge =>
            match call env (parentRequest tableIpa index 0) graph with
            | (false,_) => heap
            | (true,_) => heap.freeNode edge.id
      else match findTable childIpa (parent.level + 1) graph with
        | (none,_) => heap
        | (some _,graph) =>
          if entryCount parent.level ≤ index then heap
          else match findEdge graph.parents tableIpa index with
            | some _ => heap
            | none =>
              match nodeHeap env graph heap with
              | (none,heap) => heap
              | (some block,heap) =>
                match call env (parentRequest tableIpa index childIpa) (node env graph).2 with
                | (false,_) => heap.free block
                | (true,left) => heap.link left.linked block

/-- The links of `AppleAgxGpuvaG3GraphAttachPrivate`. -/
def attachLinksHeap (env : GpuvaEnv) (va middle leaf : U64) (rootEdge leafEdge : Option GpuvaNode) (graph : GpuvaGraph)
    (heap : Heap) : Heap :=
  let one := updateParentHeap env middle (middleIndex va) leaf graph heap
  match updateParent env middle (middleIndex va) leaf graph with
  | (false,_) => one
  | (true,linked) =>
    if rootEdge.isSome then one
    else
      let two := updateParentHeap env linked.rootIpa (privateRootIndex va) middle linked one
      match updateParent env linked.rootIpa (privateRootIndex va) middle linked with
      | (true,_) => two
      | (false,left) =>
        let failed := { left with attachFailure := 9 }
        if leafEdge.isSome ∨ failed.uncertain then two
        else updateParentHeap env middle (middleIndex va) 0 failed two

/-- `AppleAgxGpuvaG3GraphAttachPrivate`. -/
def attachPrivateHeap (env : GpuvaEnv) (va middle leaf : U64) (graph : GpuvaGraph) (heap : Heap) : Heap :=
  if ¬ graph.created ∨ graph.uncertain then heap
  else if ¬ privateVa va then heap
  else match findTable middle 1 graph with
    | (none,_) => heap
    | (some _,graph) =>
      match findTable leaf 2 graph with
      | (none,_) => heap
      | (some _,found) =>
        let graph := { found with attachFailure := 0 }
        let rootEdge := findEdge graph.parents graph.rootIpa (privateRootIndex va)
        let middle := rootEdge.elim middle (fun edge => edge.auxIpa)
        let leafEdge := findEdge graph.parents middle (middleIndex va)
        if rootEdge.isSome ∧ leafEdge.any (fun edge => edge.auxIpa == leaf) then heap
        else if graph.jobInFlight then heap
        else if graph.leaseToken ≠ 0 then heap
        else if leafEdge.any (fun edge => edge.auxIpa != leaf) then heap
        else attachLinksHeap env va middle leaf rootEdge leafEdge graph heap

/-- `AppleAgxGpuvaG3GraphDetachPrivateRoot`. -/
def detachPrivateRootHeap (env : GpuvaEnv) (va root leaf : U64) (graph : GpuvaGraph) (heap : Heap) : Heap :=
  if ¬ canDetachPrivateRoot va root leaf graph then heap
  else updateParentHeap env root (privateRootIndex va) 0 graph heap

/-- `revoke_unused_backing`. -/
def revokeUnusedBackingHeap (env : GpuvaEnv) (id : Nat) (state : GpuvaState) (heap : Heap) : Heap :=
  match nodeAt state.graph.backings id with
  | none => heap
  | some backing =>
    if backing.references ≠ 0 then heap
    else if keepable state.graph backing && backing.retained then heap
    else if keepable state.graph backing && state.graph.retainedLocal < retainedLocalLimit then heap
    else match call env (revokeRequest backing) state.graph with
      | (false,_) => heap
      | (true,_) => heap.freeNode backing.id

/-- The registration of a new backing, whose node is freed when it is refused. -/
def grantBackingHeap (env : GpuvaEnv) (backing : GpuvaNode) (block : Nat) (state : GpuvaState) (heap : Heap) : Heap :=
  match call env (grantRequest state.graph backing) state.graph with
  | (false,_) => heap.free block
  | (true,left) => heap.link left.linked block

/-- The part of `AppleAgxGpuvaG3GraphTryLeafBacking` that finds or registers a backing. -/
def obtainBackingHeap (env : GpuvaEnv) (target : LeafTarget) (state : GpuvaState) (heap : Heap) : Heap :=
  match findBacking state.graph target.guestIpa with
  | some _ => heap
  | none =>
    match nodeHeap env state.graph heap with
    | (none,heap) => heap
    | (some block,heap) =>
      let left := (node env state.graph).2
      let frame := if target.kind = .System then findFrame left state.registry target.guestIpa else none
      if target.kind = .System ∧ frame.all (fun frame => frame.mappings == 0 || frame.grants == maxU64) then heap.free block
      else if target.kind = .Private ∧ left.nextGeneration = maxU64 then heap.free block
      else match newBacking target frame left with
        | (backing,counted) => grantBackingHeap env backing block { state with graph := counted } heap

/-- What a refused leaf store frees of a new backing. -/
def withdrawBackingHeap (env : GpuvaEnv) (backing : GpuvaNode) (new : Bool) (state : GpuvaState) (heap : Heap) : Heap :=
  if ¬ new then heap
  else match call env (revokeRequest backing) state.graph with
    | (false,_) => heap
    | (true,_) => heap.freeNode backing.id

def clearLeafHeap (env : GpuvaEnv) (table leaf : GpuvaNode) (index : Nat) (state : GpuvaState) (heap : Heap) : Heap :=
  match findBacking state.graph leaf.auxIpa with
  | none => heap
  | some backing =>
    if backing.references = 0 then heap
    else match call env (leafRequest table.ipa index none) state.graph with
      | (false,_) => heap
      | (true,left) =>
        revokeUnusedBackingHeap env backing.id
          { state with graph := dropReference backing (unlinkLeaf table leaf index left) } (heap.freeNode leaf.id)

/-- The store of a new leaf, whose node is freed when it is refused. -/
def storeNewLeafHeap (env : GpuvaEnv) (table : GpuvaNode) (index : Nat) (target : LeafTarget) (id : Nat) (new : Bool)
    (block : Nat) (state : GpuvaState) (heap : Heap) : Heap :=
  match nodeAt state.graph.backings id with
  | none => heap.free block
  | some backing =>
    match call env (leafRequest table.ipa index (some (target,backing.generation))) state.graph with
    | (false,left) => (withdrawBackingHeap env backing new { state with graph := left } heap).free block
    | (true,left) => heap.link left.linked block

/-- The store of another page or right in a leaf. -/
def storeLeafHeap (env : GpuvaEnv) (table leaf oldBacking : GpuvaNode) (index : Nat) (target : LeafTarget) (id : Nat)
    (new : Bool) (state : GpuvaState) (heap : Heap) : Heap :=
  match nodeAt state.graph.backings id with
  | none => heap
  | some backing =>
    match call env (leafRequest table.ipa index (some (target,backing.generation))) state.graph with
    | (false,left) => withdrawBackingHeap env backing new { state with graph := left } heap
    | (true,left) =>
      if oldBacking.id = backing.id then heap
      else revokeUnusedBackingHeap env oldBacking.id { state with
          graph := relinkLeaf leaf backing target (addReference backing (dropReference oldBacking left)) } heap

/-- `AppleAgxGpuvaG3GraphTryLeafBacking`. -/
def tryLeafBackingHeap (env : GpuvaEnv) (tableIpa : U64) (index : Nat) (target : LeafTarget) (state : GpuvaState)
    (heap : Heap) : Heap :=
  if ¬ state.graph.created ∨ state.graph.uncertain ∨ state.graph.jobInFlight ∨ state.graph.mappingGeneration = maxU64 ∨
      (target.kind ≠ .Local ∧ target.kind ≠ .System ∧ target.kind ≠ .Private) then heap
  else match findTable tableIpa 2 state.graph with
    | (none,_) => heap
    | (some table,graph) =>
      let found := { state with graph := graph }
      if 2048 ≤ index ∨ target.guestIpa &&& pageMask ≠ 0 then heap
      else match (table.slots index).bind (nodeAt graph.leaves) with
        | some leaf =>
          if target.guestIpa = 0 then clearLeafHeap env table leaf index found heap
          else if leaf.auxIpa = target.guestIpa ∧ leaf.writable = target.writable ∧ leaf.kind = target.kind then heap
          else match findBacking graph leaf.auxIpa with
            | none => heap
            | some oldBacking =>
              if oldBacking.references = 0 then heap
              else match obtainBacking env target found with
                | (.error _,_) => obtainBackingHeap env target found heap
                | (.ok (id,new),left) =>
                  storeLeafHeap env table leaf oldBacking index target id new left (obtainBackingHeap env target found heap)
        | none =>
          if target.guestIpa = 0 then heap
          else match nodeHeap env graph heap with
            | (none,heap) => heap
            | (some block,heap) =>
              let asked := { found with graph := (node env graph).2 }
              match obtainBacking env target asked with
              | (.error _,_) => (obtainBackingHeap env target asked heap).free block
              | (.ok (id,new),left) =>
                storeNewLeafHeap env table index target id new block left (obtainBackingHeap env target asked heap)

/-- `AppleAgxGpuvaG3GraphUpdateLeaf`. -/
def updateLeafHeap (env : GpuvaEnv) (tableIpa : U64) (index : Nat) (guestIpa : U64) (writable : Bool) (state : GpuvaState)
    (heap : Heap) : Heap := tryLeafBackingHeap env tableIpa index ⟨guestIpa,writable,.Local⟩ state heap

/-- A loop that removes what it finds, with the memory of its removals. -/
def drainHeap {σ ι : Type} (pick : σ → Option ι) (clear : ι → σ → Bool × σ) (clearHeap : ι → σ → Heap → Heap) :
    (turns : Nat) → σ → Heap → Heap
  | 0, _, heap => heap
  | turns+1, state, heap =>
    match pick state with
    | none => heap
    | some entry =>
      match clear entry state with
      | (false,_) => clearHeap entry state heap
      | (true,left) => drainHeap pick clear clearHeap turns left (clearHeap entry state heap)

/-- The first loop of `retire_table`. -/
def clearLinksHeap (env : GpuvaEnv) (ipa : U64) : (turns : Nat) → GpuvaGraph → Heap → Heap :=
  drainHeap (fun graph => graph.parents.find? (fun edge => edge.auxIpa == ipa))
    (fun edge graph =>
      if reachable graph 4 edge.ipa then (false,graph) else updateParent env edge.ipa edge.index 0 graph)
    (fun edge graph heap =>
      if reachable graph 4 edge.ipa then heap else updateParentHeap env edge.ipa edge.index 0 graph heap)

/-- The loop of `retire_table` over the leaves of the table. -/
def clearLeavesHeap (env : GpuvaEnv) (ipa : U64) : (turns : Nat) → GpuvaState → Heap → Heap :=
  drainHeap (fun state => state.graph.leaves.find? (fun leaf => leaf.ipa == ipa))
    (fun leaf => updateLeaf env ipa leaf.index 0 false) (fun leaf => updateLeafHeap env ipa leaf.index 0 false)

/-- The loop of `retire_table` over the edges of the table. -/
def clearEdgesHeap (env : GpuvaEnv) (ipa : U64) : (turns : Nat) → GpuvaGraph → Heap → Heap :=
  drainHeap (fun graph => graph.parents.find? (fun edge => edge.ipa == ipa))
    (fun edge => updateParent env ipa edge.index 0) (fun edge => updateParentHeap env ipa edge.index 0)

/-- The second loop of `retire_table`. -/
def clearEntriesHeap (env : GpuvaEnv) (table : GpuvaNode) (state : GpuvaState) (heap : Heap) : Heap :=
  if table.level = 2 then clearLeavesHeap env table.ipa state.graph.leaves.length state heap
  else clearEdgesHeap env table.ipa state.graph.parents.length state.graph heap

/-- `retire_table`. -/
def retireTableHeap (env : GpuvaEnv) (table : GpuvaNode) (state : GpuvaState) (heap : Heap) : Heap :=
  if table.ipa = state.graph.rootIpa then heap
  else
    let unlinked := clearLinksHeap env table.ipa state.graph.parents.length state.graph heap
    match onGraph (clearLinks env table.ipa state.graph.parents.length) state with
    | (false,_) => unlinked
    | (true,left) =>
      let cleared := clearEntriesHeap env table left unlinked
      match clearEntries env table left with
      | (false,_) => cleared
      | (true,left) =>
        match call env (revokeTableRequest table) left.graph with
        | (false,_) => cleared
        | (true,_) => cleared.freeTable table.id

/-- The registration in `AppleAgxGpuvaG3GraphRegisterTable`. -/
def registerNewTableHeap (env : GpuvaEnv) (ipa : U64) (level block slots : Nat) (graph : GpuvaGraph) (heap : Heap) : Heap :=
  match call env { command := .RegisterTable, auxIpa := ipa, index := level } graph with
  | (false,_) => (heap.free slots).free block
  | (true,left) => heap.linkTable left.linked block slots

/-- `AppleAgxGpuvaG3GraphRegisterTable`. -/
def registerTableHeap (env : GpuvaEnv) (ipa : U64) (level : Nat) (state : GpuvaState) (heap : Heap) : Heap :=
  if ¬ state.graph.created ∨ state.graph.uncertain ∨ ipa = 0 ∨ ipa &&& pageMask ≠ 0 ∨ 2 < level then heap
  else
    let existing := state.graph.tables.find? (fun table => table.ipa == ipa)
    if existing.any (fun table => table.level == level) then heap
    else match tableHeap env state.graph heap with
      | (none,heap) => heap
      | (some (block,slots),heap) =>
        let asked := { state with graph := (allocate env (node env state.graph).2).2 }
        match existing with
        | none => registerNewTableHeap env ipa level block slots asked.graph heap
        | some table =>
          let retired := retireTableHeap env table asked heap
          match retireTable env table asked with
          | (false,_) => (retired.free slots).free block
          | (true,left) => registerNewTableHeap env ipa level block slots left.graph retired

def destroyLeavesHeap (env : GpuvaEnv) : (turns : Nat) → GpuvaState → Heap → Heap :=
  drainHeap (fun state => state.graph.leaves.head?) (fun leaf => updateLeaf env leaf.ipa leaf.index 0 false)
    (fun leaf => updateLeafHeap env leaf.ipa leaf.index 0 false)
def revokeNextHeap (env : GpuvaEnv) (backing : GpuvaNode) (state : GpuvaState) (heap : Heap) : Heap :=
  match call env (revokeRequest backing) state.graph with
  | (false,_) => heap
  | (true,_) => heap.freeNode backing.id
def destroyBackingsHeap (env : GpuvaEnv) : (turns : Nat) → GpuvaState → Heap → Heap :=
  drainHeap (fun state => state.graph.backings.head?) (revokeNext env) (revokeNextHeap env)
def destroyParentsHeap (env : GpuvaEnv) : (turns : Nat) → GpuvaGraph → Heap → Heap :=
  drainHeap (fun graph => graph.parents.head?) (fun edge => updateParent env edge.ipa edge.index 0)
    (fun edge => updateParentHeap env edge.ipa edge.index 0)

/-- The loop over the tables of a level. -/
def destroyTablesHeap (env : GpuvaEnv) (level : Nat) : List GpuvaNode → GpuvaGraph → Heap → Heap
  | [], _, heap => heap
  | table :: rest, graph, heap =>
    if table.level ≠ level ∨ table.ipa = graph.rootIpa then destroyTablesHeap env level rest graph heap
    else match call env (revokeTableRequest table) graph with
      | (false,_) => heap
      | (true,left) => destroyTablesHeap env level rest (removeTable table left) (heap.freeTable table.id)

/-- The tables that are left and the reserved node are freed with the process. -/
def destroyProcessHeap (env : GpuvaEnv) (graph : GpuvaGraph) (heap : Heap) : Heap :=
  match call env { command := .Destroy } graph with
  | (false,_) => heap
  | (true,left) =>
    let freed := left.tables.foldl (fun heap table => heap.freeTable table.id) heap
    if left.spareNode then freed.free freed.spareBlock else freed

/-- Two steps of which the second needs the first. -/
def andThenHeap (first : GpuvaState → Bool × GpuvaState) (firstHeap secondHeap : GpuvaState → Heap → Heap)
    (state : GpuvaState) (heap : Heap) : Heap :=
  match first state with
  | (false,_) => firstHeap state heap
  | (true,left) => secondHeap left (firstHeap state heap)

/-- `AppleAgxGpuvaG3GraphDestroy`. -/
def destroyHeap (env : GpuvaEnv) (state : GpuvaState) (heap : Heap) : Heap :=
  if ¬ state.graph.created ∨ state.graph.uncertain ∨ state.graph.leaseToken ≠ 0 ∨ state.graph.jobInFlight then heap
  else
    andThenHeap (fun state => destroyLeaves env state.graph.leaves.length state)
      (fun state => destroyLeavesHeap env state.graph.leaves.length state)
      (andThenHeap (fun state => destroyBackings env state.graph.backings.length state)
        (fun state => destroyBackingsHeap env state.graph.backings.length state)
        (andThenHeap (onGraph (fun graph => destroyParents env graph.parents.length graph))
          (fun state => destroyParentsHeap env state.graph.parents.length state.graph)
          (andThenHeap (onGraph (fun graph => destroyTables env 2 graph.tables graph))
            (fun state => destroyTablesHeap env 2 state.graph.tables state.graph)
            (andThenHeap (onGraph (fun graph => destroyTables env 1 graph.tables graph))
              (fun state => destroyTablesHeap env 1 state.graph.tables state.graph)
              (andThenHeap (onGraph (fun graph => destroyTables env 0 graph.tables graph))
                (fun state => destroyTablesHeap env 0 state.graph.tables state.graph)
                (fun state => destroyProcessHeap env state.graph)))))) state heap

/-- The frames of `AppleAgxGpuvaG3MappingAcquire` and `AppleAgxGpuvaG3MappingRelease` belong to the registry, not to a graph:
    they are outside this ledger. -/
def applyHeap (env : GpuvaEnv) (call : Call) (state : GpuvaState) (heap : Heap) : Heap :=
  match call with
  | .create rootIpa paging => createHeap env rootIpa paging state.graph heap
  | .registerTable ipa level => registerTableHeap env ipa level state heap
  | .updateParent tableIpa index childIpa => updateParentHeap env tableIpa index childIpa state.graph heap
  | .tryLeafBacking tableIpa index target => tryLeafBackingHeap env tableIpa index target state heap
  | .attachPrivate va middle leaf => attachPrivateHeap env va middle leaf state.graph heap
  | .detachPrivateRoot va root leaf => detachPrivateRootHeap env va root leaf state.graph heap
  | .reserveNode => reserveNodeHeap env state.graph heap
  | .destroy => destroyHeap env state heap
  | .bindRoot _ => heap
  | .beginJob _ => heap
  | .endJob => heap
  | .flush _ _ => heap
  | .leaf _ _ => heap
  | .mappingAcquire _ => heap
  | .mappingRelease _ => heap

/-- The memory of one graph after calls on any graph. -/
def runHeap {n : Nat} (env : Fin n → GpuvaEnv) (who : Fin n) : World n → List (Fin n × Call) → Heap → Heap
  | _, [], heap => heap
  | world, entry :: rest, heap =>
    runHeap env who (step env world entry) rest
      (if entry.1 = who then applyHeap (env entry.1) entry.2 (world.at entry.1) heap else heap)

end WindowsOnM1.GpuvaHeap
