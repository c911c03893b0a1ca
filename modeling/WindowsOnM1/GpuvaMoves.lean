import WindowsOnM1.GpuvaLists

/-!
What the operations on a graph can do, as moves: a change of the bookkeeping, a request
that was not acknowledged, or an acknowledged request with the change that follows it.
A backing may be loose between two moves: it has no references and is not kept yet.
-/
namespace WindowsOnM1.GpuvaMoves
open GpuvaModel

/-- An answer with Status 0 and Flags 0. -/
def Acknowledges (response : Response) : Prop := response.status = 0 ∧ response.flags = 0

/-- An answer with which the graph is uncertain: none, flags, or a status of 5 or 6. -/
def Poisons (answer : Option Response) : Prop :=
  ∀ response, answer = some response → response.flags ≠ 0 ∨ response.status = 5 ∨ response.status = 6

/-- The graph with one more request. -/
def sent (graph : GpuvaGraph) (request : Request) (response : Option Response) : GpuvaGraph :=
  { graph with
    calls := graph.calls ++ [({ request with
      processId := graph.processId, processGeneration := graph.processGeneration },response)] }

/-- A change of counters, of the reserve, of the last status and of the hint. -/
def Quiet (graph graph' : GpuvaGraph) : Prop :=
  ∃ nextGeneration mappingGeneration lastStatus slot tableHint attachFailure spareNode allocations, graph' = { graph with
      nextGeneration := nextGeneration, mappingGeneration := mappingGeneration, lastStatus := lastStatus, slot := slot
      tableHint := tableHint, attachFailure := attachFailure, spareNode := spareNode, allocations := allocations } ∧
    ∀ id, tableHint = some id → graph.tableHint = some id ∨ ∃ table ∈ graph.tables, table.id = id

theorem Quiet.of_same {graph graph' : GpuvaGraph} (same : graph' = { graph with
    nextGeneration := graph'.nextGeneration, mappingGeneration := graph'.mappingGeneration, lastStatus := graph'.lastStatus
    slot := graph'.slot, attachFailure := graph'.attachFailure, spareNode := graph'.spareNode
    allocations := graph'.allocations }) : Quiet graph graph' := ⟨_,_,_,_,_,_,_,_,same,fun _ => .inl⟩
theorem Quiet.refl (graph : GpuvaGraph) : Quiet graph graph := .of_same rfl

theorem Quiet.trans {a b c : GpuvaGraph} (first : Quiet a b) (second : Quiet b c) : Quiet a c := by
  obtain ⟨_,_,_,_,_,_,_,_,rfl,hint⟩ := first
  obtain ⟨_,_,_,_,_,_,_,_,rfl,hint'⟩ := second
  refine ⟨_,_,_,_,_,_,_,_,rfl,fun id isHint => ?_⟩
  rcases hint' id isHint with old | inside
  · exact hint id old
  exact .inr inside

/-- A backing that was kept without references. -/
def retain (backing : GpuvaNode) (graph : GpuvaGraph) : GpuvaGraph :=
  { graph with
    backings := modifyNode graph.backings backing.id (fun item => { item with retained := true })
    retainedLocal := graph.retainedLocal + 1 }

def linkRoot (ipa : U64) (graph : GpuvaGraph) : GpuvaGraph :=
  { graph with
    tables := { id := graph.linked, ipa := ipa } :: graph.tables
    linked := graph.linked + 1
    rootTable := some graph.linked
    rootIpa := ipa
    created := true }

def linkFrame (frame : GpuvaFrame) (registry : GpuvaRegistry) : GpuvaRegistry :=
  { frames := frame :: registry.frames
    nextGeneration := frame.generation
    frameBuckets := Function.update registry.frameBuckets (bucket frame.ipa)
      (frame.id :: registry.frameBuckets (bucket frame.ipa))
    linked := registry.linked + 1 }

/-- What an operation may do besides: wrap a full count of references, map and unmap frames, move the root and end a job. -/
structure Allows where
  wraps : Prop
  maps : Prop
  rebinds : Prop
  ends : Prop

/-- The moves from a graph that is not uncertain. The first component is the backing that is loose. -/
inductive Change (allows : Allows) : Option Nat × GpuvaState → Option Nat × GpuvaState → Prop
  | refused {l graph registry} (request : Request) (answer : Option Response)
      (unanswered : ∀ response, answer = some response → ¬ Acknowledges response) (harmless : ¬ Poisons answer) :
      Change allows (l,⟨graph,registry⟩) (l,⟨sent graph request answer,registry⟩)
  | created {l graph registry response} (ipa : U64) (flags : U32) (acked : Acknowledges response)
      (absent : graph.created = false) (nonzero : ipa ≠ 0) :
      Change allows (l,⟨graph,registry⟩)
        (l,⟨linkRoot ipa (sent graph { command := .Create, tableIpa := ipa, flags := flags } (some response)),registry⟩)
  | tableLinked {l graph registry response} (ipa : U64) (level : Nat) (acked : Acknowledges response)
      (present : graph.created = true) (nonzero : ipa ≠ 0) (small : level ≤ 2)
      (free : ∀ table ∈ graph.tables, table.ipa ≠ ipa) :
      Change allows (l,⟨graph,registry⟩)
        (l,⟨linkTable ipa level
          (sent graph { command := .RegisterTable, auxIpa := ipa, index := level } (some response)),registry⟩)
  | tableRemoved {l graph registry response table} (acked : Acknowledges response)
      (present : graph.created = true) (mem : table ∈ graph.tables) (notRoot : table.ipa ≠ graph.rootIpa)
      (unlinked : ∀ edge ∈ graph.parents, edge.ipa ≠ table.ipa ∧ edge.auxIpa ≠ table.ipa)
      (empty : ∀ leaf ∈ graph.leaves, leaf.ipa ≠ table.ipa) :
      Change allows (l,⟨graph,registry⟩)
        (l,⟨removeTable table (sent graph (revokeTableRequest table) (some response)),registry⟩)
  | rootMoved {l graph registry response table} (rebinds : allows.rebinds) (acked : Acknowledges response)
      (present : graph.created = true) (mem : table ∈ graph.tables) (isRoot : table.level = 0) :
      Change allows (l,⟨graph,registry⟩)
        (l,⟨{ sent graph { command := .RelocateRoot, tableIpa := table.ipa } (some response) with
          rootIpa := table.ipa, rootTable := some table.id },registry⟩)
  | childLinked {l graph registry response parent child index} (acked : Acknowledges response)
      (present : graph.created = true) (idle : graph.jobInFlight = false)
      (parentIn : parent ∈ graph.tables) (childIn : child ∈ graph.tables) (level : child.level = parent.level + 1)
      (inside : index < entryCount parent.level)
      (free : ∀ edge ∈ graph.parents, ¬ (edge.ipa = parent.ipa ∧ edge.index = index)) :
      Change allows (l,⟨graph,registry⟩)
        (l,⟨linkChild parent child index (sent graph (parentRequest parent.ipa index child.ipa) (some response)),registry⟩)
  | childRelinked {l graph registry response parent child edge} (acked : Acknowledges response)
      (present : graph.created = true) (idle : graph.jobInFlight = false)
      (parentIn : parent ∈ graph.tables) (childIn : child ∈ graph.tables) (level : child.level = parent.level + 1)
      (edgeIn : edge ∈ graph.parents) (under : edge.ipa = parent.ipa) :
      Change allows (l,⟨graph,registry⟩)
        (l,⟨relinkChild edge child (sent graph (parentRequest parent.ipa edge.index child.ipa) (some response)),registry⟩)
  | childUnlinked {l graph registry response parent edge} (acked : Acknowledges response)
      (present : graph.created = true) (idle : graph.jobInFlight = false)
      (parentIn : parent ∈ graph.tables) (edgeIn : edge ∈ graph.parents) (under : edge.ipa = parent.ipa) :
      Change allows (l,⟨graph,registry⟩)
        (l,⟨unlinkChild parent edge edge.index (sent graph (parentRequest parent.ipa edge.index 0) (some response)),registry⟩)
  | granted {graph registry response backing} (request : Request) (acked : Acknowledges response)
      (present : graph.created = true) (isGrant : request = grantRequest graph backing)
      (free : ∀ other ∈ graph.backings, other.ipa ≠ backing.ipa) (unused : backing.references = 0)
      (unkept : backing.retained = false)
      (system : backing.kind = .System ↔ backing.frame.isSome = true)
      (framed : ∀ id, backing.frame = some id → ∃ frame ∈ registry.frames, frame.id = id ∧ frame.ipa = backing.ipa ∧
        frame.generation = backing.generation ∧ frame.grants ≠ maxU64) :
      Change allows (none,⟨graph,registry⟩) (some graph.linked,linkBacking backing ⟨sent graph request (some response),registry⟩)
  | leafLinked {l graph registry response table backing index target} (acked : Acknowledges response)
      (present : graph.created = true) (idle : graph.jobInFlight = false) (tableIn : table ∈ graph.tables)
      (isLeafTable : table.level = 2) (inside : index < 2048) (backingIn : backing ∈ graph.backings)
      (names : backing.ipa = target.guestIpa)
      (kind : backing.kind = target.kind) (nonzero : target.guestIpa ≠ 0)
      (free : ∀ leaf ∈ graph.leaves, ¬ (leaf.ipa = table.ipa ∧ leaf.index = index))
      (fits : backing.references ≠ ~~~0 ∨ allows.wraps) (loose : ∀ id, l = some id → id = backing.id) :
      Change allows (l,⟨graph,registry⟩) (none,⟨addReference backing (linkLeaf table backing index target
        (sent graph (leafRequest table.ipa index (some (target,backing.generation))) (some response))),registry⟩)
  | leafRewritten {graph registry response leaf backing target} (acked : Acknowledges response)
      (present : graph.created = true) (idle : graph.jobInFlight = false)
      (leafIn : leaf ∈ graph.leaves) (backingIn : backing ∈ graph.backings) (names : backing.ipa = target.guestIpa)
      (kind : backing.kind = target.kind) (nonzero : target.guestIpa ≠ 0)
      (same : leaf.auxIpa = target.guestIpa) :
      Change allows (none,⟨graph,registry⟩) (none,⟨relinkLeaf leaf backing target
        (sent graph (leafRequest leaf.ipa leaf.index (some (target,backing.generation))) (some response)),registry⟩)
  | leafMoved {l graph registry response leaf backing old target} (acked : Acknowledges response)
      (present : graph.created = true) (idle : graph.jobInFlight = false)
      (leafIn : leaf ∈ graph.leaves) (backingIn : backing ∈ graph.backings) (oldIn : old ∈ graph.backings)
      (names : backing.ipa = target.guestIpa) (kind : backing.kind = target.kind)
      (nonzero : target.guestIpa ≠ 0) (oldNames : old.ipa = leaf.auxIpa) (different : old.id ≠ backing.id)
      (used : old.references ≠ 0) (fits : backing.references ≠ ~~~0 ∨ allows.wraps)
      (loose : ∀ id, l = some id → id = backing.id) :
      Change allows (l,⟨graph,registry⟩) (some old.id,⟨relinkLeaf leaf backing target (addReference backing
        (dropReference old (sent graph (leafRequest leaf.ipa leaf.index (some (target,backing.generation)))
          (some response)))),registry⟩)
  | leafUnlinked {graph registry response table leaf old} (acked : Acknowledges response)
      (present : graph.created = true) (idle : graph.jobInFlight = false) (tableIn : table ∈ graph.tables)
      (isLeafTable : table.level = 2) (leafIn : leaf ∈ graph.leaves) (under : leaf.ipa = table.ipa)
      (oldIn : old ∈ graph.backings)
      (oldNames : old.ipa = leaf.auxIpa) (used : old.references ≠ 0) :
      Change allows (none,⟨graph,registry⟩) (some old.id,⟨dropReference old (unlinkLeaf table leaf leaf.index
        (sent graph (leafRequest table.ipa leaf.index none) (some response))),registry⟩)
  | revoked {l graph registry response backing} (acked : Acknowledges response)
      (present : graph.created = true) (mem : backing ∈ graph.backings)
      (unused : backing.references = 0 ∨ graph.leaves = []) (loose : ∀ id, l = some id → id = backing.id) :
      Change allows (l,⟨graph,registry⟩)
        (none,releaseGrant backing ⟨sent graph (revokeRequest backing) (some response),registry⟩)
  | retained {l graph registry backing} (mem : backing ∈ graph.backings) (unused : backing.references = 0)
      (unkept : backing.retained = false) (room : graph.retainedLocal < retainedLocalLimit)
      (loose : ∀ id, l = some id → id = backing.id) :
      Change allows (l,⟨graph,registry⟩) (none,⟨retain backing graph,registry⟩)
  | settled {l graph registry}
      (fine : ∀ backing ∈ graph.backings, l = some backing.id → backing.references ≠ 0 ∨ backing.retained = true) :
      Change allows (l,⟨graph,registry⟩) (none,⟨graph,registry⟩)
  | leased {l graph registry response} (slot : Nat) (acked : Acknowledges response)
      (present : graph.created = true) :
      Change allows (l,⟨graph,registry⟩) (l,⟨{ sent graph { command := .Lease, slot := slot } (some response) with
        leaseToken := response.token },registry⟩)
  | jobBegun {l graph registry response} (request : Request) (isBegin : request.command = .JobBegin)
      (acked : Acknowledges response) (present : graph.created = true) :
      Change allows (l,⟨graph,registry⟩) (l,⟨{ sent graph request (some response) with jobInFlight := true },registry⟩)
  | jobEnded {l graph registry response} (ends : allows.ends) (request : Request) (isEnd : request.command = .JobEnd)
      (acked : Acknowledges response) :
      Change allows (l,⟨graph,registry⟩) (l,⟨{ sent graph request (some response) with jobInFlight := false },registry⟩)
  | leaseReleased {l graph registry response} (request : Request) (isRelease : request.command = .Release)
      (acked : Acknowledges response) :
      Change allows (l,⟨graph,registry⟩) (l,⟨{ sent graph request (some response) with leaseToken := 0 },registry⟩)
  | flushed {l graph registry response} (request : Request) (isFlush : request.command = .FlushTlb)
      (acked : Acknowledges response) :
      Change allows (l,⟨graph,registry⟩) (l,⟨sent graph request (some response),registry⟩)
  | destroyed {graph registry response} (acked : Acknowledges response) (present : graph.created = true)
      (noLeaves : graph.leaves = []) (noBackings : graph.backings = []) (noParents : graph.parents = [])
      (noLease : graph.leaseToken = 0) (noJob : graph.jobInFlight = false) :
      Change allows (none,⟨graph,registry⟩) (none,⟨{ sent graph { command := .Destroy } (some response) with
        tables := [], tableHint := none, created := false, rootIpa := 0, rootTable := none },registry⟩)
  | frameLinked {l graph registry} (maps : allows.maps) (frame : GpuvaFrame) (isNew : frame.id = registry.linked)
      (next : frame.generation = registry.nextGeneration + 1) (room : registry.nextGeneration ≠ maxU64)
      (free : ∀ other ∈ registry.frames, other.ipa ≠ frame.ipa) (new : frame.mappings = 0)
      (ungranted : frame.grants = 0) :
      Change allows (l,⟨graph,registry⟩) (l,⟨graph,modifyFrame (linkFrame frame registry) frame.id
        (fun frame => { frame with mappings := frame.mappings + 1 })⟩)
  | frameMapped {l graph registry frame} (maps : allows.maps) (mem : frame ∈ registry.frames)
      (room : frame.mappings ≠ maxU64) :
      Change allows (l,⟨graph,registry⟩) (l,⟨graph,modifyFrame registry frame.id
        (fun frame => { frame with mappings := frame.mappings + 1 })⟩)

/-- One move of a graph. A mapping is released also when the graph is uncertain. -/
inductive Move (allows : Allows) : Option Nat × GpuvaState → Option Nat × GpuvaState → Prop
  | quiet {l graph graph' registry} (quiet : Quiet graph graph') : Move allows (l,⟨graph,registry⟩) (l,⟨graph',registry⟩)
  | unmapped {l graph registry frame} (maps : allows.maps) (mem : frame ∈ registry.frames)
      (mapped : frame.mappings ≠ 0) :
      Move allows (l,⟨graph,registry⟩) (l,⟨graph,releaseFrame frame.id (modifyFrame registry frame.id
        (fun frame => { frame with mappings := frame.mappings - 1 }))⟩)
  | poisoned {l graph registry} (certain : graph.uncertain = false) (request : Request) (answer : Option Response)
      (poisons : Poisons answer) :
      Move allows (l,⟨graph,registry⟩) (l,⟨{ sent graph request answer with uncertain := true },registry⟩)
  | lost {l l' graph registry} : Move allows (l,⟨graph,registry⟩) (l',⟨{ graph with uncertain := true },registry⟩)
  | change {before after} (certain : before.2.graph.uncertain = false) (change : Change allows before after) :
      Move allows before after

abbrev Moves (allows : Allows) := Relation.ReflTransGen (Move allows)

end WindowsOnM1.GpuvaMoves
