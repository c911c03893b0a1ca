import WindowsOnM1.GpuvaHeap

/-!
The ledger of the memory of a graph: what was allocated and not freed is held, once each, by
the nodes of its lists, by the slots of its tables and as its reserved node. Every call
keeps it.
-/
namespace WindowsOnM1.GpuvaLedger
open SerialCounts MemoryLedger GpuvaModel GpuvaLists List Function
open GpuvaSteps GpuvaHeap

/-- How often a block is the one of a serial number of a list. -/
def blocksOf (blockOf : Nat → Nat) (serials : List Nat) (block : Nat) : Nat := serials.countP (fun id => blockOf id == block)
theorem blocksOf_cons (blockOf : Nat → Nat) (serial : Nat) (serials : List Nat) (block : Nat) :
    blocksOf blockOf (serial :: serials) block = blocksOf blockOf serials block + one (blockOf serial == block) := countP_cons

theorem blocksOf_update (blockOf : Nat → Nat) {serial : Nat} {serials : List Nat} (fresh : serial ∉ serials) (new block : Nat) :
    blocksOf (Function.update blockOf serial new) serials block = blocksOf blockOf serials block := by
  refine countP_congr (fun other mem => ?_)
  have apart : other ≠ serial := fun same => fresh (same ▸ mem)
  rw [update_of_ne apart]

/-- What is held by nodes, tables and the reserve, and for the moment by an operation. -/
def held (temps nodes tables : List Nat) (spare : Bool) (heap : Heap) (block : Nat) : Nat :=
  blocksOf heap.nodeBlock nodes block + blocksOf heap.slotBlock tables block + one (spare && heap.spareBlock == block) +
    blocksOf id temps block
def Owned (temps nodes tables : List Nat) (spare : Bool) (next : Nat) (heap : Heap) : Prop :=
  Ledger heap.events (held temps nodes tables spare heap) next

variable {temps nodes nodes' tables tables' : List Nat} {spare : Bool} {next serial block slots : Nat} {heap : Heap}

theorem Owned.perm (owned : Owned temps nodes tables spare next heap) (sameNodes : nodes'.Perm nodes) (sameTables : tables'.Perm tables) :
    Owned temps nodes' tables' spare next heap :=
  owned.congr (fun block => by simp only [held,blocksOf,sameNodes.countP_eq,sameTables.countP_eq])

theorem Owned.allocate (owned : Owned temps nodes tables spare next heap) :
    Owned (next :: temps) nodes tables spare (next + 1) (heap.allocate next) := by
  refine (Ledger.allocate owned).congr (fun block => ?_)
  simp only [held,blocksOf_cons,Heap.allocate,id]
  omega

theorem Owned.free (owned : Owned (block :: temps) nodes tables spare next heap) :
    Owned temps nodes tables spare next (heap.free block) := by
  refine Ledger.free owned (fun other => ?_)
  simp only [held,blocksOf_cons,Heap.free,id]
  omega

theorem Owned.link (owned : Owned (block :: temps) nodes tables spare next heap) (fresh : serial ∉ nodes) :
    Owned temps (serial :: nodes) tables spare next (heap.link serial block) := by
  refine Ledger.congr owned (fun other => ?_)
  simp only [held,blocksOf_cons,Heap.link,blocksOf_update _ fresh,update_self,id]
  omega

theorem Owned.linkTable (owned : Owned (block :: slots :: temps) nodes tables spare next heap) (fresh : serial ∉ nodes)
    (fresh' : serial ∉ tables) : Owned temps (serial :: nodes) (serial :: tables) spare next (heap.linkTable serial block slots) := by
  refine Ledger.congr owned (fun other => ?_)
  simp only [held,blocksOf_cons,Heap.linkTable,blocksOf_update _ fresh,blocksOf_update _ fresh',update_self,id]
  omega

theorem Owned.freeNode (owned : Owned temps (serial :: nodes) tables spare next heap) :
    Owned temps nodes tables spare next (heap.freeNode serial) := by
  refine Ledger.free owned (fun other => ?_)
  simp only [held,blocksOf_cons,Heap.freeNode,Heap.free]
  omega

theorem Owned.freeTable (owned : Owned temps (serial :: nodes) (serial :: tables) spare next heap) :
    Owned temps nodes tables spare next (heap.freeTable serial) := by
  have slots : Owned temps (serial :: nodes) tables spare next (heap.free (heap.slotBlock serial)) := by
    refine Ledger.free owned (fun other => ?_)
    simp only [held,blocksOf_cons,Heap.free]
    omega
  exact slots.freeNode

theorem Owned.take (owned : Owned temps nodes tables true next heap) :
    Owned (heap.spareBlock :: temps) nodes tables false next heap := by
  refine Ledger.congr owned (fun other => ?_)
  simp only [held,blocksOf_cons,Bool.false_and,Bool.true_and,one_false,id]
  omega

theorem Owned.reserve (owned : Owned (block :: temps) nodes tables false next heap) :
    Owned temps nodes tables true next { heap with spareBlock := block } := by
  refine Ledger.congr owned (fun other => ?_)
  simp only [held,blocksOf_cons,Bool.false_and,Bool.true_and,one_false,id]
  omega

def serials (nodes : List GpuvaNode) : List Nat := nodes.map (fun item => item.id)

/-- The nodes of all lists of a graph. -/
def nodeSerials (graph : GpuvaGraph) : List Nat :=
  serials graph.tables ++ serials graph.parents ++ serials graph.leaves ++ serials graph.backings

/-- The memory of a graph and of an operation on it. No two nodes of a graph have one serial
    number, and the next node that is linked gets one that none has. -/
structure GraphOwned (temps : List Nat) (graph : GpuvaGraph) (heap : Heap) : Prop where
  memory : Owned temps (nodeSerials graph) (serials graph.tables) graph.spareNode graph.allocations heap
  distinct : (nodeSerials graph).Nodup
  old : ∀ serial ∈ nodeSerials graph, serial < graph.linked

structure SameNodes (graph graph' : GpuvaGraph) : Prop where
  tables : serials graph'.tables = serials graph.tables
  parents : serials graph'.parents = serials graph.parents
  leaves : serials graph'.leaves = serials graph.leaves
  backings : serials graph'.backings = serials graph.backings
  spareNode : graph'.spareNode = graph.spareNode
  allocations : graph'.allocations = graph.allocations
  linked : graph'.linked = graph.linked

theorem SameNodes.refl (graph : GpuvaGraph) : SameNodes graph graph := ⟨rfl,rfl,rfl,rfl,rfl,rfl,rfl⟩
theorem SameNodes.trans {a b c : GpuvaGraph} (first : SameNodes a b) (second : SameNodes b c) : SameNodes a c :=
  ⟨second.tables.trans first.tables,second.parents.trans first.parents,second.leaves.trans first.leaves,
    second.backings.trans first.backings,second.spareNode.trans first.spareNode,second.allocations.trans first.allocations,
    second.linked.trans first.linked⟩

variable {env : GpuvaEnv} {graph graph' : GpuvaGraph}

private theorem nodeSerials_same (same : SameNodes graph graph') : nodeSerials graph' = nodeSerials graph := by
  rw [nodeSerials,nodeSerials,same.tables,same.parents,same.leaves,same.backings]

theorem GraphOwned.same (owned : GraphOwned temps graph heap) (same : SameNodes graph graph') : GraphOwned temps graph' heap := by
  obtain ⟨memory,distinct,old⟩ := owned
  rw [← nodeSerials_same same] at memory distinct old
  rw [← same.tables,← same.spareNode,← same.allocations] at memory
  rw [← same.linked] at old
  exact ⟨memory,distinct,old⟩

theorem GraphOwned.link (owned : GraphOwned (block :: temps) graph heap)
    (nodes : (nodeSerials graph').Perm (graph.linked :: nodeSerials graph)) (tables : serials graph'.tables = serials graph.tables)
    (spareNode : graph'.spareNode = graph.spareNode) (allocations : graph'.allocations = graph.allocations)
    (linked : graph'.linked = graph.linked + 1) : GraphOwned temps graph' (heap.link graph.linked block) := by
  have fresh : graph.linked ∉ nodeSerials graph := fun mem => Nat.lt_irrefl _ (owned.old _ mem)
  refine ⟨?_,nodes.nodup_iff.mpr (nodup_cons.mpr ⟨fresh,owned.distinct⟩),fun serial mem => ?_⟩
  · rw [tables,spareNode,allocations]
    exact (Owned.link owned.memory fresh).perm nodes (.refl _)
  rw [linked]
  rcases mem_cons.mp (nodes.mem_iff.mp mem) with rfl | before
  · exact Nat.lt_succ_self _
  exact Nat.lt_succ_of_lt (owned.old serial before)

theorem GraphOwned.linkTable (owned : GraphOwned (block :: slots :: temps) graph heap)
    (nodes : nodeSerials graph' = graph.linked :: nodeSerials graph)
    (tables : serials graph'.tables = graph.linked :: serials graph.tables)
    (spareNode : graph'.spareNode = graph.spareNode) (allocations : graph'.allocations = graph.allocations)
    (linked : graph'.linked = graph.linked + 1) : GraphOwned temps graph' (heap.linkTable graph.linked block slots) := by
  have fresh : graph.linked ∉ nodeSerials graph := fun mem => Nat.lt_irrefl _ (owned.old _ mem)
  have fresh' : graph.linked ∉ serials graph.tables := fun mem => fresh (by simp [nodeSerials,mem])
  refine ⟨?_,?_,fun serial mem => ?_⟩
  · rw [nodes,tables,spareNode,allocations]
    exact Owned.linkTable owned.memory fresh fresh'
  · rw [nodes]
    exact nodup_cons.mpr ⟨fresh,owned.distinct⟩
  rw [nodes] at mem
  rw [linked]
  rcases mem_cons.mp mem with rfl | before
  · exact Nat.lt_succ_self _
  exact Nat.lt_succ_of_lt (owned.old serial before)

theorem GraphOwned.unlink (owned : GraphOwned temps graph heap) (nodes : (nodeSerials graph).Perm (serial :: nodeSerials graph'))
    (tables : serials graph'.tables = serials graph.tables) (spareNode : graph'.spareNode = graph.spareNode)
    (allocations : graph'.allocations = graph.allocations) (linked : graph'.linked = graph.linked) :
    GraphOwned temps graph' (heap.freeNode serial) := by
  refine ⟨?_,(nodup_cons.mp (nodes.nodup_iff.mp owned.distinct)).2,fun other mem => ?_⟩
  · rw [tables,spareNode,allocations]
    exact Owned.freeNode (owned.memory.perm nodes.symm (.refl _))
  rw [linked]
  exact owned.old other (nodes.mem_iff.mpr (mem_cons_of_mem _ mem))

theorem GraphOwned.unlinkTable (owned : GraphOwned temps graph heap)
    (nodes : (nodeSerials graph).Perm (serial :: nodeSerials graph'))
    (tables : (serials graph.tables).Perm (serial :: serials graph'.tables)) (spareNode : graph'.spareNode = graph.spareNode)
    (allocations : graph'.allocations = graph.allocations) (linked : graph'.linked = graph.linked) :
    GraphOwned temps graph' (heap.freeTable serial) := by
  refine ⟨?_,(nodup_cons.mp (nodes.nodup_iff.mp owned.distinct)).2,fun other mem => ?_⟩
  · rw [spareNode,allocations]
    exact Owned.freeTable (owned.memory.perm nodes.symm tables.symm)
  rw [linked]
  exact owned.old other (nodes.mem_iff.mpr (mem_cons_of_mem _ mem))

theorem GraphOwned.free (owned : GraphOwned (block :: temps) graph heap) : GraphOwned temps graph (heap.free block) :=
  ⟨Owned.free owned.memory,owned.distinct,owned.old⟩

theorem serials_modify (nodes : List GpuvaNode) (serial : Nat) {change : GpuvaNode → GpuvaNode}
    (keeps : ∀ item, (change item).id = item.id) : serials (modifyNode nodes serial change) = serials nodes :=
  map_modifyNode _ _ _ _ (fun item _ _ => keeps item)
theorem serials_setSlot (tables : List GpuvaNode) (serial index : Nat) (target : Option Nat) :
    serials (setSlot tables serial index target) = serials tables := serials_modify _ _ (fun _ => rfl)

theorem serials_without {nodes : List GpuvaNode} (ids : (serials nodes).Nodup) {serial : Nat} (mem : serial ∈ serials nodes) :
    (serials nodes).Perm (serial :: serials (without nodes serial)) := by
  have erased : (serials nodes).erase serial = serials (without nodes serial) := by
    rw [List.Nodup.erase_eq_filter ids serial]
    exact filter_map
  rw [← erased]
  exact perm_cons_erase mem

theorem GraphOwned.ids (owned : GraphOwned temps graph heap) :
    (serials graph.tables).Nodup ∧ (serials graph.parents).Nodup ∧ (serials graph.leaves).Nodup ∧ (serials graph.backings).Nodup := by
  have distinct := owned.distinct
  simp only [nodeSerials,nodup_append] at distinct
  exact ⟨distinct.1.1.1,distinct.1.1.2.1,distinct.1.2.1,distinct.2.1⟩

theorem findTable_same (ipa : U64) (level : Nat) (graph : GpuvaGraph) : SameNodes graph (findTable ipa level graph).2 := by
  unfold findTable
  split
  · exact .refl _
  split
  · exact ⟨rfl,rfl,rfl,rfl,rfl,rfl,rfl⟩
  exact .refl _

theorem findParent_same (ipa : U64) (graph : GpuvaGraph) : SameNodes graph (findParent ipa graph).2 := by
  have first := findTable_same ipa 0 graph
  unfold findParent
  cases search : findTable ipa 0 graph with | mk parent found =>
  rw [search] at first
  cases parent with
  | some parent => exact first
  | none => exact first.trans (findTable_same ipa 1 found)

theorem callWithResponse_same (env : GpuvaEnv) (request : Request) (graph : GpuvaGraph) :
    SameNodes graph (callWithResponse env request graph).2 := by
  rcases callWithResponse_cases env request graph with ⟨left,isLeft,unanswered,_⟩ | ⟨response,_,_,answered⟩
  · obtain ⟨_,_,_,rfl,_⟩ := unanswered
    rw [isLeft]
    exact ⟨rfl,rfl,rfl,rfl,rfl,rfl,rfl⟩
  rw [answered]
  exact ⟨rfl,rfl,rfl,rfl,rfl,rfl,rfl⟩

theorem call_same (env : GpuvaEnv) (request : Request) (graph : GpuvaGraph) : SameNodes graph (call env request graph).2 :=
  callWithResponse_same env request graph
theorem GraphOwned.split {α : Type} {outcome : α × GpuvaGraph} (owned : GraphOwned temps outcome.2 heap) :
    ∃ result left, outcome = (result,left) ∧ GraphOwned temps left heap := ⟨_,_,rfl,owned⟩

variable (env) in
theorem GraphOwned.call (owned : GraphOwned temps graph heap) (request : Request) :
    ∃ done left, call env request graph = (done,left) ∧ GraphOwned temps left heap ∧ left.parents = graph.parents ∧
      left.leaves = graph.leaves ∧ left.backings = graph.backings := by
  rcases call_cases env request graph with ⟨left,isLeft,⟨_,_,_,rfl,_⟩,_⟩ | ⟨response,_,_,answered⟩
  · exact ⟨_,_,isLeft,owned.same ⟨rfl,rfl,rfl,rfl,rfl,rfl,rfl⟩,rfl,rfl,rfl⟩
  exact ⟨_,_,answered,owned.same ⟨rfl,rfl,rfl,rfl,rfl,rfl,rfl⟩,rfl,rfl,rfl⟩

theorem GraphOwned.freeBoth {block slots : Nat} (owned : GraphOwned (block :: slots :: temps) graph heap) :
    GraphOwned temps graph ((heap.free slots).free block) := by
  have swapped : GraphOwned (slots :: block :: temps) graph heap :=
    ⟨Ledger.congr owned.memory (fun other => by simp only [GpuvaLedger.held,blocksOf_cons]; omega),owned.distinct,owned.old⟩
  exact swapped.free.free

theorem GraphOwned.linkParent (owned : GraphOwned (block :: temps) graph heap) (parent child : GpuvaNode) (index : Nat) :
    GraphOwned temps (countMapping (linkChild parent child index graph)) (heap.link graph.linked block) := by
  refine owned.link ?_ (serials_setSlot ..) rfl rfl rfl
  simp only [nodeSerials,countMapping,linkChild,serials_setSlot]
  simp only [serials,map_cons,append_assoc,cons_append]
  exact perm_middle

theorem GraphOwned.unlinkParent (owned : GraphOwned temps graph heap) (parent : GpuvaNode) {edge : GpuvaNode}
    (mem : edge ∈ graph.parents) (index : Nat) :
    GraphOwned temps (countMapping (unlinkChild parent edge index graph)) (heap.freeNode edge.id) := by
  refine owned.unlink ?_ (serials_setSlot ..) rfl rfl rfl
  simp only [nodeSerials,countMapping,unlinkChild,serials_setSlot]
  have less := serials_without owned.ids.2.1 (mem_map_of_mem mem)
  refine (List.Perm.append_right _ (List.Perm.append_right _ (List.Perm.append_left _ less))).trans ?_
  simp only [append_assoc,cons_append]
  exact perm_middle

theorem GraphOwned.linkLeaf (owned : GraphOwned (block :: temps) graph heap) (table backing : GpuvaNode) (index : Nat)
    (target : LeafTarget) : GraphOwned temps (linkLeaf table backing index target graph) (heap.link graph.linked block) := by
  refine owned.link ?_ (serials_setSlot ..) rfl rfl rfl
  simp only [nodeSerials,GpuvaModel.linkLeaf,serials_setSlot]
  simp only [serials,map_cons,append_assoc,cons_append]
  rw [← append_assoc]
  refine perm_middle.trans ?_
  rw [append_assoc]

theorem GraphOwned.unlinkLeaf (owned : GraphOwned temps graph heap) (table : GpuvaNode) {leaf : GpuvaNode}
    (mem : leaf ∈ graph.leaves) (index : Nat) : GraphOwned temps (unlinkLeaf table leaf index graph) (heap.freeNode leaf.id) := by
  refine owned.unlink ?_ (serials_setSlot ..) rfl rfl rfl
  simp only [nodeSerials,GpuvaModel.unlinkLeaf,serials_setSlot]
  have less := serials_without owned.ids.2.2.1 (mem_map_of_mem mem)
  refine (List.Perm.append_right _ (List.Perm.append_left _ less)).trans ?_
  rw [append_assoc (_ ++ _) (_ :: _),cons_append,append_assoc (_ ++ _) (serials (without _ _))]
  exact perm_middle

theorem GraphOwned.linkBacking (owned : GraphOwned (block :: temps) graph heap) (backing : GpuvaNode) (registry : GpuvaRegistry) :
    GraphOwned temps (linkBacking backing ⟨graph,registry⟩).graph (heap.link graph.linked block) := by
  refine owned.link ?_ rfl rfl rfl rfl
  exact perm_middle

theorem GraphOwned.unlinkBacking (owned : GraphOwned temps graph heap) {backing : GpuvaNode} (mem : backing ∈ graph.backings)
    (registry : GpuvaRegistry) : GraphOwned temps (releaseGrant backing ⟨graph,registry⟩).graph (heap.freeNode backing.id) := by
  refine owned.unlink ?_ rfl rfl rfl rfl
  have less := serials_without owned.ids.2.2.2 (mem_map_of_mem mem)
  exact (List.Perm.append_left _ less).trans perm_middle

theorem GraphOwned.removeTable (owned : GraphOwned temps graph heap) {table : GpuvaNode} (mem : table.id ∈ serials graph.tables) :
    GraphOwned temps (removeTable table graph) (heap.freeTable table.id) := by
  have less := serials_without owned.ids.1 mem
  refine owned.unlinkTable ?_ less rfl rfl rfl
  refine (List.Perm.append_right _ (List.Perm.append_right _ (List.Perm.append_right _ less))).trans ?_
  exact .refl _

end WindowsOnM1.GpuvaLedger
