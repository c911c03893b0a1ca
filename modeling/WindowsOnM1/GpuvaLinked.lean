import WindowsOnM1.HashChains
import WindowsOnM1.GpuvaMoves

/-!
The pointers of a graph. Every edge and every leaf is under a table that is there, the
slots, the hint and the root pointer refer to nodes that are there, and the chains of the
buckets hold exactly the backings. Every move keeps this.
-/
namespace WindowsOnM1.GpuvaLinked
open HashChains GpuvaModel GpuvaLists GpuvaMoves List

variable {allows : Allows}

/-- An edge leads from a table to one of the next level. -/
def Leads (tables : List GpuvaNode) (edge : GpuvaNode) : Prop :=
  ∃ table ∈ tables, ∃ child ∈ tables, edge.ipa = table.ipa ∧ edge.index < entryCount table.level ∧
    child.level = table.level + 1 ∧ edge.auxIpa = child.ipa ∧ edge.childTable = some child.id

/-- A leaf is in a table of the last level. -/
def Placed (tables : List GpuvaNode) (leaf : GpuvaNode) : Prop :=
  leaf.auxIpa ≠ 0 ∧ ∃ table ∈ tables, leaf.ipa = table.ipa ∧ table.level = 2 ∧ leaf.index < 2048

/-- The tables with their edges and leaves. -/
structure TreeLinked (graph : GpuvaGraph) : Prop where
  tableIds : Ids graph.tables
  parentIds : Ids graph.parents
  leafIds : Ids graph.leaves
  oldTables : ∀ item ∈ graph.tables, item.id < graph.linked
  oldParents : ∀ item ∈ graph.parents, item.id < graph.linked
  oldLeaves : ∀ item ∈ graph.leaves, item.id < graph.linked
  addresses : Addresses graph.tables
  real : ∀ table ∈ graph.tables, table.ipa ≠ 0 ∧ table.level ≤ 2
  parentKeys : Keys graph.parents
  leafKeys : Keys graph.leaves
  leads : ∀ edge ∈ graph.parents, Leads graph.tables edge
  placed : ∀ leaf ∈ graph.leaves, Placed graph.tables leaf
  parentSlots : Slots False graph.tables graph.parents
  leafSlots : Slots True graph.tables graph.leaves
  hint : ∀ id, graph.tableHint = some id → ∃ table ∈ graph.tables, table.id = id
  root : graph.created = true →
    ∃ table ∈ graph.tables, table.ipa = graph.rootIpa ∧ table.level = 0 ∧ graph.rootTable = some table.id
  gone : graph.created = false → graph.tables = [] ∧ graph.parents = [] ∧ graph.leaves = []
  unrooted : graph.created = false → graph.rootTable = none

/-- The chains of the buckets hold exactly the listed backings, each in its bucket. -/
structure BackingsLinked (graph : GpuvaGraph) : Prop where
  chains : Chained (fun item : GpuvaNode => item.id) (fun item => item.ipa) bucket graph.backings graph.backingBuckets
  old : ∀ item ∈ graph.backings, item.id < graph.linked
  gone : graph.created = false → graph.backings = []

structure Linked (graph : GpuvaGraph) : Prop where
  tree : TreeLinked graph
  backings : BackingsLinked graph

variable {tables : List GpuvaNode}

theorem Leads.mono {tables' : List GpuvaNode} {edge : GpuvaNode} (leads : Leads tables edge)
    (kept : ∀ table ∈ tables, table.ipa = edge.ipa ∨ table.ipa = edge.auxIpa →
      ∃ table' ∈ tables', table'.id = table.id ∧ table'.ipa = table.ipa ∧ table'.level = table.level) : Leads tables' edge := by
  obtain ⟨table,mem,child,childIn,ipa,inside,level,aux,points⟩ := leads
  obtain ⟨table',mem',_,ipa',level'⟩ := kept table mem (.inl ipa.symm)
  obtain ⟨child',childIn',id',childIpa,childLevel⟩ := kept child childIn (.inr aux.symm)
  exact ⟨table',mem',child',childIn',ipa.trans ipa'.symm,level' ▸ inside,by rw [childLevel,level',level],
    aux.trans childIpa.symm,by rw [id',points]⟩

theorem Placed.mono {tables' : List GpuvaNode} {leaf : GpuvaNode} (placed : Placed tables leaf)
    (kept : ∀ table ∈ tables, table.ipa = leaf.ipa →
      ∃ table' ∈ tables', table'.id = table.id ∧ table'.ipa = table.ipa ∧ table'.level = table.level) : Placed tables' leaf := by
  obtain ⟨real,table,mem,ipa,level,inside⟩ := placed
  obtain ⟨table',mem',_,ipa',level'⟩ := kept table mem ipa.symm
  exact ⟨real,table',mem',ipa.trans ipa'.symm,level'.trans level,inside⟩

variable {table : GpuvaNode}

theorem setSlot_exists (id index : Nat) (target : Option Nat)
    (mem : table ∈ tables) : ∃ table' ∈ setSlot tables id index target,
      table'.id = table.id ∧ table'.ipa = table.ipa ∧ table'.level = table.level := by
  refine ⟨_,mem_setSlot.mpr ⟨table,mem,rfl⟩,?_⟩
  split_ifs <;> exact ⟨rfl,rfl,rfl⟩

theorem setSlot_old {id index : Nat} {target : Option Nat}
    (mem : table ∈ setSlot tables id index target) : ∃ old ∈ tables,
      table.id = old.id ∧ table.ipa = old.ipa ∧ table.level = old.level := by
  obtain ⟨old,there,rfl⟩ := mem_setSlot.mp mem
  refine ⟨old,there,?_⟩
  split_ifs <;> exact ⟨rfl,rfl,rfl⟩

namespace TreeLinked

variable {graph : GpuvaGraph} (linked : TreeLinked graph)
include linked

variable {table : GpuvaNode}

theorem edge_table {edge : GpuvaNode} (edgeIn : edge ∈ graph.parents) (mem : table ∈ graph.tables)
    (under : edge.ipa = table.ipa) : table.level < 2 ∧ edge.index < entryCount table.level ∧
      ∃ child ∈ graph.tables, child.level = table.level + 1 ∧ edge.auxIpa = child.ipa ∧ edge.childTable = some child.id := by
  obtain ⟨table',mem',child,childIn,ipa,inside,level,aux,points⟩ := linked.leads edge edgeIn
  have same := linked.addresses.eq mem mem' (under.symm.trans ipa)
  subst same
  have small := (linked.real child childIn).2
  exact ⟨by omega,inside,child,childIn,level,aux,points⟩

theorem setSlot_fields (id index : Nat) (target : Option Nat) :
    Ids (setSlot graph.tables id index target) ∧ Addresses (setSlot graph.tables id index target) ∧
      (∀ item ∈ setSlot graph.tables id index target, item.id < graph.linked) ∧
      (∀ table ∈ setSlot graph.tables id index target, table.ipa ≠ 0 ∧ table.level ≤ 2) := by
  refine ⟨linked.tableIds.modify id (fun _ => rfl),?_,fun item mem => ?_,fun table mem => ?_⟩
  · rw [Addresses,map_setSlot _ _ _ _ (fun table => table.ipa) (fun _ _ => rfl)]
    exact linked.addresses
  · obtain ⟨old,there,same,_⟩ := setSlot_old mem
    rw [same]
    exact linked.oldTables old there
  obtain ⟨old,there,_,ipa,level⟩ := setSlot_old mem
  rw [ipa,level]
  exact linked.real old there

theorem of_same {graph' : GpuvaGraph} (tables : graph'.tables = graph.tables) (parents : graph'.parents = graph.parents)
    (leaves : graph'.leaves = graph.leaves) (count : graph.linked ≤ graph'.linked) (rootIpa : graph'.rootIpa = graph.rootIpa)
    (rootTable : graph'.rootTable = graph.rootTable) (created : graph'.created = graph.created)
    (hint : ∀ id, graph'.tableHint = some id → graph.tableHint = some id ∨ ∃ table ∈ graph.tables, table.id = id) :
    TreeLinked graph' where
  tableIds := tables ▸ linked.tableIds
  parentIds := parents ▸ linked.parentIds
  leafIds := leaves ▸ linked.leafIds
  oldTables := fun item mem => (linked.oldTables item (tables ▸ mem)).trans_le count
  oldParents := fun item mem => (linked.oldParents item (parents ▸ mem)).trans_le count
  oldLeaves := fun item mem => (linked.oldLeaves item (leaves ▸ mem)).trans_le count
  addresses := tables ▸ linked.addresses
  real := tables ▸ linked.real
  parentKeys := parents ▸ linked.parentKeys
  leafKeys := leaves ▸ linked.leafKeys
  leads := fun edge mem => tables ▸ linked.leads edge (parents ▸ mem)
  placed := fun leaf mem => tables ▸ linked.placed leaf (leaves ▸ mem)
  parentSlots := by rw [tables,parents]; exact linked.parentSlots
  leafSlots := by rw [tables,leaves]; exact linked.leafSlots
  hint := by
    intro id isHint
    rw [tables]
    rcases hint id isHint with old | inside
    · exact linked.hint id old
    exact inside
  root := by rw [tables,rootIpa,rootTable,created]; exact linked.root
  gone := by rw [tables,parents,leaves,created]; exact linked.gone
  unrooted := by rw [rootTable,created]; exact linked.unrooted

variable {ipa : U64}

theorem linkTable {level : Nat} (present : graph.created = true) (nonzero : ipa ≠ 0) (small : level ≤ 2)
    (free : ∀ table ∈ graph.tables, table.ipa ≠ ipa) : TreeLinked (GpuvaModel.linkTable ipa level graph) := by
  have kept : ∀ table ∈ graph.tables, ∃ table' ∈ (GpuvaModel.linkTable ipa level graph).tables,
      table'.id = table.id ∧ table'.ipa = table.ipa ∧ table'.level = table.level :=
    fun table mem => ⟨table,mem_cons_of_mem _ mem,rfl,rfl,rfl⟩
  refine { linked with
    tableIds := linked.tableIds.push linked.oldTables
    oldTables := ?_
    oldParents := fun item mem => (linked.oldParents item mem).trans (Nat.lt_succ_self _)
    oldLeaves := fun item mem => (linked.oldLeaves item mem).trans (Nat.lt_succ_self _)
    addresses := linked.addresses.push free
    real := ?_
    leads := fun edge mem => (linked.leads edge mem).mono (fun table there _ => kept table there)
    placed := fun leaf mem => (linked.placed leaf mem).mono (fun table there _ => kept table there)
    parentSlots := linked.parentSlots.addTable (fun _ => rfl) (fun edge mem same => ?_)
    leafSlots := linked.leafSlots.addTable (fun _ => rfl) (fun leaf mem same => ?_)
    hint := fun id isHint => ?_
    root := fun _ => ?_
    gone := fun absent => ?_ }
  · intro item mem
    rcases mem_cons.mp mem with rfl | old
    · exact Nat.lt_succ_self _
    exact (linked.oldTables item old).trans (Nat.lt_succ_self _)
  · intro table mem
    rcases mem_cons.mp mem with rfl | old
    · exact ⟨nonzero,small⟩
    exact linked.real table old
  · obtain ⟨table,there,_,_,under,_⟩ := linked.leads edge mem
    exact free table there (under.symm.trans same)
  · obtain ⟨_,table,there,under,_⟩ := linked.placed leaf mem
    exact free table there (under.symm.trans same)
  · obtain ⟨table,there,same⟩ := linked.hint id isHint
    exact ⟨table,mem_cons_of_mem _ there,same⟩
  · obtain ⟨table,there,rest⟩ := linked.root present
    exact ⟨table,mem_cons_of_mem _ there,rest⟩
  exact absurd (present.symm.trans absent) (by decide)

theorem linkRoot (absent : graph.created = false) (nonzero : ipa ≠ 0) : TreeLinked (GpuvaMoves.linkRoot ipa graph) := by
  obtain ⟨noTables,noParents,noLeaves⟩ := linked.gone absent
  have noHint : graph.tableHint = none := by
    cases hint : graph.tableHint with
    | none => rfl
    | some id =>
    obtain ⟨table,there,_⟩ := linked.hint id hint
    rw [noTables] at there
    exact absurd there not_mem_nil
  refine { linked with
    tableIds := linked.tableIds.push linked.oldTables
    oldTables := ?_
    oldParents := fun item mem => (linked.oldParents item mem).trans (Nat.lt_succ_self _)
    oldLeaves := fun item mem => (linked.oldLeaves item mem).trans (Nat.lt_succ_self _)
    addresses := linked.addresses.push (by rw [noTables]; exact fun _ bad => absurd bad not_mem_nil)
    real := ?_
    leads := fun edge mem => ?_
    placed := fun leaf mem => ?_
    parentSlots := linked.parentSlots.addTable (fun _ => rfl) (fun edge mem => ?_)
    leafSlots := linked.leafSlots.addTable (fun _ => rfl) (fun leaf mem => ?_)
    hint := fun id isHint => ?_
    root := fun _ => ⟨_,mem_cons_self,rfl,rfl,rfl⟩
    gone := nofun
    unrooted := fun absent => by cases absent }
  · intro item mem
    rcases mem_cons.mp mem with rfl | old
    · exact Nat.lt_succ_self _
    exact (linked.oldTables item old).trans (Nat.lt_succ_self _)
  · intro table mem
    rcases mem_cons.mp mem with rfl | old
    · exact ⟨nonzero,Nat.zero_le _⟩
    exact linked.real table old
  · simp [GpuvaMoves.linkRoot,noParents] at mem
  · simp [GpuvaMoves.linkRoot,noLeaves] at mem
  · simp [noParents] at mem
  · simp [noLeaves] at mem
  simp [GpuvaMoves.linkRoot,noHint] at isHint

theorem removeTable (present : graph.created = true) (mem : table ∈ graph.tables)
    (notRoot : table.ipa ≠ graph.rootIpa)
    (unlinked : ∀ edge ∈ graph.parents, edge.ipa ≠ table.ipa ∧ edge.auxIpa ≠ table.ipa)
    (empty : ∀ leaf ∈ graph.leaves, leaf.ipa ≠ table.ipa) : TreeLinked (GpuvaModel.removeTable table graph) := by
  have kept : ∀ other ∈ graph.tables, other.ipa ≠ table.ipa →
      ∃ other' ∈ without graph.tables table.id, other'.id = other.id ∧ other'.ipa = other.ipa ∧ other'.level = other.level := by
    intro other there apart
    refine ⟨other,mem_without.mpr ⟨there,fun same => apart ?_⟩,rfl,rfl,rfl⟩
    rw [linked.tableIds.eq there mem same]
  refine { linked with
    tableIds := linked.tableIds.without _
    oldTables := fun item there => linked.oldTables item (mem_without.mp there).1
    addresses := linked.addresses.without _
    real := fun item there => linked.real item (mem_without.mp there).1
    leads := fun edge there => (linked.leads edge there).mono (fun other inside which => kept other inside ?_)
    placed := fun leaf there => (linked.placed leaf there).mono (fun other inside which => kept other inside ?_)
    parentSlots := linked.parentSlots.removeTable _
    leafSlots := linked.leafSlots.removeTable _
    hint := fun id isHint => ?_
    root := fun isCreated => ?_
    gone := fun absent => ?_ }
  · rcases which with isTable | isChild
    · rw [isTable]; exact (unlinked edge there).1
    rw [isChild]; exact (unlinked edge there).2
  · rw [which]; exact empty leaf there
  · simp only [GpuvaModel.removeTable,hintWithout] at isHint ⊢
    split_ifs at isHint with wasHint
    obtain ⟨other,there,same⟩ := linked.hint id isHint
    refine ⟨other,mem_without.mpr ⟨there,fun isTable => wasHint ?_⟩,same⟩
    rw [isHint,← same,isTable]
  · obtain ⟨root,there,isRoot,level,pointer⟩ := linked.root isCreated
    refine ⟨root,mem_without.mpr ⟨there,fun same => notRoot ?_⟩,isRoot,level,pointer⟩
    rw [← isRoot,linked.tableIds.eq there mem same]
  exact absurd (present.symm.trans absent) (by decide)

theorem moveRoot (present : graph.created = true) (mem : table ∈ graph.tables)
    (isRoot : table.level = 0) : TreeLinked { graph with rootIpa := table.ipa, rootTable := some table.id } :=
  { linked with
    root := fun _ => ⟨table,mem,rfl,isRoot,rfl⟩
    gone := fun absent => absurd (present.symm.trans absent) (by decide)
    unrooted := fun absent => absurd (present.symm.trans absent) (by decide) }

theorem setSlot_pointers (id index : Nat) (target : Option Nat) :
    (∀ hint, graph.tableHint = some hint → ∃ table ∈ setSlot graph.tables id index target, table.id = hint) ∧
      (graph.created = true → ∃ table ∈ setSlot graph.tables id index target,
        table.ipa = graph.rootIpa ∧ table.level = 0 ∧ graph.rootTable = some table.id) := by
  constructor
  · intro hint isHint
    obtain ⟨table,there,same⟩ := linked.hint hint isHint
    obtain ⟨table',there',same',_⟩ := setSlot_exists id index target there
    exact ⟨table',there',same'.trans same⟩
  intro isCreated
  obtain ⟨table,there,ipa,level,pointer⟩ := linked.root isCreated
  obtain ⟨table',there',same,ipa',level'⟩ := setSlot_exists id index target there
  exact ⟨table',there',ipa'.trans ipa,level'.trans level,by rw [pointer,same]⟩

variable {index : Nat}

theorem linkChild {parent child : GpuvaNode} (present : graph.created = true)
    (parentIn : parent ∈ graph.tables) (childIn : child ∈ graph.tables) (level : child.level = parent.level + 1)
    (inside : index < entryCount parent.level)
    (free : ∀ edge ∈ graph.parents, ¬ (edge.ipa = parent.ipa ∧ edge.index = index)) :
    TreeLinked (GpuvaModel.linkChild parent child index graph) := by
  have small := (linked.real child childIn).2
  obtain ⟨tableIds,addresses,oldTables,real⟩ := linked.setSlot_fields parent.id index (some graph.linked)
  obtain ⟨hint,root⟩ := linked.setSlot_pointers parent.id index (some graph.linked)
  have kept := fun table (mem : table ∈ graph.tables) => setSlot_exists parent.id index (some graph.linked) mem
  refine { linked with
    tableIds := tableIds
    parentIds := linked.parentIds.push linked.oldParents
    oldTables := fun item mem => (oldTables item mem).trans (Nat.lt_succ_self _)
    oldParents := ?_
    oldLeaves := fun item mem => (linked.oldLeaves item mem).trans (Nat.lt_succ_self _)
    addresses := addresses
    real := real
    parentKeys := linked.parentKeys.push free
    leads := ?_
    placed := fun leaf mem => (linked.placed leaf mem).mono (fun table there _ => kept table there)
    parentSlots := linked.parentSlots.push linked.addresses linked.tableIds
      ⟨graph.linked,parent.ipa,child.ipa,0,index,0,0,false,false,none,.Local,fun _ => none,some child.id⟩ parentIn rfl free
    leafSlots := linked.leafSlots.other linked.tableIds parentIn (by simp; omega) _ _
    hint := hint
    root := root
    gone := fun absent => absurd (present.symm.trans absent) (by decide) }
  · intro item mem
    rcases mem_cons.mp mem with rfl | old
    · exact Nat.lt_succ_self _
    exact (linked.oldParents item old).trans (Nat.lt_succ_self _)
  intro edge mem
  rcases mem_cons.mp mem with rfl | old
  · obtain ⟨parent',parentIn',_,parentIpa,parentLevel⟩ := kept parent parentIn
    obtain ⟨child',childIn',childId,childIpa,childLevel⟩ := kept child childIn
    exact ⟨parent',parentIn',child',childIn',parentIpa.symm,parentLevel ▸ inside,
      by rw [childLevel,parentLevel,level],childIpa.symm,by rw [childId]⟩
  exact (linked.leads edge old).mono (fun table there _ => kept table there)

theorem relinkChild {parent child edge : GpuvaNode} (parentIn : parent ∈ graph.tables) (childIn : child ∈ graph.tables)
    (level : child.level = parent.level + 1) (edgeIn : edge ∈ graph.parents) (under : edge.ipa = parent.ipa) :
    TreeLinked (GpuvaModel.relinkChild edge child graph) := by
  refine { linked with
    parentIds := linked.parentIds.modify _ (fun _ => rfl)
    oldParents := fun item mem => ?_
    parentKeys := linked.parentKeys.modify _ (fun _ => ⟨rfl,rfl⟩)
    leads := fun item mem => ?_
    parentSlots := linked.parentSlots.modify _ (fun _ => ⟨rfl,rfl,rfl⟩)
    gone := fun absent => ?_ }
  · obtain ⟨old,there,rfl⟩ := mem_modifyNode.mp mem
    have older := linked.oldParents old there
    split_ifs <;> exact older
  · obtain ⟨old,there,rfl⟩ := mem_modifyNode.mp mem
    split_ifs with isEdge
    · have same := linked.parentIds.eq there edgeIn isEdge
      subst same
      exact ⟨parent,parentIn,child,childIn,under,(linked.edge_table edgeIn parentIn under).2.1,level,rfl,rfl⟩
    exact linked.leads old there
  have noParents := (linked.gone absent).2.1
  rw [noParents] at edgeIn
  exact absurd edgeIn not_mem_nil

theorem unlinkChild {parent edge : GpuvaNode} (present : graph.created = true) (parentIn : parent ∈ graph.tables)
    (edgeIn : edge ∈ graph.parents) (under : edge.ipa = parent.ipa) :
    TreeLinked (GpuvaModel.unlinkChild parent edge edge.index graph) := by
  obtain ⟨small,_,_⟩ := linked.edge_table edgeIn parentIn under
  obtain ⟨tableIds,addresses,oldTables,real⟩ := linked.setSlot_fields parent.id edge.index none
  obtain ⟨hint,root⟩ := linked.setSlot_pointers parent.id edge.index none
  have kept := fun table (mem : table ∈ graph.tables) => setSlot_exists parent.id edge.index none mem
  refine { linked with
    tableIds := tableIds
    parentIds := linked.parentIds.without _
    oldTables := oldTables
    oldParents := fun item mem => linked.oldParents item (mem_without.mp mem).1
    addresses := addresses
    real := real
    parentKeys := linked.parentKeys.without _
    leads := fun item mem => (linked.leads item (mem_without.mp mem).1).mono (fun table there _ => kept table there)
    placed := fun leaf mem => (linked.placed leaf mem).mono (fun table there _ => kept table there)
    parentSlots := linked.parentSlots.pop linked.addresses linked.tableIds linked.parentIds linked.parentKeys parentIn
      edgeIn under
    leafSlots := linked.leafSlots.other linked.tableIds parentIn (by simp; omega) _ _
    hint := fun id isHint => ?_
    root := root
    gone := fun absent => absurd (present.symm.trans absent) (by decide) }
  simp only [GpuvaModel.unlinkChild,hintWithout] at isHint
  split_ifs at isHint
  exact hint id isHint

variable {target : LeafTarget}

theorem linkLeaf {backing : GpuvaNode} (present : graph.created = true)
    (tableIn : table ∈ graph.tables) (isLeafTable : table.level = 2) (inside : index < 2048)
    (nonzero : target.guestIpa ≠ 0) (free : ∀ leaf ∈ graph.leaves, ¬ (leaf.ipa = table.ipa ∧ leaf.index = index)) :
    TreeLinked (GpuvaModel.linkLeaf table backing index target graph) := by
  obtain ⟨tableIds,addresses,oldTables,real⟩ := linked.setSlot_fields table.id index (some graph.linked)
  obtain ⟨hint,root⟩ := linked.setSlot_pointers table.id index (some graph.linked)
  have kept := fun table' (mem : table' ∈ graph.tables) => setSlot_exists table.id index (some graph.linked) mem
  refine { linked with
    tableIds := tableIds
    leafIds := linked.leafIds.push linked.oldLeaves
    oldTables := fun item mem => (oldTables item mem).trans (Nat.lt_succ_self _)
    oldParents := fun item mem => (linked.oldParents item mem).trans (Nat.lt_succ_self _)
    oldLeaves := ?_
    addresses := addresses
    real := real
    leafKeys := linked.leafKeys.push free
    leads := fun edge mem => (linked.leads edge mem).mono (fun table' there _ => kept table' there)
    placed := ?_
    parentSlots := linked.parentSlots.other linked.tableIds tableIn (by simp [isLeafTable]) _ _
    leafSlots := linked.leafSlots.push linked.addresses linked.tableIds ⟨graph.linked,table.ipa,target.guestIpa,
      backing.generation,index,0,0,target.writable,false,none,target.kind,fun _ => none,none⟩ tableIn rfl free
    hint := hint
    root := root
    gone := fun absent => absurd (present.symm.trans absent) (by decide) }
  · intro item mem
    rcases mem_cons.mp mem with rfl | old
    · exact Nat.lt_succ_self _
    exact (linked.oldLeaves item old).trans (Nat.lt_succ_self _)
  intro leaf mem
  rcases mem_cons.mp mem with rfl | old
  · obtain ⟨table',tableIn',_,ipa,level⟩ := kept table tableIn
    exact ⟨nonzero,table',tableIn',ipa.symm,level.trans isLeafTable,inside⟩
  exact (linked.placed leaf old).mono (fun table' there _ => kept table' there)

theorem relinkLeaf {leaf backing : GpuvaNode} (leafIn : leaf ∈ graph.leaves)
    (nonzero : target.guestIpa ≠ 0) : TreeLinked (GpuvaModel.relinkLeaf leaf backing target graph) := by
  refine { linked with
    leafIds := linked.leafIds.modify _ (fun _ => rfl)
    oldLeaves := fun item mem => ?_
    leafKeys := linked.leafKeys.modify _ (fun _ => ⟨rfl,rfl⟩)
    placed := fun item mem => ?_
    leafSlots := linked.leafSlots.modify _ (fun _ => ⟨rfl,rfl,rfl⟩)
    gone := fun absent => ?_ }
  · obtain ⟨old,there,rfl⟩ := mem_modifyNode.mp mem
    have older := linked.oldLeaves old there
    split_ifs <;> exact older
  · obtain ⟨old,there,rfl⟩ := mem_modifyNode.mp mem
    obtain ⟨real,place⟩ := linked.placed old there
    split_ifs
    · exact ⟨nonzero,place⟩
    exact ⟨real,place⟩
  have noLeaves := (linked.gone absent).2.2
  rw [noLeaves] at leafIn
  exact absurd leafIn not_mem_nil

theorem unlinkLeaf {leaf : GpuvaNode} (present : graph.created = true) (tableIn : table ∈ graph.tables)
    (isLeafTable : table.level = 2) (leafIn : leaf ∈ graph.leaves) (under : leaf.ipa = table.ipa) :
    TreeLinked (GpuvaModel.unlinkLeaf table leaf leaf.index graph) := by
  obtain ⟨tableIds,addresses,oldTables,real⟩ := linked.setSlot_fields table.id leaf.index none
  obtain ⟨hint,root⟩ := linked.setSlot_pointers table.id leaf.index none
  have kept := fun table' (mem : table' ∈ graph.tables) => setSlot_exists table.id leaf.index none mem
  refine { linked with
    tableIds := tableIds
    leafIds := linked.leafIds.without _
    oldTables := oldTables
    oldLeaves := fun item mem => linked.oldLeaves item (mem_without.mp mem).1
    addresses := addresses
    real := real
    leafKeys := linked.leafKeys.without _
    leads := fun edge mem => (linked.leads edge mem).mono (fun table' there _ => kept table' there)
    placed := fun item mem => (linked.placed item (mem_without.mp mem).1).mono (fun table' there _ => kept table' there)
    parentSlots := linked.parentSlots.other linked.tableIds tableIn (by simp [isLeafTable]) _ _
    leafSlots := linked.leafSlots.pop linked.addresses linked.tableIds linked.leafIds linked.leafKeys tableIn leafIn under
    hint := fun id isHint => ?_
    root := root
    gone := fun absent => absurd (present.symm.trans absent) (by decide) }
  simp only [GpuvaModel.unlinkLeaf,hintWithout] at isHint
  split_ifs at isHint
  exact hint id isHint

end TreeLinked

theorem TreeLinked.destroyed {graph : GpuvaGraph} (tables : graph.tables = []) (parents : graph.parents = [])
    (leaves : graph.leaves = []) (hint : graph.tableHint = none) (created : graph.created = false)
    (root : graph.rootTable = none) : TreeLinked graph where
  tableIds := by rw [tables]; exact nodup_nil
  parentIds := by rw [parents]; exact nodup_nil
  leafIds := by rw [leaves]; exact nodup_nil
  oldTables := by rw [tables]; exact fun _ bad => absurd bad not_mem_nil
  oldParents := by rw [parents]; exact fun _ bad => absurd bad not_mem_nil
  oldLeaves := by rw [leaves]; exact fun _ bad => absurd bad not_mem_nil
  addresses := by rw [tables]; exact nodup_nil
  real := by rw [tables]; exact fun _ bad => absurd bad not_mem_nil
  parentKeys := by rw [parents]; exact nodup_nil
  leafKeys := by rw [leaves]; exact nodup_nil
  leads := by rw [parents]; exact fun _ bad => absurd bad not_mem_nil
  placed := by rw [leaves]; exact fun _ bad => absurd bad not_mem_nil
  parentSlots := by rw [tables]; exact fun _ bad => absurd bad not_mem_nil
  leafSlots := by rw [tables]; exact fun _ bad => absurd bad not_mem_nil
  hint := by rw [hint]; rintro _ ⟨⟩
  root := by rw [created]; rintro ⟨⟩
  gone := fun _ => ⟨tables,parents,leaves⟩
  unrooted := fun _ => root

namespace BackingsLinked

variable {graph : GpuvaGraph} (linked : BackingsLinked graph)
include linked

theorem ids : Ids graph.backings := linked.chains.serials

variable {graph' : GpuvaGraph}

theorem of_same (backings : graph'.backings = graph.backings)
    (buckets : graph'.backingBuckets = graph.backingBuckets) (count : graph.linked ≤ graph'.linked)
    (created : graph'.created = false → graph.created = false) : BackingsLinked graph' where
  chains := by rw [backings,buckets]; exact linked.chains
  old := fun item mem => (linked.old item (backings ▸ mem)).trans_le count
  gone := fun absent => backings ▸ linked.gone (created absent)

variable {ipa : U64} {backing : GpuvaNode}

theorem findBacking_iff : findBacking graph ipa = some backing ↔ backing ∈ graph.backings ∧ backing.ipa = ipa := linked.chains.search_iff
theorem findBacking_none (missing : findBacking graph ipa = none) : ∀ backing ∈ graph.backings, backing.ipa ≠ ipa := linked.chains.search_none missing

theorem modify {id : Nat} {change : GpuvaNode → GpuvaNode}
    (backings : graph'.backings = modifyNode graph.backings id change)
    (keeps : ∀ backing, (change backing).id = backing.id ∧ (change backing).ipa = backing.ipa)
    (buckets : graph'.backingBuckets = graph.backingBuckets) (count : graph.linked ≤ graph'.linked)
    (created : graph'.created = graph.created) : BackingsLinked graph' := by
  have place : ∀ backing : GpuvaNode, (if backing.id = id then change backing else backing).id = backing.id ∧
      (if backing.id = id then change backing else backing).ipa = backing.ipa := by
    intro backing
    split_ifs
    · exact keeps backing
    exact ⟨rfl,rfl⟩
  refine ⟨?_,fun item mem => ?_,fun absent => ?_⟩
  · rw [backings,buckets]
    exact linked.chains.map place
  · rw [backings] at mem
    obtain ⟨old,there,rfl⟩ := mem_modifyNode.mp mem
    rw [(place old).1]
    exact (linked.old old there).trans_le count
  rw [backings,linked.gone (created ▸ absent)]
  rfl

variable {registry : GpuvaRegistry}

theorem linkBacking (present : graph.created = true) (free : ∀ other ∈ graph.backings, other.ipa ≠ backing.ipa) :
    BackingsLinked (GpuvaModel.linkBacking backing ⟨graph,registry⟩).graph := by
  refine ⟨?_,fun item mem => ?_,fun absent => absurd (present.symm.trans absent) (by decide)⟩
  · exact linked.chains.push { backing with id := graph.linked } (fun item mem => Nat.ne_of_lt (linked.old item mem))
      free
  rcases mem_cons.mp mem with rfl | old
  · exact Nat.lt_succ_self _
  exact (linked.old item old).trans (Nat.lt_succ_self _)

theorem releaseGrant (mem : backing ∈ graph.backings) :
    BackingsLinked (GpuvaModel.releaseGrant backing ⟨graph,registry⟩).graph := by
  refine ⟨linked.chains.remove mem,fun item there => linked.old item (mem_without.mp there).1,fun absent => ?_⟩
  rw [linked.gone absent] at mem
  exact absurd mem not_mem_nil

end BackingsLinked

theorem linked_sent {graph : GpuvaGraph} (linked : Linked graph) (request : Request) (response : Option Response) :
    Linked (sent graph request response) := ⟨{ linked.tree with },{ linked.backings with }⟩
theorem linked_quiet {graph graph' : GpuvaGraph} (linked : Linked graph) (quiet : Quiet graph graph') : Linked graph' := by
  obtain ⟨_,_,_,_,_,_,_,_,rfl,hint⟩ := quiet
  exact ⟨linked.tree.of_same rfl rfl rfl (Nat.le_refl _) rfl rfl rfl hint,{ linked.backings with }⟩

private theorem linked_change {before after : Option Nat × GpuvaState} (change : Change allows before after)
    (linked : Linked before.2.graph) : Linked after.2.graph := by
  cases change with
  | refused request answer | flushed request => exact linked_sent linked _ _
  | created ipa flags _ absent nonzero =>
    obtain ⟨tree,backings⟩ := linked_sent linked { command := .Create, tableIpa := ipa, flags := flags } (some _)
    exact ⟨tree.linkRoot absent nonzero,backings.of_same rfl rfl (Nat.le_succ _) (by rintro ⟨⟩)⟩
  | tableLinked ipa level _ present nonzero small free =>
    obtain ⟨tree,backings⟩ := linked_sent linked { command := .RegisterTable, auxIpa := ipa, index := level } (some _)
    exact ⟨tree.linkTable present nonzero small free,backings.of_same rfl rfl (Nat.le_succ _) id⟩
  | @tableRemoved _ _ _ _ table _ present mem notRoot unlinked empty =>
    obtain ⟨tree,backings⟩ := linked_sent linked (revokeTableRequest table) (some _)
    exact ⟨tree.removeTable present mem notRoot unlinked empty,{ backings with }⟩
  | @rootMoved _ _ _ _ table _ _ present mem isRoot =>
    obtain ⟨tree,backings⟩ := linked_sent linked { command := .RelocateRoot, tableIpa := table.ipa } (some _)
    exact ⟨tree.moveRoot present mem isRoot,{ backings with }⟩
  | @childLinked _ _ _ _ parent child index _ present _ parentIn childIn level inside free =>
    obtain ⟨tree,backings⟩ := linked_sent linked (parentRequest parent.ipa index child.ipa) (some _)
    exact ⟨tree.linkChild present parentIn childIn level inside free,backings.of_same rfl rfl (Nat.le_succ _) id⟩
  | @childRelinked _ _ _ _ parent child edge _ present _ parentIn childIn level edgeIn under =>
    obtain ⟨tree,backings⟩ := linked_sent linked (parentRequest parent.ipa edge.index child.ipa) (some _)
    exact ⟨tree.relinkChild parentIn childIn level edgeIn under,{ backings with }⟩
  | @childUnlinked _ _ _ _ parent edge _ present _ parentIn edgeIn under =>
    obtain ⟨tree,backings⟩ := linked_sent linked (parentRequest parent.ipa edge.index 0) (some _)
    exact ⟨tree.unlinkChild present parentIn edgeIn under,{ backings with }⟩
  | granted request _ present _ free =>
    obtain ⟨tree,backings⟩ := linked_sent linked request (some _)
    exact ⟨tree.of_same rfl rfl rfl (Nat.le_succ _) rfl rfl rfl (fun _ => .inl),backings.linkBacking present free⟩
  | @leafLinked _ _ _ _ table backing index target _ present _ tableIn isLeafTable inside _ _ _ nonzero free =>
    obtain ⟨tree,backings⟩ :=
      linked_sent linked (leafRequest table.ipa index (some (target,backing.generation))) (some _)
    exact ⟨{ tree.linkLeaf present tableIn isLeafTable inside nonzero free with },
      backings.modify rfl (fun _ => ⟨rfl,rfl⟩) rfl (Nat.le_succ _) rfl⟩
  | @leafRewritten _ _ _ leaf backing target _ _ _ leafIn _ _ _ nonzero =>
    obtain ⟨tree,backings⟩ :=
      linked_sent linked (leafRequest leaf.ipa leaf.index (some (target,backing.generation))) (some _)
    exact ⟨tree.relinkLeaf leafIn nonzero,{ backings with }⟩
  | @leafMoved _ graph _ response leaf backing old target _ _ _ leafIn _ _ _ _ nonzero =>
    obtain ⟨tree,backings⟩ :=
      linked_sent linked (leafRequest leaf.ipa leaf.index (some (target,backing.generation))) (some response)
    refine ⟨{ tree.relinkLeaf leafIn nonzero with },?_⟩
    have dropped : BackingsLinked (dropReference old (sent graph
        (leafRequest leaf.ipa leaf.index (some (target,backing.generation))) (some response))) :=
      backings.modify rfl (fun _ => ⟨rfl,rfl⟩) rfl (Nat.le_refl _) rfl
    exact dropped.modify rfl (fun _ => ⟨rfl,rfl⟩) rfl (Nat.le_refl _) rfl
  | @leafUnlinked _ _ _ table leaf old _ present _ tableIn isLeafTable leafIn under =>
    obtain ⟨tree,backings⟩ := linked_sent linked (leafRequest table.ipa leaf.index none) (some _)
    exact ⟨{ tree.unlinkLeaf present tableIn isLeafTable leafIn under with },
      backings.modify rfl (fun _ => ⟨rfl,rfl⟩) rfl (Nat.le_refl _) rfl⟩
  | @revoked _ graph _ _ backing _ _ mem =>
    obtain ⟨tree,backings⟩ := linked_sent linked (revokeRequest backing) (some _)
    refine ⟨tree.of_same rfl rfl rfl (Nat.le_refl _) rfl rfl rfl (fun id isHint => ?_),backings.releaseGrant mem⟩
    simp only [GpuvaModel.releaseGrant,hintWithout] at isHint
    split_ifs at isHint
    exact .inl isHint
  | retained =>
    exact ⟨{ linked.tree with },linked.backings.modify rfl (fun _ => ⟨rfl,rfl⟩) rfl (Nat.le_refl _) rfl⟩
  | settled | frameLinked frame | frameMapped => exact linked
  | destroyed _ _ noLeaves noBackings noParents =>
    refine ⟨.destroyed rfl noParents noLeaves rfl rfl rfl,?_⟩
    exact { linked.backings with gone := fun _ => noBackings }
  | _ => exact ⟨{ linked.tree with },{ linked.backings with }⟩

private theorem move_uncertain {before after : Option Nat × GpuvaState} (move : Move allows before after)
    (uncertain : before.2.graph.uncertain = true) :
    after.2.graph.uncertain = true ∧ after.2.graph.calls = before.2.graph.calls := by
  cases move with
  | quiet quiet =>
    obtain ⟨_,_,_,_,_,_,_,_,rfl,_⟩ := quiet
    exact ⟨uncertain,rfl⟩
  | unmapped => exact ⟨uncertain,rfl⟩
  | poisoned certain | change certain => exact absurd (certain.symm.trans uncertain) (by decide)
  | lost => exact ⟨rfl,rfl⟩

theorem moves_uncertain {before after : Option Nat × GpuvaState} (moves : Moves allows before after)
    (uncertain : before.2.graph.uncertain = true) :
    after.2.graph.uncertain = true ∧ after.2.graph.calls = before.2.graph.calls := by
  induction moves with
  | refl => exact ⟨uncertain,rfl⟩
  | tail _ move ih =>
  obtain ⟨still,calls⟩ := move_uncertain move ih.1
  exact ⟨still,calls.trans ih.2⟩

private theorem move_linked {before after : Option Nat × GpuvaState} (move : Move allows before after)
    (linked : Linked before.2.graph) : Linked after.2.graph := by
  cases move with
  | quiet quiet => exact linked_quiet linked quiet
  | unmapped => exact linked
  | change _ change => exact linked_change change linked
  | _ => exact ⟨{ linked.tree with },{ linked.backings with }⟩

theorem moves_linked {before after : Option Nat × GpuvaState} (moves : Moves allows before after)
    (linked : Linked before.2.graph) : Linked after.2.graph := by
  induction moves with
  | refl => exact linked
  | tail _ move ih => exact move_linked move ih

end WindowsOnM1.GpuvaLinked
