import WindowsOnM1.GpuvaWorld

/-!
The walk over slots and pointers finds what a walk over the lists finds, since every slot
and every pointer refers to the node that the lists have in its place.
-/
namespace WindowsOnM1.GpuvaWalk
open GpuvaModel GpuvaLists GpuvaLinked GpuvaWorld

/-- The edge to the leaf table of an address, found in the lists. -/
def listMiddle (graph : GpuvaGraph) (va : U64) : Option GpuvaNode :=
  (findEdge graph.parents graph.rootIpa (va >>> 36).toNat).bind
    (fun edge => findEdge graph.parents edge.auxIpa (va >>> 25 &&& 2047).toNat)

/-- The leaf of an address, found in the lists. -/
def listLeaf (graph : GpuvaGraph) (va : U64) : Option GpuvaNode :=
  (listMiddle graph va).bind (fun edge => findEdge graph.leaves edge.auxIpa (va >>> 14 &&& 2047).toNat)

/-- The translation of an address by the lists. -/
def listTranslate (graph : GpuvaGraph) (va : U64) : Option U64 :=
  (listLeaf graph va).map (fun leaf => leaf.auxIpa + (va &&& pageMask))

/-- The leaf table of an address by the lists. -/
def listLeafTable (graph : GpuvaGraph) (va : U64) : Option U64 :=
  (listMiddle graph va).map (fun edge => edge.auxIpa)

/-- Every pointer of a graph refers to a node that is there. -/
structure PointersLive (graph : GpuvaGraph) : Prop where
  childTable : ∀ edge ∈ graph.parents, ∃ table ∈ graph.tables, edge.childTable = some table.id ∧ table.ipa = edge.auxIpa
  rootTable : ∀ id, graph.rootTable = some id → ∃ table ∈ graph.tables, table.id = id ∧ table.ipa = graph.rootIpa
  tableHint : ∀ id, graph.tableHint = some id → ∃ table ∈ graph.tables, table.id = id
  slots : ∀ table ∈ graph.tables, ∀ index id, table.slots index = some id →
    ∃ entry ∈ if table.level = 2 then graph.leaves else graph.parents,
      entry.id = id ∧ entry.ipa = table.ipa ∧ entry.index = index

variable {graph : GpuvaGraph}

private theorem pointersLive (linked : Linked graph) : PointersLive graph := by
  have tree := linked.tree
  refine ⟨fun edge mem => ?_,fun id isRoot => ?_,tree.hint,fun table mem index id isSlot => ?_⟩
  · obtain ⟨_,_,child,childIn,_,_,_,aux,points⟩ := tree.leads edge mem
    exact ⟨child,childIn,points,aux.symm⟩
  · cases created : graph.created with
    | false =>
      rw [tree.unrooted created] at isRoot
      cases isRoot
    | true =>
      obtain ⟨table,mem,ipa,_,pointer⟩ := tree.root created
      exact ⟨table,mem,Option.some.inj (pointer.symm.trans isRoot),ipa⟩
  split_ifs with isLeafTable
  · obtain ⟨entry,there,ipa,atIndex,isId⟩ := (tree.leafSlots table mem (by simp [isLeafTable]) index id).mp isSlot
    exact ⟨entry,there,isId,ipa,atIndex⟩
  obtain ⟨entry,there,ipa,atIndex,isId⟩ := (tree.parentSlots table mem (by simp [isLeafTable]) index id).mp isSlot
  exact ⟨entry,there,isId,ipa,atIndex⟩

variable {table : GpuvaNode}

section
variable (linked : Linked graph) (mem : table ∈ graph.tables)
include linked mem

theorem tableAt_mem : tableAt graph (some table.id) = some table := nodeAt_mem linked.tree.tableIds mem
theorem edgeSlot (level : table.level ≠ 2) (index : Nat) :
    (slot (tableAt graph (some table.id)) index).bind (nodeAt graph.parents) = findEdge graph.parents table.ipa index := by
  rw [tableAt_mem linked mem]
  exact linked.tree.parentSlots.find linked.tree.parentIds mem (by simp [level]) index
theorem leafSlot (level : table.level = 2) (index : Nat) :
    (slot (tableAt graph (some table.id)) index).bind (nodeAt graph.leaves) = findEdge graph.leaves table.ipa index := by
  rw [tableAt_mem linked mem]
  exact linked.tree.leafSlots.find linked.tree.leafIds mem (by simp [level]) index

end

variable {va : U64}

private theorem rootIndex_small (small : va < 1 <<< 39) : rootIndex va = (va >>> 36).toNat := by
  have bound : va.toNat < 2 ^ 39 := by simpa using BitVec.lt_def.mp small
  have masked : ((va >>> 36) &&& 7).toNat = (va >>> 36).toNat % 2 ^ 3 := by
    exact Nat.and_two_pow_sub_one_eq_mod _ 3
  rw [rootIndex,masked,BitVec.toNat_ushiftRight,Nat.shiftRight_eq_div_pow]
  omega

section
variable (linked : Linked graph)
include linked

private theorem middleEdge_list (present : graph.created = true)
    (small : va < 1 <<< 39) : middleEdge graph va = listMiddle graph va := by
  obtain ⟨root,rootIn,isRoot,rootLevel,pointer⟩ := linked.tree.root present
  have first : rootEdge graph va = findEdge graph.parents graph.rootIpa (va >>> 36).toNat := by
    rw [rootEdge,pointer,edgeSlot linked rootIn (by omega),isRoot,rootIndex_small small]
  rw [middleEdge,first,listMiddle]
  refine Option.bind_congr (fun edge found => ?_)
  obtain ⟨edgeIn,under,_⟩ := findEdge_some found
  obtain ⟨_,_,child,childIn,childLevel,aux,points⟩ := linked.tree.edge_table edgeIn rootIn (under.trans isRoot.symm)
  rw [points,edgeSlot linked childIn (by omega),← aux]
  rfl

private theorem middleEdge_leaf (present : graph.created = true)
    {edge : GpuvaNode} (found : listMiddle graph va = some edge) : ∃ table ∈ graph.tables,
      table.level = 2 ∧ edge.auxIpa = table.ipa ∧ edge.childTable = some table.id := by
  obtain ⟨root,rootIn,isRoot,rootLevel,_⟩ := linked.tree.root present
  obtain ⟨first,isFirst,isSecond⟩ := Option.bind_eq_some_iff.mp found
  obtain ⟨firstIn,under,_⟩ := findEdge_some isFirst
  obtain ⟨edgeIn,under',_⟩ := findEdge_some isSecond
  obtain ⟨_,_,child,childIn,childLevel,aux,_⟩ := linked.tree.edge_table firstIn rootIn (under.trans isRoot.symm)
  obtain ⟨_,_,table,tableIn,level,aux',points⟩ := linked.tree.edge_table edgeIn childIn (under'.trans aux)
  exact ⟨table,tableIn,by omega,aux',points⟩

/-- In a linked graph that is not uncertain the two walks agree. -/
theorem walk_linked (certain : graph.uncertain = false)
    (small : va < 1 <<< 39) : translateVa graph va = listTranslate graph va ∧
      leafTableIpa graph va = listLeafTable graph va := by
  have inside : ¬ (1 <<< 39 : U64) ≤ va := BitVec.not_le.mpr small
  cases present : graph.created with
  | false =>
    have noParents := (linked.tree.gone present).2.1
    have nothing : listMiddle graph va = none := by rw [listMiddle,noParents]; rfl
    simp [translateVa,leafTableIpa,listTranslate,listLeafTable,listLeaf,present,nothing]
  | true =>
  have fine : ¬ (¬ graph.created = true ∨ graph.uncertain = true ∨ (1 <<< 39 : U64) ≤ va) := by
    simp only [present,certain,inside,not_true_eq_false,or_self,Bool.false_eq_true,not_false_eq_true]
  have middle := middleEdge_list linked present small
  constructor
  · have last : (middleEdge graph va).bind (fun edge =>
        (slot (tableAt graph edge.childTable) (leafIndex va)).bind (nodeAt graph.leaves)) = listLeaf graph va := by
      rw [middle,listLeaf]
      refine Option.bind_congr (fun edge found => ?_)
      obtain ⟨table,tableIn,level,aux,points⟩ := middleEdge_leaf linked present found
      rw [points,leafSlot linked tableIn level,aux]
      rfl
    unfold translateVa
    rw [if_neg fine,last,listTranslate]
    cases found : listLeaf graph va with
    | none => rfl
    | some leaf =>
    obtain ⟨edge,_,isLeaf⟩ := Option.bind_eq_some_iff.mp found
    have nonzero := (linked.tree.placed leaf (findEdge_some isLeaf).1).1
    simp only [nonzero,if_false,Option.map_some]
  unfold leafTableIpa
  rw [if_neg fine,middle,listLeafTable]

theorem translate_of_walks {graph' : GpuvaGraph} (linked' : Linked graph')
    (certain : graph.uncertain = false) (certain' : graph'.uncertain = false)
    (walks : ∀ va, listTranslate graph' va = listTranslate graph va) (va : U64) : translateVa graph' va = translateVa graph va := by
  by_cases small : va < 1 <<< 39
  · rw [(walk_linked linked certain small).1,(walk_linked linked' certain' small).1,walks]
  have outside : (1 <<< 39 : U64) ≤ va := BitVec.not_lt.mp small
  rw [translateVa,translateVa,if_pos (.inr (.inr outside)),if_pos (.inr (.inr outside))]

end

/-- In every state that calls lead to, the indexed walks give what the plain walks over the
    lists give, and no pointer refers to a node that was removed. -/
theorem run_walks {n : Nat} (env : Fin n → GpuvaEnv) (owners : Fin n → Owner) (script : List (Fin n × Call)) (who : Fin n)
    (certain : ((run env (worldInit owners) script).graphs who).uncertain = false) :
    PointersLive ((run env (worldInit owners) script).graphs who) ∧ ∀ va : U64, va < 1 <<< 39 →
      translateVa ((run env (worldInit owners) script).graphs who) va =
        listTranslate ((run env (worldInit owners) script).graphs who) va ∧
      leafTableIpa ((run env (worldInit owners) script).graphs who) va =
        listLeafTable ((run env (worldInit owners) script).graphs who) va := by
  have linked := (run_linked env (worldInit_linked owners) script).graphs who
  exact ⟨pointersLive linked,fun va small => walk_linked linked certain small⟩

theorem run_walks_onePage :
    translateVa ((willingRun mapOnePage).graphs 0) 0x200c005 = some 0x10005 ∧
      translateVa ((willingRun mapOnePage).graphs 0) 0x200c005 =
        listTranslate ((willingRun mapOnePage).graphs 0) 0x200c005 :=
  ⟨by decide +kernel,((run_walks (fun _ => willing) oneOwner mapOnePage 0 (by decide +kernel)).2 0x200c005 (by decide)).1⟩

end WindowsOnM1.GpuvaWalk
