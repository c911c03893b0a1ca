import WindowsOnM1.GpuvaRetired

/-!
The move of a root with its private leaf: the leaf is detached from the old root, the new
root is bound, and the leaf is attached to it. One node is reserved for the links, so that
the move survives a failing allocator exactly when at most one link is missing.
-/
namespace WindowsOnM1.GpuvaRelink
open GpuvaModel GpuvaLists GpuvaMoves GpuvaLinked GpuvaSteps List
open BitVec hiding not_or
open GpuvaOperations GpuvaWorld

variable {env : GpuvaEnv}

/-- The three operations of a root move; each needs the one before it. -/
def moveRoot (env : GpuvaEnv) (va oldRoot newRoot middle leaf : U64) (graph : GpuvaGraph) : Bool × GpuvaGraph :=
  match detachPrivateRoot env va oldRoot leaf graph with
  | (false,left) => (false,left)
  | (true,left) =>
    match bindRoot env newRoot left with
    | (false,left) => (false,left)
    | (true,left) => attachPrivate env va middle leaf left

/-- A broker that acknowledges every request. -/
def Acknowledging (env : GpuvaEnv) : Prop := ∀ n, ∃ response, env.clientCall n = some response ∧ Acknowledges response

variable {graph : GpuvaGraph}

theorem call_acknowledged (acks : Acknowledging env) (request : Request) (certain : graph.uncertain = false) :
    ∃ response, call env request graph = (true,{ sent graph request (some response) with lastStatus := response.status }) := by
  rcases call_cases env request graph with ⟨lost,isLost,_⟩ | ⟨response,_,_,answered⟩
  · obtain ⟨response,answer,acked⟩ := acks graph.calls.length
    simp [call,callWithResponse,certain,answer,acked.1,acked.2] at isLost
  exact ⟨response,answered⟩

theorem node_eq (env : GpuvaEnv) (graph : GpuvaGraph) : node env graph = (env.allocate graph.allocations || graph.spareNode,
    { graph with allocations := graph.allocations + 1, spareNode := env.allocate graph.allocations && graph.spareNode }) := by
  unfold node allocate
  cases env.allocate graph.allocations <;> rfl

theorem findParent_hint (linked : Linked graph) {table : GpuvaNode} (mem : table ∈ graph.tables)
    (low : table.level ≤ 1) : ∃ tableHint, findParent table.ipa graph = (some table,{ graph with tableHint := tableHint }) := by
  unfold findParent
  by_cases isRoot : table.level = 0
  · obtain ⟨tableHint,search⟩ := findTable_hint linked mem rfl isRoot
    rw [search]
    exact ⟨tableHint,rfl⟩
  have missing : findTable table.ipa 0 graph = (none,graph) := by
    cases search : findTable table.ipa 0 graph with | mk item found =>
    obtain ⟨_,isTable,_⟩ := findTable_spec search
    cases item with
    | some other =>
      obtain ⟨there,here,level⟩ := isTable other rfl
      rw [linked.tree.addresses.eq there mem here] at level
      exact absurd level isRoot
    | none =>
    unfold findTable at search
    split at search
    · cases search
    split at search
    · cases search
    cases search
    rfl
  rw [missing]
  exact findTable_hint linked mem rfl (by omega)

/-- What the steps of a root move keep. -/
structure Beside (graph left : GpuvaGraph) : Prop where
  places : left.tables.map place = graph.tables.map place
  created : left.created = graph.created
  uncertain : left.uncertain = graph.uncertain
  jobInFlight : left.jobInFlight = graph.jobInFlight
  leaseToken : left.leaseToken = graph.leaseToken

variable {left : GpuvaGraph} {ipa : U64}

theorem Beside.table (beside : Beside graph left) {level : Nat}
    (there : ∃ table ∈ graph.tables, table.ipa = ipa ∧ table.level = level) :
    ∃ table ∈ left.tables, table.ipa = ipa ∧ table.level = level := by
  obtain ⟨table,mem,rfl,rfl⟩ := there
  have inside : place table ∈ left.tables.map place := by
    rw [beside.places]
    exact mem_map_of_mem mem
  obtain ⟨table',here,same⟩ := mem_map.mp inside
  simp only [place,Prod.mk.injEq] at same
  exact ⟨table',here,same.2⟩

variable {edge : GpuvaNode}

theorem updateParent_unlinks (acks : Acknowledging env) (linked : Linked graph)
    (present : graph.created = true) (certain : graph.uncertain = false) (idle : graph.jobInFlight = false)
    (room : graph.mappingGeneration ≠ maxU64) (mem : edge ∈ graph.parents) :
    ∃ left, updateParent env edge.ipa edge.index 0 graph = (true,left) ∧ Beside graph left ∧
      left.parents = without graph.parents edge.id ∧ left.rootIpa = graph.rootIpa ∧ left.spareNode = graph.spareNode ∧
      left.mappingGeneration = graph.mappingGeneration + 1 := by
  obtain ⟨parent,parentIn,_,_,under,inside,_⟩ := linked.tree.leads edge mem
  obtain ⟨low,_⟩ := linked.tree.edge_table mem parentIn under
  obtain ⟨tableHint,search⟩ := findParent_hint linked parentIn (by omega)
  have isEdge : findEdge graph.parents edge.ipa edge.index = some edge := findEdge_mem linked.tree.parentKeys mem
  have sure : ({ graph with tableHint := tableHint } : GpuvaGraph).uncertain = false := certain
  obtain ⟨response,answered⟩ := call_acknowledged acks (parentRequest edge.ipa edge.index 0) sure
  refine ⟨countMapping (unlinkChild parent edge edge.index { sent { graph with tableHint := tableHint }
    (parentRequest edge.ipa edge.index 0) (some response) with lastStatus := response.status }),?_,?_,rfl,rfl,rfl,rfl⟩
  · unfold updateParent
    rw [if_neg (by simp [present,certain]),if_neg (by simp [idle,room])]
    rw [under] at isEdge answered ⊢
    rw [search]
    dsimp only
    rw [if_pos rfl,if_neg (Nat.not_le.mpr inside),isEdge]
    rw [answered]
  exact ⟨map_setSlot _ _ _ _ _ (fun _ _ => rfl),rfl,rfl,rfl,rfl⟩

theorem updateParent_full (tableIpa : U64) (index : Nat) (childIpa : U64)
    (full : graph.mappingGeneration = maxU64) : (updateParent env tableIpa index childIpa graph).1 = false := by
  unfold updateParent
  by_cases absent : ¬ graph.created ∨ graph.uncertain
  · rw [if_pos absent]
  rw [if_neg absent,if_pos (.inr full)]

theorem updateParent_links (acks : Acknowledging env) (linked : Linked graph)
    (present : graph.created = true) (certain : graph.uncertain = false) (idle : graph.jobInFlight = false)
    (room : graph.mappingGeneration ≠ maxU64) {parent child : GpuvaNode} (parentIn : parent ∈ graph.tables)
    (childIn : child ∈ graph.tables) (level : child.level = parent.level + 1) {index : Nat}
    (inside : index < entryCount parent.level) :
    (∀ edge, findEdge graph.parents parent.ipa index = some edge → edge.auxIpa = child.ipa →
      ∃ tableHint, updateParent env parent.ipa index child.ipa graph = (true,{ graph with tableHint := tableHint })) ∧
    (findEdge graph.parents parent.ipa index = none →
      ((updateParent env parent.ipa index child.ipa graph).1 = (env.allocate graph.allocations || graph.spareNode)) ∧
      ((env.allocate graph.allocations || graph.spareNode) = true →
        ∃ left, updateParent env parent.ipa index child.ipa graph = (true,left) ∧ Beside graph left ∧ left.rootIpa = graph.rootIpa ∧
          left.spareNode = (env.allocate graph.allocations && graph.spareNode) ∧
          ∃ edge, left.parents = edge :: graph.parents ∧ edge.ipa = parent.ipa ∧ edge.index = index ∧
            left.mappingGeneration = graph.mappingGeneration + 1)) := by
  obtain ⟨nonzero,small⟩ := linked.tree.real child childIn
  obtain ⟨firstHint,isParent⟩ := findParent_hint linked parentIn (by omega)
  have linked' : Linked { graph with tableHint := firstHint } := by
    have quiet := (findParent_spec isParent).1
    exact linked_quiet linked quiet
  have childIn' : child ∈ ({ graph with tableHint := firstHint } : GpuvaGraph).tables := childIn
  obtain ⟨tableHint,isChild⟩ := findTable_hint linked' childIn' rfl level
  unfold updateParent
  rw [if_neg (by simp [present,certain]),if_neg (by simp [idle,room]),isParent]
  dsimp only
  rw [if_neg nonzero,isChild]
  dsimp only
  rw [if_neg (Nat.not_le.mpr inside)]
  refine ⟨fun edge found leads => ?_,fun missing => ?_⟩
  · rw [found]
    exact ⟨tableHint,if_pos leads⟩
  rw [missing]
  rw [node_eq]
  cases enough : env.allocate graph.allocations || graph.spareNode with
  | false => exact ⟨rfl,nofun⟩
  | true =>
  dsimp only
  have sure : ({ graph with tableHint := tableHint, allocations := graph.allocations + 1
                            spareNode := env.allocate graph.allocations && graph.spareNode } : GpuvaGraph).uncertain = false :=
    certain
  obtain ⟨response,answered⟩ := call_acknowledged acks (parentRequest parent.ipa index child.ipa) sure
  rw [answered]
  exact ⟨rfl,fun _ => ⟨_,rfl,⟨map_setSlot _ _ _ _ _ (fun _ _ => rfl),rfl,rfl,rfl,rfl⟩,rfl,rfl,_,rfl,rfl,rfl,rfl⟩⟩

private theorem findTable_graph (ipa : U64) (level : Nat) (graph : GpuvaGraph) :
    ∃ tableHint, (findTable ipa level graph).2 = { graph with tableHint := tableHint } := by
  unfold findTable
  split
  · exact ⟨graph.tableHint,rfl⟩
  split
  · exact ⟨_,rfl⟩
  exact ⟨graph.tableHint,rfl⟩

private theorem relocateRoot_keeps (ipa : U64) (graph : GpuvaGraph) : Beside graph (relocateRoot ipa graph) ∧
    (relocateRoot ipa graph).parents = graph.parents ∧ (relocateRoot ipa graph).rootIpa = ipa ∧
    (relocateRoot ipa graph).spareNode = graph.spareNode ∧
    (relocateRoot ipa graph).mappingGeneration = graph.mappingGeneration + 1 := by
  obtain ⟨tableHint,left⟩ := findTable_graph ipa 0 { graph with rootIpa := ipa }
  cases search : findTable ipa 0 { graph with rootIpa := ipa } with | mk table found =>
  rw [search] at left
  subst left
  unfold relocateRoot
  rw [search]
  exact ⟨⟨rfl,rfl,rfl,rfl,rfl⟩,rfl,rfl,rfl,rfl⟩

private theorem bindRoot_binds (acks : Acknowledging env) (linked : Linked graph)
    (present : graph.created = true) (certain : graph.uncertain = false)
    (isRoot : ∃ table ∈ graph.tables, table.ipa = ipa ∧ table.level = 0) :
    (graph.mappingGeneration = maxU64 → (bindRoot env ipa graph).1 = false) ∧
    (graph.mappingGeneration ≠ maxU64 → ∃ left, bindRoot env ipa graph = (true,left) ∧ Beside graph left ∧
      left.parents = graph.parents ∧ left.rootIpa = ipa ∧ left.spareNode = graph.spareNode ∧
      left.mappingGeneration = if graph.rootIpa = ipa then graph.mappingGeneration else graph.mappingGeneration + 1) := by
  obtain ⟨table,mem,here,level⟩ := isRoot
  obtain ⟨tableHint,search⟩ := findTable_hint linked mem here level
  unfold bindRoot
  rw [if_neg (by simp [present,certain]),search]
  dsimp only
  refine ⟨fun full => by rw [if_pos full],fun room => ?_⟩
  rw [if_neg room]
  by_cases bound : graph.rootIpa = ipa
  · rw [if_pos bound,if_pos bound]
    exact ⟨_,rfl,⟨rfl,rfl,rfl,rfl,rfl⟩,rfl,bound,rfl,rfl⟩
  rw [if_neg bound,if_neg bound]
  have sure : ({ graph with tableHint := tableHint } : GpuvaGraph).uncertain = false := certain
  obtain ⟨response,answered⟩ := call_acknowledged acks { command := .RelocateRoot, tableIpa := ipa } sure
  rw [answered]
  obtain ⟨beside,parents,isRoot,spare,generation⟩ := relocateRoot_keeps ipa { sent { graph with tableHint := tableHint }
    { command := .RelocateRoot, tableIpa := ipa } (some response) with lastStatus := response.status }
  exact ⟨_,rfl,{ beside with },parents,isRoot,spare,generation⟩

/-- A graph in which a private leaf can be attached. -/
structure Attachable (va middle leaf : U64) (graph : GpuvaGraph) : Prop where
  linked : Linked graph
  present : graph.created = true
  certain : graph.uncertain = false
  idle : graph.jobInFlight = false
  unleased : graph.leaseToken = 0
  reserved : privateVa va = true
  middle : ∃ table ∈ graph.tables, table.ipa = middle ∧ table.level = 1
  leaf : ∃ table ∈ graph.tables, table.ipa = leaf ∧ table.level = 2

variable {va middle leaf : U64} {graph : GpuvaGraph} {rootEdge leafEdge : Option GpuvaNode}

private theorem attachPrivate_opens (attachable : Attachable va middle leaf graph)
    (isRootEdge : findEdge graph.parents graph.rootIpa (privateRootIndex va) = rootEdge)
    (isLeafEdge : findEdge graph.parents (rootEdge.elim middle (fun edge => edge.auxIpa)) (middleIndex va) = leafEdge)
    (fits : ∀ edge, leafEdge = some edge → edge.auxIpa = leaf) :
    (rootEdge.isSome = true ∧ leafEdge.isSome = true → (attachPrivate env va middle leaf graph).1 = true) ∧
    (¬ (rootEdge.isSome = true ∧ leafEdge.isSome = true) → ∃ tableHint,
      Linked { graph with tableHint := tableHint, attachFailure := 0 } ∧
      attachPrivate env va middle leaf graph =
        attachLinks env va (rootEdge.elim middle (fun edge => edge.auxIpa)) leaf rootEdge leafEdge
          { graph with tableHint := tableHint, attachFailure := 0 }) := by
  obtain ⟨table,mem,here,level⟩ := attachable.middle
  obtain ⟨firstHint,isMiddle⟩ := findTable_hint attachable.linked mem here level
  obtain ⟨leafTable,leafIn,leafHere,leafLevel⟩ := attachable.leaf
  have linked' : Linked { graph with tableHint := firstHint } := linked_quiet attachable.linked (findTable_spec isMiddle).1
  have leafIn' : leafTable ∈ ({ graph with tableHint := firstHint } : GpuvaGraph).tables := leafIn
  obtain ⟨tableHint,isLeaf⟩ := findTable_hint linked' leafIn' leafHere leafLevel
  have opened : Linked { graph with tableHint := tableHint, attachFailure := 0 } :=
    linked_quiet (linked_quiet linked' (findTable_spec isLeaf).1) (attachFailure_quiet _ 0)
  have unfit : ¬ leafEdge.any (fun edge => edge.auxIpa != leaf) = true := by
    rw [Option.any_eq_true]
    rintro ⟨edge,same,apart⟩
    exact absurd (fits edge same) (bne_iff_ne.mp apart)
  have whole : (rootEdge.isSome = true ∧ leafEdge.any (fun edge => edge.auxIpa == leaf) = true) ↔
      (rootEdge.isSome = true ∧ leafEdge.isSome = true) := by
    refine and_congr_right (fun _ => ?_)
    cases leafEdge with
    | none => rfl
    | some edge => simp [fits edge rfl]
  unfold attachPrivate
  rw [if_neg (by simp [attachable.present,attachable.certain]),if_neg (by simp [attachable.reserved]),isMiddle]
  dsimp only
  rw [isLeaf]
  dsimp only
  rw [isRootEdge,isLeafEdge]
  refine ⟨fun both => by rw [if_pos (whole.mpr both)],fun part => ⟨tableHint,opened,?_⟩⟩
  rw [if_neg (fun both => part (whole.mp both)),if_neg (by simp [attachable.idle]),if_neg (by simp [attachable.unleased]),if_neg unfit]

private theorem middleIndex_lt (va : U64) : middleIndex va < 2048 := by
  exact Nat.lt_succ_of_le (Nat.and_le_right)

theorem privateRootIndex_lt (reserved : privateVa va = true) : privateRootIndex va < 8 := by
  rw [privateVa,Bool.and_eq_true,Bool.and_eq_true,decide_eq_true_eq,decide_eq_true_eq] at reserved
  have small := lt_def.mp reserved.1.2
  rw [privateRootIndex,toNat_ushiftRight,Nat.shiftRight_eq_div_pow]
  have bound : va.toNat < 2 ^ 39 := by simpa using small
  omega

private theorem attachLinks_full (full : graph.mappingGeneration = maxU64) :
    (attachLinks env va middle leaf rootEdge leafEdge graph).1 = false := by
  have stuck : (updateParent env middle (middleIndex va) leaf graph).1 = false := updateParent_full _ _ _ full
  unfold attachLinks
  split
  · rfl
  rename_i linked isLinked
  rw [isLinked] at stuck
  cases stuck

private theorem attachLinks_first (edge : GpuvaNode) : (attachLinks env va middle leaf (some edge) leafEdge graph).1 =
    (updateParent env middle (middleIndex va) leaf graph).1 := by
  unfold attachLinks
  cases updateParent env middle (middleIndex va) leaf graph with | mk done left =>
  cases done with
  | false => rfl
  | true => exact congrArg Prod.fst (if_pos rfl)

theorem attachLinks_second {linked : GpuvaGraph} (first : updateParent env middle (middleIndex va) leaf graph = (true,linked)) :
    (attachLinks env va middle leaf none leafEdge graph).1 =
      (updateParent env linked.rootIpa (privateRootIndex va) middle linked).1 := by
  unfold attachLinks
  rw [first]
  dsimp only
  rw [if_neg (by simp)]
  cases second : updateParent env linked.rootIpa (privateRootIndex va) middle linked with | mk done left =>
  cases done with
  | true => rfl
  | false =>
  dsimp only
  split_ifs
  · rfl
  split <;> rfl

private theorem attachLinks_links (acks : Acknowledging env) (attachable : Attachable va middle leaf graph)
    (room : graph.mappingGeneration ≠ maxU64)
    (isRootEdge : findEdge graph.parents graph.rootIpa (privateRootIndex va) = rootEdge)
    (isLeafEdge : findEdge graph.parents middle (middleIndex va) = leafEdge)
    (fits : ∀ edge, leafEdge = some edge → edge.auxIpa = leaf) (part : ¬ (rootEdge.isSome = true ∧ leafEdge.isSome = true)) :
    ((rootEdge.isSome = true ∨ leafEdge.isSome = true) → (attachLinks env va middle leaf rootEdge leafEdge graph).1 =
      (env.allocate graph.allocations || graph.spareNode)) ∧
    (rootEdge = none → leafEdge = none → (∀ n, env.allocate n = false) →
      (attachLinks env va middle leaf rootEdge leafEdge graph).1 = false) := by
  obtain ⟨root,rootIn,isRoot,rootLevel,_⟩ := attachable.linked.tree.root attachable.present
  obtain ⟨table,mem,rfl,level⟩ := attachable.middle
  obtain ⟨leafTable,leafIn,rfl,leafLevel⟩ := attachable.leaf
  have inside : middleIndex va < entryCount table.level := by
    rw [level]
    exact middleIndex_lt va
  obtain ⟨known,new⟩ := updateParent_links acks attachable.linked attachable.present attachable.certain attachable.idle room mem
    leafIn (leafLevel.trans (by rw [level])) inside
  have small : privateRootIndex va < entryCount root.level := by
    rw [rootLevel]
    exact privateRootIndex_lt attachable.reserved
  have onto : table.level = root.level + 1 := level.trans (by rw [rootLevel])
  cases rootEdge with
  | some edge =>
    cases leafEdge with
    | some other => exact absurd ⟨rfl,rfl⟩ part
    | none =>
    refine ⟨fun _ => ?_,nofun⟩
    rw [attachLinks_first,(new isLeafEdge).1]
  | none =>
  cases leafEdge with
  | some edge =>
    obtain ⟨tableHint,first⟩ := known edge isLeafEdge (fits edge rfl)
    refine ⟨fun _ => ?_,nofun⟩
    rw [attachLinks_second first]
    have linked' := (updates_of first).steps.linked attachable.linked
    have links := (updateParent_links acks linked' attachable.present attachable.certain attachable.idle room rootIn mem onto
      small).2
    rw [isRoot] at links
    exact (links isRootEdge).1
  | none =>
  refine ⟨fun bad => by simp at bad,fun _ _ fails => ?_⟩
  obtain ⟨result,success⟩ := new isLeafEdge
  cases reserve : graph.spareNode with
  | false =>
    rw [fails,reserve] at result
    unfold attachLinks
    split
    · rfl
    rename_i linked first
    rw [first] at result
    cases result
  | true =>
  -- the first link takes the reserved node, so that none is left for the second
  obtain ⟨linked,first,beside,rootIpa,spent,edge,parents,under,_⟩ := success (by rw [reserve]; simp)
  rw [attachLinks_second first]
  by_cases full : linked.mappingGeneration = maxU64
  · exact updateParent_full _ _ _ full
  have isLinked := (updates_of first).steps.linked attachable.linked
  obtain ⟨root',rootIn',isRoot',rootLevel'⟩ := beside.table ⟨root,rootIn,isRoot,rootLevel⟩
  obtain ⟨table',mem',here',level'⟩ := beside.table ⟨table,mem,rfl,level⟩
  have apart : edge.ipa ≠ linked.rootIpa := by
    intro same
    have one := attachable.linked.tree.addresses.eq mem rootIn (under.symm.trans (same.trans (rootIpa.trans isRoot.symm)))
    rw [one,rootLevel] at level
    cases level
  have links := (updateParent_links acks isLinked (beside.created.trans attachable.present)
    (beside.uncertain.trans attachable.certain) (beside.jobInFlight.trans attachable.idle) full rootIn' mem'
    (level'.trans (by rw [rootLevel'])) (by rw [rootLevel']; exact privateRootIndex_lt attachable.reserved)).2
  rw [isRoot',here',← rootIpa] at links
  refine (links ?_).1.trans ?_
  · rw [parents,findEdge,find?_cons_of_neg (by simp [apart]),rootIpa]
    exact isRootEdge
  rw [fails,spent,fails]
  rfl

variable {oldRoot newRoot : U64}

/-- The edge of the new root at the reserved index once the old root is detached. -/
def newRootEdge (va oldRoot newRoot : U64) (graph : GpuvaGraph) : Option GpuvaNode :=
  if newRoot = oldRoot then none else findEdge graph.parents newRoot (privateRootIndex va)

/-- The middle table that the private leaf is attached to. -/
def graftMiddle (va oldRoot newRoot middle : U64) (graph : GpuvaGraph) : U64 :=
  (newRootEdge va oldRoot newRoot graph).elim middle (fun edge => edge.auxIpa)

/-- The edge from this table to the private leaf. -/
def graftEdge (va oldRoot newRoot middle : U64) (graph : GpuvaGraph) : Option GpuvaNode :=
  findEdge graph.parents (graftMiddle va oldRoot newRoot middle graph) (middleIndex va)

/-- A graph whose private leaf is attached below the old root, which can be detached. A node
    is reserved, the tables are registered and no edge is in the way. -/
structure Movable (va oldRoot newRoot middle leaf : U64) (graph : GpuvaGraph) : Prop where
  certain : graph.uncertain = false
  idle : graph.jobInFlight = false
  unleased : graph.leaseToken = 0
  reserved : graph.spareNode = true
  attached : (findEdge graph.parents oldRoot (privateRootIndex va)).isSome = true
  detachable : canDetachPrivateRoot va oldRoot leaf graph = true
  isOldRoot : ∃ table ∈ graph.tables, table.ipa = oldRoot ∧ table.level = 0
  isNewRoot : ∃ table ∈ graph.tables, table.ipa = newRoot ∧ table.level = 0
  isMiddle : ∃ table ∈ graph.tables, table.ipa = middle ∧ table.level = 1
  isLeaf : ∃ table ∈ graph.tables, table.ipa = leaf ∧ table.level = 2
  unconflicted : (graftEdge va oldRoot newRoot middle graph).all (fun edge => edge.auxIpa == leaf) = true

/-- At most one link is missing, and the changes of the move can be counted. -/
structure Promised (va oldRoot newRoot middle : U64) (graph : GpuvaGraph) : Prop where
  links : (newRootEdge va oldRoot newRoot graph).isSome = true ∨ (graftEdge va oldRoot newRoot middle graph).isSome = true
  room : graph.mappingGeneration.toNat +
    (if ((newRootEdge va oldRoot newRoot graph).isSome = true ∧ (graftEdge va oldRoot newRoot middle graph).isSome = true) ∨
      graph.rootIpa = newRoot then 1 else 2) < 2 ^ 64 - 1

theorem full_iff (generation : U64) : generation = maxU64 ↔ generation.toNat = 2 ^ 64 - 1 := by
  rw [← toNat_inj]
  rfl

private theorem detached_edges (linked : Linked graph) (movable : Movable va oldRoot newRoot middle leaf graph)
    (isEdge : findEdge graph.parents oldRoot (privateRootIndex va) = some edge) :
    findEdge (without graph.parents edge.id) newRoot (privateRootIndex va) = newRootEdge va oldRoot newRoot graph ∧
    findEdge (without graph.parents edge.id) (graftMiddle va oldRoot newRoot middle graph) (middleIndex va) =
      graftEdge va oldRoot newRoot middle graph := by
  obtain ⟨mem,under,atIndex⟩ := findEdge_some isEdge
  have others : ∀ ipa index, ipa ≠ oldRoot →
      findEdge (without graph.parents edge.id) ipa index = findEdge graph.parents ipa index := by
    intro ipa index apart
    refine GpuvaRetired.findEdge_kept linked.tree.parentKeys filter_sublist (fun other there here => ?_) index
    refine mem_without.mpr ⟨there,fun same => apart ?_⟩
    rw [← here,linked.tree.parentIds.eq there mem same,under]
  obtain ⟨root,rootIn,isRoot,rootLevel⟩ := movable.isOldRoot
  have notRoot : ∀ table ∈ graph.tables, table.level = 1 → table.ipa ≠ oldRoot := by
    intro table tableIn level same
    rw [linked.tree.addresses.eq tableIn rootIn (same.trans isRoot.symm),rootLevel] at level
    cases level
  constructor
  · unfold newRootEdge
    split_ifs with same
    · cases found : findEdge (without graph.parents edge.id) newRoot (privateRootIndex va) with
      | none => rfl
      | some other =>
        obtain ⟨there,here,atIndex'⟩ := findEdge_some found
        obtain ⟨there,apart⟩ := mem_without.mp there
        refine absurd ?_ apart
        rw [linked.tree.parentKeys.eq there mem (here.trans (same.trans under.symm)) (atIndex'.trans atIndex.symm)]
    exact others _ _ same
  refine others _ _ ?_
  unfold graftMiddle
  cases found : newRootEdge va oldRoot newRoot graph with
  | none =>
    obtain ⟨table,tableIn,rfl,level⟩ := movable.isMiddle
    exact notRoot table tableIn level
  | some other =>
  unfold newRootEdge at found
  split_ifs at found
  obtain ⟨there,here,_⟩ := findEdge_some found
  obtain ⟨table,tableIn,isTable,level⟩ := movable.isNewRoot
  obtain ⟨_,_,child,childIn,childLevel,aux,_⟩ := linked.tree.edge_table there tableIn (here.trans isTable.symm)
  rw [Option.elim_some,aux]
  exact notRoot child childIn (by omega)

/-- The graph between the binding of the new root and the attachment. -/
structure Between (graph left : GpuvaGraph) (va oldRoot newRoot middle leaf : U64) : Prop where
  attachable : Attachable va middle leaf left
  rootIpa : left.rootIpa = newRoot
  spare : left.spareNode = true
  rootEdge : findEdge left.parents left.rootIpa (privateRootIndex va) = newRootEdge va oldRoot newRoot graph
  leafEdge : findEdge left.parents (graftMiddle va oldRoot newRoot middle graph) (middleIndex va) =
    graftEdge va oldRoot newRoot middle graph
  generation : left.mappingGeneration =
    if graph.rootIpa = newRoot then graph.mappingGeneration + 1 else graph.mappingGeneration + 1 + 1

theorem moveRoot_binds (acks : Acknowledging env) (linked : Linked graph)
    (movable : Movable va oldRoot newRoot middle leaf graph) :
    (graph.mappingGeneration = maxU64 ∨ graph.mappingGeneration + 1 = maxU64 →
      (moveRoot env va oldRoot newRoot middle leaf graph).1 = false) ∧
    (graph.mappingGeneration ≠ maxU64 → graph.mappingGeneration + 1 ≠ maxU64 →
      ∃ left, moveRoot env va oldRoot newRoot middle leaf graph = attachPrivate env va middle leaf left ∧
        Between graph left va oldRoot newRoot middle leaf) := by
  obtain ⟨edge,isEdge⟩ := Option.isSome_iff_exists.mp movable.attached
  obtain ⟨mem,rfl,atIndex⟩ := findEdge_some isEdge
  have present : graph.created = true := by
    cases created : graph.created with
    | true => rfl
    | false =>
    rw [(linked.tree.gone created).2.1] at mem
    exact absurd mem not_mem_nil
  have detaches : detachPrivateRoot env va edge.ipa leaf graph = updateParent env edge.ipa edge.index 0 graph := by
    rw [detachPrivateRoot,if_neg (by simp [movable.detachable]),atIndex]
  by_cases full : graph.mappingGeneration = maxU64
  · refine ⟨fun _ => ?_,fun room => absurd full room⟩
    unfold moveRoot
    rw [detaches]
    have stuck : (updateParent env edge.ipa edge.index 0 graph).1 = false := updateParent_full _ _ _ full
    split
    · rfl
    rename_i isDone
    rw [isDone] at stuck
    cases stuck
  obtain ⟨first,unlinked,beside,parents,rootIpa,spare,generation⟩ :=
    updateParent_unlinks acks linked present movable.certain movable.idle full mem
  have linked' := (updates_of unlinked).steps.linked linked
  obtain ⟨stuck,binds⟩ := bindRoot_binds acks linked' (beside.created.trans present) (beside.uncertain.trans movable.certain)
    (beside.table movable.isNewRoot)
  have opened : moveRoot env va edge.ipa newRoot middle leaf graph =
      match bindRoot env newRoot first with
      | (false,left) => (false,left)
      | (true,left) => attachPrivate env va middle leaf left := by
    rw [moveRoot,detaches,unlinked]
  rw [opened]
  constructor
  · rintro (isFull | isFull)
    · exact absurd isFull full
    have isStuck := stuck (generation.trans isFull)
    split
    · rfl
    rename_i isDone
    rw [isDone] at isStuck
    cases isStuck
  intro _ room
  obtain ⟨second,bound,beside',parents',rootIpa',spare',generation'⟩ := binds (generation ▸ room)
  rw [bound]
  have linked'' : Linked second := by
    have moves : Moves ⟨False,False,True,False⟩ (none,⟨first,⟨[],0,fun _ => [],0⟩⟩)
        (none,⟨(bindRoot env newRoot first).2,⟨[],0,fun _ => [],0⟩⟩) := bindRoot_moves newRoot first none _ (fun _ => trivial)
    rw [bound] at moves
    exact moves_linked moves linked'
  have both : Beside graph second :=
    ⟨beside'.places.trans beside.places,beside'.created.trans beside.created,beside'.uncertain.trans beside.uncertain,
      beside'.jobInFlight.trans beside.jobInFlight,beside'.leaseToken.trans beside.leaseToken⟩
  have private' : privateVa va = true := by
    have detachable := movable.detachable
    unfold canDetachPrivateRoot at detachable
    by_cases isPrivate : privateVa va = true
    · exact isPrivate
    rw [if_pos (.inr (.inr (.inr isPrivate)))] at detachable
    cases detachable
  have edges := detached_edges linked movable isEdge
  rw [← parents,← parents'] at edges
  refine ⟨second,rfl,?_,rootIpa',spare'.trans (spare.trans movable.reserved),rootIpa' ▸ edges.1,edges.2,?_⟩
  · exact ⟨linked'',both.created.trans present,both.uncertain.trans movable.certain,both.jobInFlight.trans movable.idle,
      both.leaseToken.trans movable.unleased,private',both.table movable.isMiddle,both.table movable.isLeaf⟩
  rw [generation',generation,rootIpa]

theorem Between.graft (between : Between graph left va oldRoot newRoot middle leaf) :
    ∃ table ∈ left.tables, table.ipa = graftMiddle va oldRoot newRoot middle graph ∧ table.level = 1 := by
  unfold graftMiddle
  cases found : newRootEdge va oldRoot newRoot graph with
  | none => exact between.attachable.middle
  | some edge =>
  obtain ⟨mem,under,_⟩ := findEdge_some (between.rootEdge.trans found)
  obtain ⟨root,rootIn,isRoot,level,_⟩ := between.attachable.linked.tree.root between.attachable.present
  obtain ⟨_,_,child,childIn,childLevel,aux,_⟩ :=
    between.attachable.linked.tree.edge_table mem rootIn (under.trans isRoot.symm)
  exact ⟨child,childIn,aux.symm,by rw [childLevel,level]⟩

/-- An allocator that always fails and a broker that acknowledges everything. -/
def starving : GpuvaEnv := { allocate := fun _ => false, clientCall := fun _ => some ⟨0,0,7⟩ }
theorem starving_acknowledges : Acknowledging starving := fun _ => ⟨_,rfl,rfl,rfl⟩

theorem attach_between (acks : Acknowledging env)
    (movable : Movable va oldRoot newRoot middle leaf graph) (between : Between graph left va oldRoot newRoot middle leaf) :
    ((newRootEdge va oldRoot newRoot graph).isSome = true ∧ (graftEdge va oldRoot newRoot middle graph).isSome = true →
      (attachPrivate env va middle leaf left).1 = true) ∧
    (¬ ((newRootEdge va oldRoot newRoot graph).isSome = true ∧ (graftEdge va oldRoot newRoot middle graph).isSome = true) →
      (left.mappingGeneration = maxU64 → (attachPrivate env va middle leaf left).1 = false) ∧
      (left.mappingGeneration ≠ maxU64 →
        ((newRootEdge va oldRoot newRoot graph).isSome = true ∨ (graftEdge va oldRoot newRoot middle graph).isSome = true →
          (attachPrivate env va middle leaf left).1 = true) ∧
        (newRootEdge va oldRoot newRoot graph = none → graftEdge va oldRoot newRoot middle graph = none →
          (∀ n, env.allocate n = false) → (attachPrivate env va middle leaf left).1 = false))) := by
  have fits : ∀ edge, graftEdge va oldRoot newRoot middle graph = some edge → edge.auxIpa = leaf := by
    intro edge found
    have unconflicted := movable.unconflicted
    rw [found] at unconflicted
    exact eq_of_beq unconflicted
  obtain ⟨whole,part⟩ := attachPrivate_opens between.attachable between.rootEdge between.leafEdge fits
  refine ⟨whole,fun isPart => ?_⟩
  obtain ⟨tableHint,opened,isLinks⟩ := part isPart
  rw [isLinks]
  refine ⟨fun full => attachLinks_full full,fun room => ?_⟩
  have attachable : Attachable va (graftMiddle va oldRoot newRoot middle graph) leaf
      { left with tableHint := tableHint, attachFailure := 0 } :=
    ⟨opened,between.attachable.present,between.attachable.certain,between.attachable.idle,between.attachable.unleased,
      between.attachable.reserved,between.graft,between.attachable.leaf⟩
  obtain ⟨one,two⟩ := attachLinks_links acks attachable room between.rootEdge between.leafEdge fits isPart
  refine ⟨fun some => (one some).trans ?_,two⟩
  rw [show ({ left with tableHint := tableHint, attachFailure := 0 } : GpuvaGraph).spareNode = true from between.spare]
  exact Bool.or_true _

/-- A root move succeeds with every allocator exactly when at most one link is missing and its changes can be counted. -/
theorem moveRoot_iff (linked : Linked graph) (movable : Movable va oldRoot newRoot middle leaf graph) :
    (∀ env, Acknowledging env → (moveRoot env va oldRoot newRoot middle leaf graph).1 = true) ↔
      Promised va oldRoot newRoot middle graph := by
  have count : (graph.mappingGeneration + 1).toNat = (graph.mappingGeneration.toNat + 1) % 2 ^ 64 := by
    rfl
  have count' : (graph.mappingGeneration + 1 + 1).toNat = (graph.mappingGeneration.toNat + 2) % 2 ^ 64 := by
    simp
  constructor
  · intro succeeds
    have success := succeeds starving starving_acknowledges
    obtain ⟨stuck,binds⟩ := moveRoot_binds starving_acknowledges linked movable
    by_cases full : graph.mappingGeneration = maxU64 ∨ graph.mappingGeneration + 1 = maxU64
    · rw [stuck full] at success
      cases success
    obtain ⟨room,room'⟩ := not_or.mp full
    obtain ⟨left,isAttach,between⟩ := binds room room'
    rw [isAttach] at success
    rw [full_iff] at room room'
    by_cases complete : (newRootEdge va oldRoot newRoot graph).isSome = true ∧
        (graftEdge va oldRoot newRoot middle graph).isSome = true
    · refine ⟨.inl complete.1,?_⟩
      rw [if_pos (.inl complete)]
      omega
    obtain ⟨stuck',linking⟩ := (attach_between starving_acknowledges movable between).2 complete
    have room'' : left.mappingGeneration ≠ maxU64 := by
      intro isFull
      rw [stuck' isFull] at success
      cases success
    refine ⟨?_,?_⟩
    · by_contra missing
      simp only [not_or,Bool.not_eq_true,Option.isSome_eq_false_iff,Option.isNone_iff_eq_none] at missing
      rw [(linking room'').2 missing.1 missing.2 (fun _ => rfl)] at success
      cases success
    by_cases same : graph.rootIpa = newRoot
    · rw [if_pos (.inr same)]
      omega
    rw [between.generation,if_neg same,Ne,full_iff,count'] at room''
    rw [if_neg (not_or.mpr ⟨complete,same⟩)]
    omega
  intro promised env acks
  have room := promised.room
  obtain ⟨_,binds⟩ := moveRoot_binds acks linked movable
  have fits : graph.mappingGeneration ≠ maxU64 ∧ graph.mappingGeneration + 1 ≠ maxU64 := by
    rw [Ne,Ne,full_iff,full_iff,count]
    split_ifs at room <;> omega
  obtain ⟨left,isAttach,between⟩ := binds fits.1 fits.2
  rw [isAttach]
  obtain ⟨whole,part⟩ := attach_between acks movable between
  by_cases complete : (newRootEdge va oldRoot newRoot graph).isSome = true ∧
      (graftEdge va oldRoot newRoot middle graph).isSome = true
  · exact whole complete
  refine ((part complete).2 ?_).1 promised.links
  rw [between.generation,Ne,full_iff]
  by_cases same : graph.rootIpa = newRoot
  · rw [if_pos (.inr same)] at room
    rw [if_pos same,count]
    omega
  rw [if_neg (not_or.mpr ⟨complete,same⟩)] at room
  rw [if_neg same,count']
  omega

/-- In every state that calls lead to, a root move that is promised to succeed does so with every allocator exactly when at
    most one link is missing and its changes can be counted. -/
theorem run_moveRoot {n : Nat} (env : Fin n → GpuvaEnv) (owners : Fin n → Owner) (script : List (Fin n × Call)) (who : Fin n)
    (va oldRoot newRoot middle leaf : U64)
    (movable : Movable va oldRoot newRoot middle leaf ((run env (worldInit owners) script).graphs who)) :
    (∀ answers, Acknowledging answers →
      (moveRoot answers va oldRoot newRoot middle leaf ((run env (worldInit owners) script).graphs who)).1 = true) ↔
    Promised va oldRoot newRoot middle ((run env (worldInit owners) script).graphs who) :=
  moveRoot_iff ((run_linked env (worldInit_linked owners) script).graphs who) movable

local instance onlyProcess : NeZero 1 := ⟨Nat.one_ne_zero⟩

/-- A process whose private leaf at 0xc000 is attached below a middle table, with another
    root at 0x14000. The middle table is the private one or one of the system. -/
def attachPrivateLeaf (own : Bool) : List (Fin 1 × Call) :=
  [(0,.create 0x4000 false),(0,.registerTable 0x8000 1),(0,.registerTable 0xc000 2),(0,.registerTable 0x10000 1),
    (0,.updateParent 0x4000 1 (if own then 0x10000 else 0x8000)),(0,.attachPrivate 0x1000000000 0x10000 0xc000),
    (0,.registerTable 0x14000 0),(0,.reserveNode)]

theorem run_moveRoot_own : (moveRoot starving 0x1000000000 0x4000 0x14000 0x10000 0xc000
      ((willingRun (attachPrivateLeaf true)).graphs 0)).1 = true := by
  refine (run_moveRoot (fun _ => willing) oneOwner (attachPrivateLeaf true) 0 0x1000000000 0x4000 0x14000 0x10000 0xc000
    ⟨?_,?_,?_,?_,?_,?_,?_,?_,?_,?_,?_⟩).mpr ⟨?_,?_⟩ starving starving_acknowledges
  all_goals decide +kernel

/-- The middle table of the system is not below the new root: two links are missing and one node is reserved. -/
theorem moveRoot_starves : Movable 0x1000000000 0x4000 0x14000 0x10000 0xc000
      ((willingRun (attachPrivateLeaf false)).graphs 0) ∧
    Acknowledging starving ∧
    (moveRoot starving 0x1000000000 0x4000 0x14000 0x10000 0xc000
      ((willingRun (attachPrivateLeaf false)).graphs 0)).1 = false := by
  refine ⟨⟨?_,?_,?_,?_,?_,?_,?_,?_,?_,?_,?_⟩,starving_acknowledges,?_⟩
  all_goals decide +kernel

end WindowsOnM1.GpuvaRelink
