import WindowsOnM1.GpuvaLedger

/-!
The operations on a graph keep the ledger of its memory: what a branch allocates it links
or frees, and what it unlinks it frees.
-/
namespace WindowsOnM1.GpuvaOwned
open MemoryLedger DrainLoop GpuvaModel GpuvaLists GpuvaMoves List
open GpuvaLinked GpuvaSteps GpuvaOperations GpuvaWorld
open GpuvaHeap GpuvaLedger

variable {env : GpuvaEnv} {temps : List Nat} {graph : GpuvaGraph} {state : GpuvaState} {heap : Heap}

variable (env) in
theorem allocated (owned : GraphOwned temps graph heap) :
    GraphOwned (graph.allocations :: temps) (allocate env graph).2 (heap.allocate graph.allocations) :=
  ⟨Owned.allocate owned.memory,owned.distinct,owned.old⟩

variable (env) in
theorem unallocated (owned : GraphOwned temps graph heap) : GraphOwned temps (allocate env graph).2 heap :=
  ⟨Ledger.later owned.memory (Nat.le_succ _),owned.distinct,owned.old⟩

variable (env) in
/-- `node` gets memory that the operation holds, or none. -/
theorem node_owned (owned : GraphOwned temps graph heap) :
    (∃ asked left, node env graph = (false,asked) ∧ nodeHeap env graph heap = (none,left) ∧ GraphOwned temps asked left) ∨
    (∃ block asked left, node env graph = (true,asked) ∧ nodeHeap env graph heap = (some block,left) ∧
      GraphOwned (block :: temps) asked left) := by
  have asked := unallocated env owned
  unfold node nodeHeap
  cases got : env.allocate graph.allocations with
  | true =>
    simp only [allocate,got,if_true]
    exact .inr ⟨_,_,_,rfl,rfl,allocated env owned⟩
  | false =>
  simp only [allocate,got,Bool.false_eq_true,if_false]
  cases spare : graph.spareNode with
  | true =>
    refine .inr ⟨_,_,_,rfl,if_pos rfl,?_,asked.distinct,asked.old⟩
    have memory := asked.memory
    simp only [allocate,spare] at memory
    exact memory.take
  | false =>
  refine .inl ⟨_,_,rfl,if_neg (by decide),?_,asked.distinct,asked.old⟩
  have memory := asked.memory
  simp only [allocate,spare] at memory
  exact memory

private theorem reserveNode_owned (owned : GraphOwned temps graph heap) :
    GraphOwned temps (reserveNode env graph).2 (reserveNodeHeap env graph heap) := by
  unfold reserveNode reserveNodeHeap
  by_cases reserved : graph.spareNode = true
  · simp only [if_pos reserved]
    exact owned
  cases got : env.allocate graph.allocations with
  | true =>
    have asked := allocated env owned
    have memory := asked.memory
    simp only [allocate,got,if_true,reserved] at memory ⊢
    exact ⟨memory.reserve,asked.distinct,asked.old⟩
  | false =>
  have asked := unallocated env owned
  have memory := asked.memory
  simp only [allocate,got,reserved] at memory ⊢
  exact ⟨memory,asked.distinct,asked.old⟩

variable (env) in
theorem table_owned (owned : GraphOwned temps graph heap) :
    (∃ asked left, node env graph = (false,asked) ∧ tableHeap env graph heap = (none,left) ∧ GraphOwned temps asked left) ∨
    (∃ asked asked' left, node env graph = (true,asked) ∧ allocate env asked = (false,asked') ∧
      tableHeap env graph heap = (none,left) ∧ GraphOwned temps asked' left) ∨
    (∃ block slots asked asked' left, node env graph = (true,asked) ∧ allocate env asked = (true,asked') ∧
      tableHeap env graph heap = (some (block,slots),left) ∧ GraphOwned (block :: slots :: temps) asked' left) := by
  unfold tableHeap
  rcases node_owned env owned with ⟨asked,left,isNode,isHeap,held⟩ | ⟨block,asked,left,isNode,isHeap,held⟩
  · rw [isHeap]
    exact .inl ⟨asked,left,isNode,rfl,held⟩
  rw [isHeap,isNode]
  right
  dsimp only
  cases got : env.allocate asked.allocations with
  | false =>
    refine .inl ⟨asked,(allocate env asked).2,_,rfl,?_,if_neg (by simp),(unallocated env held).free⟩
    simp only [allocate,got]
  | true =>
  refine .inr ⟨block,_,asked,(allocate env asked).2,_,rfl,?_,if_pos rfl,?_⟩
  · simp only [allocate,got]
  have both := allocated env held
  refine ⟨?_,both.distinct,both.old⟩
  exact Ledger.congr both.memory (fun other => by simp only [GpuvaLedger.held,blocksOf_cons]; omega)

variable (env) in
theorem updateParent_owned (tableIpa : U64) (index : Nat) (childIpa : U64) (owned : GraphOwned temps graph heap) :
    GraphOwned temps (updateParent env tableIpa index childIpa graph).2 (updateParentHeap env tableIpa index childIpa graph heap) := by
  unfold updateParent updateParentHeap
  by_cases absent : ¬ graph.created ∨ graph.uncertain
  · simp only [if_pos absent]
    exact owned
  by_cases busy : graph.jobInFlight ∨ graph.mappingGeneration = maxU64
  · simp only [if_neg absent,if_pos busy]
    exact owned
  simp only [if_neg absent,if_neg busy]
  obtain ⟨parent,found,search,owned⟩ := (owned.same (findParent_same tableIpa graph)).split
  rw [search]
  cases parent with
  | none => exact owned
  | some parent =>
  by_cases clear : childIpa = 0
  · simp only [if_pos clear]
    split_ifs with outside
    · exact owned
    cases isEdge : findEdge found.parents tableIpa index with
    | none => exact owned
    | some edge =>
    obtain ⟨done,left,isCall,owned,parents,_⟩ := owned.call env (parentRequest tableIpa index 0)
    rw [isCall]
    cases done with
    | false => exact owned
    | true => exact owned.unlinkParent parent (parents ▸ (findEdge_some isEdge).1) index
  simp only [if_neg clear]
  obtain ⟨child,found',search',owned⟩ := (owned.same (findTable_same childIpa (parent.level + 1) found)).split
  rw [search']
  cases child with
  | none => exact owned
  | some child =>
  by_cases outside : entryCount parent.level ≤ index
  · simp only [if_pos outside]
    exact owned
  simp only [if_neg outside]
  cases isEdge : findEdge found'.parents tableIpa index with
  | some edge =>
    dsimp only
    split_ifs
    · exact owned
    obtain ⟨done,left,isCall,owned,_⟩ := owned.call env (parentRequest tableIpa index childIpa)
    rw [isCall]
    cases done with
    | false => exact owned
    | true => exact owned.same ⟨rfl,serials_modify _ _ (fun _ => rfl),rfl,rfl,rfl,rfl,rfl⟩
  | none =>
  rcases node_owned env owned with ⟨asked,left,isNode,isHeap,owned⟩ | ⟨block,asked,left,isNode,isHeap,owned⟩
  · rw [isNode,isHeap]
    exact owned
  rw [isNode,isHeap]
  dsimp only
  obtain ⟨done,left,isCall,owned,_⟩ := owned.call env (parentRequest tableIpa index childIpa)
  rw [isCall]
  cases done with
  | false => exact owned.free
  | true => exact owned.linkParent parent child index

variable (env) in
private theorem attachLinks_owned (va middle leaf : U64) (rootEdge leafEdge : Option GpuvaNode) (owned : GraphOwned temps graph heap) :
    GraphOwned temps (attachLinks env va middle leaf rootEdge leafEdge graph).2
      (attachLinksHeap env va middle leaf rootEdge leafEdge graph heap) := by
  unfold attachLinks attachLinksHeap
  obtain ⟨done,linked,isOne,one⟩ := (updateParent_owned env middle (middleIndex va) leaf owned).split
  rw [isOne]
  cases done with
  | false => exact one.same ⟨rfl,rfl,rfl,rfl,rfl,rfl,rfl⟩
  | true =>
  dsimp only
  split_ifs with known
  · exact one
  obtain ⟨done,left,isTwo,two⟩ := (updateParent_owned env linked.rootIpa (privateRootIndex va) middle one).split
  rw [isTwo]
  cases done with
  | true => exact two
  | false =>
  dsimp only
  have failed : GraphOwned temps { left with attachFailure := 9 } _ := two.same ⟨rfl,rfl,rfl,rfl,rfl,rfl,rfl⟩
  split_ifs with stuck
  · exact failed
  obtain ⟨done,undone,isThree,three⟩ := (updateParent_owned env middle (middleIndex va) 0 failed).split
  rw [isThree]
  cases done with
  | true => exact three
  | false => exact three.same ⟨rfl,rfl,rfl,rfl,rfl,rfl,rfl⟩

variable (env) in
private theorem attachPrivate_owned (va middle leaf : U64) (owned : GraphOwned temps graph heap) :
    GraphOwned temps (attachPrivate env va middle leaf graph).2 (attachPrivateHeap env va middle leaf graph heap) := by
  have failed : ∀ {graph : GpuvaGraph} {heap : Heap} (failure : Nat), GraphOwned temps graph heap →
      GraphOwned temps { graph with attachFailure := failure } heap :=
    fun failure owned => owned.same ⟨rfl,rfl,rfl,rfl,rfl,rfl,rfl⟩
  unfold attachPrivate attachPrivateHeap
  by_cases absent : ¬ graph.created ∨ graph.uncertain
  · simp only [if_pos absent]
    exact failed 1 owned
  by_cases outside : ¬ privateVa va
  · simp only [if_neg absent,if_pos outside]
    exact failed 4 owned
  simp only [if_neg absent,if_neg outside]
  obtain ⟨table,found,search,owned⟩ := (owned.same (findTable_same middle 1 graph)).split
  rw [search]
  cases table with
  | none => exact failed 5 owned
  | some table =>
  dsimp only
  obtain ⟨leafTable,found',search',owned⟩ := (owned.same (findTable_same leaf 2 found)).split
  rw [search']
  cases leafTable with
  | none => exact failed 6 owned
  | some leafTable =>
  dsimp only
  split_ifs
  · exact failed 0 owned
  · exact failed 2 owned
  · exact failed 3 owned
  · exact failed 7 owned
  exact attachLinks_owned env va _ leaf _ _ (failed 0 owned)

variable (env) in
private theorem detachPrivateRoot_owned (va root leaf : U64) (owned : GraphOwned temps graph heap) :
    GraphOwned temps (detachPrivateRoot env va root leaf graph).2 (detachPrivateRootHeap env va root leaf graph heap) := by
  unfold detachPrivateRoot detachPrivateRootHeap
  split_ifs
  · exact updateParent_owned env root (privateRootIndex va) 0 owned
  exact owned

variable {backing : GpuvaNode}

variable {id : Nat} {left : GpuvaState} {done : Bool}

theorem revokeUnusedBacking_owned
    (revoke : revokeUnusedBacking env id state = (done,left)) (owned : GraphOwned temps state.graph heap) :
    GraphOwned temps left.graph (revokeUnusedBackingHeap env id state heap) := by
  unfold revokeUnusedBacking at revoke
  unfold revokeUnusedBackingHeap
  cases found : nodeAt state.graph.backings id with
  | none =>
    rw [found] at revoke
    cases revoke
    exact owned
  | some backing =>
  rw [found] at revoke
  dsimp only at revoke ⊢
  obtain ⟨mem,rfl⟩ := nodeAt_some found
  split_ifs at revoke ⊢
  · cases revoke
    exact owned
  · cases revoke
    exact owned
  · cases revoke
    exact owned.same ⟨rfl,rfl,rfl,serials_modify _ _ (fun _ => rfl),rfl,rfl,rfl⟩
  obtain ⟨done,told,isCall,owned,_,_,backings⟩ := owned.call env (revokeRequest backing)
  rw [isCall] at revoke ⊢
  cases done with
  | false =>
    cases revoke
    exact owned.same ⟨rfl,rfl,rfl,rfl,rfl,rfl,rfl⟩
  | true =>
  cases revoke
  exact owned.unlinkBacking (backings ▸ mem) state.registry

variable (state) in
theorem withdrawBacking_owned (new : Bool) (owned : GraphOwned temps state.graph heap)
    (mem : backing ∈ state.graph.backings) :
    GraphOwned temps (withdrawBacking env backing new state).graph (withdrawBackingHeap env backing new state heap) := by
  unfold withdrawBacking withdrawBackingHeap
  cases new with
  | false => exact owned.same ⟨rfl,rfl,rfl,rfl,rfl,rfl,rfl⟩
  | true =>
  obtain ⟨done,told,isCall,owned,_,_,backings⟩ := owned.call env (revokeRequest backing)
  rw [isCall]
  cases done with
  | false => exact owned.same ⟨rfl,rfl,rfl,rfl,rfl,rfl,rfl⟩
  | true => exact (owned.unlinkBacking (backings ▸ mem) state.registry).same ⟨rfl,rfl,rfl,rfl,rfl,rfl,rfl⟩

variable {table : GpuvaNode}

variable (state) in
private theorem clearLeaf_owned {leaf : GpuvaNode} (index : Nat) (owned : GraphOwned temps state.graph heap)
    (mem : leaf ∈ state.graph.leaves) :
    GraphOwned temps (clearLeaf env table leaf index state).2.graph (clearLeafHeap env table leaf index state heap) := by
  unfold clearLeaf clearLeafHeap
  cases found : findBacking state.graph leaf.auxIpa with
  | none => exact owned
  | some backing =>
  dsimp only
  split_ifs
  · exact owned
  obtain ⟨done,told,isCall,owned,_,leaves,_⟩ := owned.call env (leafRequest table.ipa index none)
  rw [isCall]
  cases done with
  | false => exact owned
  | true =>
  dsimp only
  have dropped : GraphOwned temps (dropReference backing (unlinkLeaf table leaf index told)) _ :=
    (owned.unlinkLeaf table (leaves ▸ mem) index).same ⟨rfl,rfl,rfl,serials_modify _ _ (fun _ => rfl),rfl,rfl,rfl⟩
  split
  · rename_i left revoke
    exact revokeUnusedBacking_owned revoke dropped
  rename_i left revoke
  exact (revokeUnusedBacking_owned revoke dropped).same ⟨rfl,rfl,rfl,rfl,rfl,rfl,rfl⟩

variable (env state) in
theorem obtainBacking_owned (target : LeafTarget) (owned : GraphOwned temps state.graph heap) :
    GraphOwned temps (obtainBacking env target state).2.graph (obtainBackingHeap env target state heap) := by
  unfold obtainBacking obtainBackingHeap
  cases found : findBacking state.graph target.guestIpa with
  | some backing =>
    dsimp only
    split_ifs
    · exact owned
    exact owned
  | none =>
  rcases node_owned env owned with ⟨asked,left,isNode,isHeap,owned⟩ | ⟨block,asked,left,isNode,isHeap,owned⟩
  · rw [isNode,isHeap]
    exact owned
  rw [isNode,isHeap]
  dsimp only
  generalize (if target.kind = .System then findFrame asked state.registry target.guestIpa else none) = frame
  by_cases unmapped : target.kind = .System ∧ frame.all (fun frame => frame.mappings == 0 || frame.grants == maxU64)
  · simp only [if_pos unmapped]
    exact owned.free
  by_cases exhausted : target.kind = .Private ∧ asked.nextGeneration = maxU64
  · simp only [if_neg unmapped,if_pos exhausted]
    exact owned.free
  simp only [if_neg unmapped,if_neg exhausted]
  cases isNew : newBacking target frame asked with | mk backing counted =>
  have quiet : SameNodes asked counted := by
    cases isNew
    split_ifs <;> exact ⟨rfl,rfl,rfl,rfl,rfl,rfl,rfl⟩
  replace owned := owned.same quiet
  unfold grantBacking grantBackingHeap
  obtain ⟨done,told,isCall,owned,_⟩ := owned.call env (grantRequest counted backing)
  simp only [isCall]
  cases done with
  | false => exact owned.free
  | true => exact owned.linkBacking backing state.registry

variable {index : Nat} {target : LeafTarget} {new : Bool}

private theorem storeNewLeaf_owned {block : Nat} (owned : GraphOwned (block :: temps) state.graph heap) :
    GraphOwned temps (storeNewLeaf env table index target id new state).2.graph
      (storeNewLeafHeap env table index target id new block state heap) := by
  unfold storeNewLeaf storeNewLeafHeap
  cases found : nodeAt state.graph.backings id with
  | none => exact owned.free
  | some backing =>
  dsimp only
  obtain ⟨done,told,isCall,owned,_,_,backings⟩ := owned.call env (leafRequest table.ipa index (some (target,backing.generation)))
  rw [isCall]
  cases done with
  | false => exact (withdrawBacking_owned ⟨told,state.registry⟩ new owned (backings ▸ (nodeAt_some found).1)).free
  | true => exact (owned.linkLeaf table backing index target).same ⟨rfl,rfl,rfl,serials_modify _ _ (fun _ => rfl),rfl,rfl,rfl⟩

private theorem storeLeaf_owned {leaf oldBacking : GpuvaNode} (owned : GraphOwned temps state.graph heap) :
    GraphOwned temps (storeLeaf env table leaf oldBacking index target id new state).2.graph
      (storeLeafHeap env table leaf oldBacking index target id new state heap) := by
  unfold storeLeaf storeLeafHeap
  cases found : nodeAt state.graph.backings id with
  | none => exact owned
  | some backing =>
  dsimp only
  obtain ⟨done,left,isCall,owned,_,_,backings⟩ := owned.call env (leafRequest table.ipa index (some (target,backing.generation)))
  rw [isCall]
  cases done with
  | false => exact withdrawBacking_owned ⟨left,state.registry⟩ new owned (backings ▸ (nodeAt_some found).1)
  | true =>
  dsimp only
  split_ifs
  · exact owned.same ⟨rfl,rfl,serials_modify _ _ (fun _ => rfl),rfl,rfl,rfl,rfl⟩
  have moved : GraphOwned temps (relinkLeaf leaf backing target (addReference backing (dropReference oldBacking left))) heap := by
    refine owned.same ⟨rfl,rfl,serials_modify _ _ (fun _ => rfl),?_,rfl,rfl,rfl⟩
    refine Eq.trans (serials_modify _ _ ?_) (serials_modify _ _ ?_) <;> exact fun _ => rfl
  split
  · rename_i next revoke
    exact revokeUnusedBacking_owned revoke moved
  rename_i next revoke
  exact (revokeUnusedBacking_owned revoke moved).same ⟨rfl,rfl,rfl,rfl,rfl,rfl,rfl⟩

variable (env) in
theorem tryLeafBacking_owned (tableIpa : U64) (index : Nat) (target : LeafTarget) (owned : GraphOwned temps state.graph heap) :
    GraphOwned temps (tryLeafBacking env tableIpa index target state).2.graph
      (tryLeafBackingHeap env tableIpa index target state heap) := by
  unfold tryLeafBacking tryLeafBackingHeap
  by_cases absent : ¬ state.graph.created ∨ state.graph.uncertain ∨ state.graph.jobInFlight ∨
      state.graph.mappingGeneration = maxU64 ∨ (target.kind ≠ .Local ∧ target.kind ≠ .System ∧ target.kind ≠ .Private)
  · simp only [if_pos absent]
    exact owned
  simp only [if_neg absent]
  obtain ⟨table,found,search,owned⟩ := (owned.same (findTable_same tableIpa 2 state.graph)).split
  rw [search]
  cases table with
  | none => exact owned
  | some table =>
  by_cases outside : 2048 ≤ index ∨ target.guestIpa &&& pageMask ≠ 0
  · simp only [if_pos outside]
    exact owned
  simp only [if_neg outside]
  cases isLeaf : (table.slots index).bind (nodeAt found.leaves) with
  | some leaf =>
    obtain ⟨id,_,pointer⟩ := Option.bind_eq_some_iff.mp isLeaf
    by_cases clear : target.guestIpa = 0
    · simp only [if_pos clear]
      exact clearLeaf_owned ⟨found,state.registry⟩ index owned (nodeAt_some pointer).1
    simp only [if_neg clear]
    split_ifs
    · exact owned
    cases isOld : findBacking found leaf.auxIpa with
    | none => exact owned
    | some old =>
    dsimp only
    split_ifs
    · exact owned
    have got := obtainBacking_owned env ⟨found,state.registry⟩ target owned
    cases isObtained : obtainBacking env target ⟨found,state.registry⟩ with | mk outcome left =>
    rw [isObtained] at got
    cases outcome with
    | error => exact got
    | ok named => exact storeLeaf_owned got
  | none =>
  by_cases clear : target.guestIpa = 0
  · simp only [if_pos clear]
    exact owned
  simp only [if_neg clear]
  rcases node_owned env owned with ⟨asked,left,isNode,isHeap,owned⟩ | ⟨block,asked,left,isNode,isHeap,owned⟩
  · rw [isNode,isHeap]
    exact owned
  rw [isNode,isHeap]
  dsimp only
  have got := obtainBacking_owned env ⟨asked,state.registry⟩ target owned
  cases isObtained : obtainBacking env target ⟨asked,state.registry⟩ with | mk outcome stored =>
  rw [isObtained] at got
  cases outcome with
  | error => exact got.free
  | ok named => exact storeNewLeaf_owned got

theorem updateLeaf_owned {tableIpa : U64} {guestIpa : U64} {writable : Bool}
    (update : updateLeaf env tableIpa index guestIpa writable state = (done,left)) (owned : GraphOwned temps state.graph heap) :
    GraphOwned temps left.graph (updateLeafHeap env tableIpa index guestIpa writable state heap) := by
  have stored := tryLeafBacking_owned env tableIpa index ⟨guestIpa,writable,.Local⟩ owned
  cases update
  exact stored

theorem drain_owned {σ ι : Type} {pick : σ → Option ι} {clear : ι → σ → Bool × σ} {clearHeap : ι → σ → Heap → Heap}
    (holds : σ → Heap → Prop) (step : ∀ entry state next heap done, pick state = some entry → holds state heap →
      clear entry state = (done,next) → holds next (clearHeap entry state heap))
    (turns : Nat) {state : σ} {heap : Heap} (start : holds state heap) :
    holds (drain pick clear turns state).2 (drainHeap pick clear clearHeap turns state heap) := by
  induction turns generalizing state heap with
  | zero => exact start
  | succ turns ih =>
  unfold drain drainHeap
  cases found : pick state with
  | none => exact start
  | some entry =>
  dsimp only
  cases cleared : clear entry state with | mk done next =>
  have after := step entry state next heap done found start cleared
  cases done with
  | false => exact after
  | true => exact ih after

variable (env) in
private theorem clearLinks_owned (ipa : U64) (turns : Nat) (owned : GraphOwned temps graph heap) :
    GraphOwned temps (clearLinks env ipa turns graph).2 (clearLinksHeap env ipa turns graph heap) := by
  refine drain_owned (GraphOwned temps) (fun edge graph next heap done _ owned cleared => ?_) turns owned
  split_ifs at cleared ⊢
  · cases cleared
    exact owned
  have updated := updateParent_owned env edge.ipa edge.index 0 owned
  rw [cleared] at updated
  exact updated

variable (env state) in
private theorem clearEntries_owned (table : GpuvaNode) (owned : GraphOwned temps state.graph heap) :
    GraphOwned temps (clearEntries env table state).2.graph (clearEntriesHeap env table state heap) := by
  unfold clearEntries clearEntriesHeap
  split_ifs
  · exact drain_owned (fun state heap => GraphOwned temps state.graph heap)
      (fun leaf state next heap done _ owned cleared => updateLeaf_owned cleared owned) _ owned
  refine drain_owned (GraphOwned temps) (fun edge graph next heap done _ owned cleared => ?_) _ owned
  have updated := updateParent_owned env table.ipa edge.index 0 owned
  rw [cleared] at updated
  exact updated

private theorem kept_serials {graph graph' : GpuvaGraph} (kept : Kept graph graph') : serials graph'.tables = serials graph.tables := by
  have places := congrArg (map Prod.fst) kept.places
  rw [map_map,map_map] at places
  exact places

variable (env) in
private theorem retireTable_owned (linked : Linked state.graph) (mem : table ∈ state.graph.tables)
    (owned : GraphOwned temps state.graph heap) :
    GraphOwned temps (retireTable env table state).2.graph (retireTableHeap env table state heap) := by
  unfold retireTable retireTableHeap
  split_ifs
  · exact owned
  have unlinked := clearLinks_owned env table.ipa state.graph.parents.length owned
  cases links : clearLinks env table.ipa state.graph.parents.length state.graph with | mk done first =>
  obtain ⟨steps,kept,_⟩ := clearLinks_spec linked links
  rw [links] at unlinked
  simp only [onGraph,links]
  cases done with
  | false => exact unlinked
  | true =>
  dsimp only
  have cleared := clearEntries_owned env ⟨first,state.registry⟩ table unlinked
  cases entries : clearEntries env table ⟨first,state.registry⟩ with | mk done second =>
  obtain ⟨_,kept',_⟩ : Moves ⟨True,True,True,True⟩ _ _ ∧ _ ∧ _ := clearEntries_spec entries (steps.linked linked)
  rw [entries] at cleared
  cases done with
  | false => exact cleared
  | true =>
  dsimp only
  have told := call_same env (revokeTableRequest table) second.graph
  obtain ⟨done,left,isCall,owned,_⟩ := cleared.call env (revokeTableRequest table)
  rw [isCall] at told ⊢
  cases done with
  | false => exact owned
  | true =>
  refine owned.removeTable ?_
  rw [told.tables,kept_serials (kept.trans kept')]
  exact mem_map_of_mem mem

theorem registerNewTable_owned {ipa : U64} {level block slots : Nat} (replaced : Bool)
    (owned : GraphOwned (block :: slots :: temps) graph heap) :
    GraphOwned temps (registerNewTable env ipa level replaced graph).2 (registerNewTableHeap env ipa level block slots graph heap) := by
  unfold registerNewTable registerNewTableHeap
  obtain ⟨done,left,isCall,owned,_⟩ := owned.call env { command := .RegisterTable, auxIpa := ipa, index := level }
  rw [isCall]
  cases done with
  | true => exact owned.linkTable rfl rfl rfl rfl rfl
  | false =>
  cases replaced with
  | false => exact owned.freeBoth
  | true => exact owned.freeBoth.same ⟨rfl,rfl,rfl,rfl,rfl,rfl,rfl⟩

variable (env state) in
private theorem registerTable_owned (ipa : U64) (level : Nat) (linked : Linked state.graph) (owned : GraphOwned temps state.graph heap) :
    GraphOwned temps (registerTable env ipa level state).2.graph (registerTableHeap env ipa level state heap) := by
  unfold registerTable registerTableHeap
  by_cases absent : ¬ state.graph.created ∨ state.graph.uncertain ∨ ipa = 0 ∨ ipa &&& pageMask ≠ 0 ∨ 2 < level
  · simp only [if_pos absent]
    exact owned
  simp only [if_neg absent]
  generalize isOld : state.graph.tables.find? (fun table => table.ipa == ipa) = existing
  by_cases known : existing.any (fun table => table.level == level) = true
  · simp only [if_pos known]
    exact owned
  simp only [if_neg known]
  have memory := node_quiet env state.graph
  rcases table_owned env owned with ⟨asked,left,isNode,isHeap,owned⟩ | ⟨asked,asked',left,isNode,isSlots,isHeap,owned⟩ |
    ⟨block,slots,asked,asked',left,isNode,isSlots,isHeap,owned⟩
  · simp only [isNode,isHeap]
    exact owned
  · simp only [isNode,isSlots,isHeap]
    exact owned
  simp only [isNode,isSlots,isHeap]
  rw [isNode] at memory
  have quiet := memory.trans (allocate_quiet env asked)
  rw [isSlots] at quiet
  cases existing with
  | none => exact registerNewTable_owned false owned
  | some table =>
  have there : table ∈ asked'.tables := (quiet_fields quiet).1 ▸ mem_of_find?_eq_some isOld
  have asking : Linked (GpuvaState.graph ⟨asked',state.registry⟩) := linked_quiet linked quiet
  have retired := retireTable_owned env asking there owned
  dsimp only
  cases retire : retireTable env table ⟨asked',state.registry⟩ with | mk done next =>
  rw [retire] at retired
  cases done with
  | true => exact registerNewTable_owned true retired
  | false => exact retired.freeBoth

private theorem create_owned (rootIpa : U64) (paging : Bool) (owned : GraphOwned temps graph heap) :
    GraphOwned temps (create env rootIpa paging graph).2 (createHeap env rootIpa paging graph heap) := by
  unfold create createHeap
  by_cases present : graph.created ∨ rootIpa = 0 ∨ rootIpa &&& pageMask ≠ 0 ∨ graph.uncertain
  · simp only [if_pos present]
    exact owned
  simp only [if_neg present]
  rcases table_owned env owned with ⟨asked,left,isNode,isHeap,owned⟩ | ⟨asked,asked',left,isNode,isSlots,isHeap,owned⟩ |
    ⟨block,slots,asked,asked',left,isNode,isSlots,isHeap,owned⟩
  · simp only [isNode,isHeap]
    exact owned
  · simp only [isNode,isSlots,isHeap]
    exact owned
  simp only [isNode,isSlots,isHeap]
  obtain ⟨done,next,isCall,owned,_⟩ :=
    owned.call env { command := .Create, tableIpa := rootIpa, flags := if paging then 1 else 0 }
  rw [isCall]
  cases done with
  | true => exact owned.linkTable rfl rfl rfl rfl rfl
  | false => exact owned.freeBoth

private theorem destroyBackings_owned (turns : Nat) (owned : GraphOwned temps state.graph heap) :
    GraphOwned temps (destroyBackings env turns state).2.graph (destroyBackingsHeap env turns state heap) := by
  refine drain_owned (fun state heap => GraphOwned temps state.graph heap)
    (fun backing (state : GpuvaState) next heap done found owned revoked => ?_) turns owned
  unfold revokeNext at revoked
  unfold revokeNextHeap
  obtain ⟨done,told,isCall,owned,_,_,backings⟩ := owned.call env (revokeRequest backing)
  rw [isCall] at revoked ⊢
  cases done with
  | false =>
    cases revoked
    exact owned
  | true =>
  cases revoked
  exact owned.unlinkBacking (backings ▸ mem_of_head? found) state.registry

variable {tables : List GpuvaNode}

private theorem destroyTables_owned (level : Nat) (distinct : (serials tables).Nodup)
    (inside : ∀ table ∈ tables, table.id ∈ serials graph.tables) (owned : GraphOwned temps graph heap) :
    GraphOwned temps (destroyTables env level tables graph).2 (destroyTablesHeap env level tables graph heap) := by
  induction tables generalizing graph heap with
  | nil => exact owned
  | cons table rest ih =>
  obtain ⟨apart,distinct⟩ := nodup_cons.mp distinct
  have later := fun other there => inside other (mem_cons_of_mem _ there)
  unfold destroyTables destroyTablesHeap
  by_cases skipped : table.level ≠ level ∨ table.ipa = graph.rootIpa
  · simp only [if_pos skipped]
    exact ih distinct later owned
  simp only [if_neg skipped]
  have told := call_same env (revokeTableRequest table) graph
  obtain ⟨done,left,isCall,owned,_⟩ := owned.call env (revokeTableRequest table)
  rw [isCall] at told ⊢
  cases done with
  | false => exact owned
  | true =>
  refine ih distinct (fun other there => ?_) (owned.removeTable ?_)
  · have still := later other there
    rw [← told.tables] at still
    obtain ⟨item,mem,same⟩ := mem_map.mp still
    refine mem_map.mpr ⟨item,mem_without.mpr ⟨mem,fun here => ?_⟩,same⟩
    exact apart (mem_map.mpr ⟨other,there,(same.symm.trans here)⟩)
  rw [told.tables]
  exact inside table mem_cons_self

private theorem freeTables_owned (nodes : List Nat) {spare : Bool} {next : Nat} {heap : Heap}
    (owned : Owned temps (serials tables ++ nodes) (serials tables) spare next heap) :
    Owned temps nodes [] spare next (tables.foldl (fun heap table => heap.freeTable table.id) heap) := by
  induction tables generalizing heap with
  | nil => exact owned
  | cons table rest ih => exact ih (Owned.freeTable owned)

private theorem destroyProcess_owned (owned : GraphOwned temps graph heap) (noParents : graph.parents = []) (noLeaves : graph.leaves = [])
    (noBackings : graph.backings = []) :
    GraphOwned temps (destroyProcess env graph).2 (destroyProcessHeap env graph heap) := by
  unfold destroyProcess destroyProcessHeap
  have told := call_same env { command := .Destroy } graph
  cases isCall : call env { command := .Destroy } graph with | mk done left =>
  rw [isCall] at told
  replace owned : GraphOwned temps left heap := owned.same told
  cases done with
  | false => exact owned
  | true =>
  have none : serials left.parents = [] ∧ serials left.leaves = [] ∧ serials left.backings = [] := by
    rw [told.parents,told.leaves,told.backings,noParents,noLeaves,noBackings]
    exact ⟨rfl,rfl,rfl⟩
  have empty : nodeSerials { left with
      tables := [], tableHint := Option.none, spareNode := false, created := false, rootIpa := 0, rootTable := Option.none } = [] := by
    simp only [nodeSerials,none]
    rfl
  have memory := owned.memory
  simp only [nodeSerials,none,append_nil] at memory
  have freed := freeTables_owned [] (by rwa [append_nil])
  refine ⟨?_,by rw [empty]; exact nodup_nil,fun serial mem => by rw [empty] at mem; cases mem⟩
  rw [empty]
  cases spare : left.spareNode with
  | false =>
    rw [spare] at freed
    simp only [spare,Bool.false_eq_true,if_false]
    exact freed
  | true =>
  rw [spare] at freed
  simp only [spare,if_true]
  exact freed.take.free

/-- A step of a teardown that keeps the ledger. -/
def KeepsMemory (operation : GpuvaState → Bool × GpuvaState) (operationHeap : GpuvaState → Heap → Heap)
    (before : GpuvaGraph → Prop) : Prop :=
  ∀ temps state heap, Linked state.graph → before state.graph → GraphOwned temps state.graph heap →
    GraphOwned temps (operation state).2.graph (operationHeap state heap)

theorem KeepsMemory.andThen {first second : GpuvaState → Bool × GpuvaState} {firstHeap secondHeap : GpuvaState → Heap → Heap}
    {before middle : GpuvaGraph → Prop} (one : KeepsMemory first firstHeap before)
    (achieves : Achieves ⟨True,True,True,True⟩ first before middle) (two : KeepsMemory second secondHeap middle) :
    KeepsMemory (GpuvaModel.andThen first second) (andThenHeap first firstHeap secondHeap) before := by
  intro temps state heap linked ready owned
  obtain ⟨moves,reached⟩ := achieves state linked ready
  have kept := one temps state heap linked ready owned
  unfold GpuvaModel.andThen andThenHeap
  cases isFirst : first state with | mk done left =>
  rw [isFirst] at moves reached kept
  cases done with
  | false => exact kept
  | true => exact two temps left _ (moves_linked moves linked) (reached rfl) kept

theorem destroyTables_keeps (level : Nat) : KeepsMemory (onGraph (fun graph => destroyTables env level graph.tables graph))
    (fun state => destroyTablesHeap env level state.graph.tables state.graph) Emptied := by
  intro temps state heap linked _ owned
  exact destroyTables_owned level linked.tree.tableIds (fun table mem => mem_map_of_mem mem) owned

variable (env) in
theorem destroy_owned (linked : Linked state.graph) (owned : GraphOwned temps state.graph heap) :
    GraphOwned temps (destroy env state).2.graph (destroyHeap env state heap) := by
  have leaves : KeepsMemory (fun state => destroyLeaves env state.graph.leaves.length state)
      (fun state => destroyLeavesHeap env state.graph.leaves.length state) Idle :=
    fun temps _ _ _ _ owned => drain_owned (fun state heap => GraphOwned temps state.graph heap)
      (fun _ _ _ _ _ _ owned cleared => updateLeaf_owned cleared owned) _ owned
  have backings : KeepsMemory (fun state => destroyBackings env state.graph.backings.length state)
      (fun state => destroyBackingsHeap env state.graph.backings.length state) (fun graph => Idle graph ∧ graph.leaves = []) :=
    fun _ _ _ _ _ owned => destroyBackings_owned _ owned
  have parents : KeepsMemory (onGraph (fun graph => destroyParents env graph.parents.length graph))
      (fun state => destroyParentsHeap env state.graph.parents.length state.graph)
      (fun graph => Idle graph ∧ graph.leaves = [] ∧ graph.backings = []) := by
    refine fun temps _ _ _ _ owned => drain_owned (GraphOwned temps) (fun edge graph next heap done _ owned cleared => ?_) _ owned
    have updated := updateParent_owned env edge.ipa edge.index 0 owned
    rw [cleared] at updated
    exact updated
  have process : KeepsMemory (onGraph (destroyProcess env)) (fun state => destroyProcessHeap env state.graph) Emptied :=
    fun _ _ _ _ emptied owned => destroyProcess_owned owned emptied.noParents emptied.noLeaves emptied.noBackings
  unfold destroy destroyHeap
  by_cases busy : ¬ state.graph.created ∨ state.graph.uncertain ∨ state.graph.leaseToken ≠ 0 ∨ state.graph.jobInFlight
  · simp only [if_pos busy]
    exact owned
  simp only [if_neg busy]
  simp only [not_or,Bool.not_eq_true,Bool.not_eq_false,not_not,ne_eq] at busy
  obtain ⟨present,_,noLease,noJob⟩ := busy
  exact leaves.andThen destroyLeaves_achieves (backings.andThen destroyBackings_achieves
    (parents.andThen destroyParents_achieves ((destroyTables_keeps 2).andThen (destroyTables_achieves 2)
      ((destroyTables_keeps 1).andThen (destroyTables_achieves 1) ((destroyTables_keeps 0).andThen (destroyTables_achieves 0)
        process))))) temps state heap linked ⟨present,noLease,noJob⟩ owned

private theorem bindRoot_same (ipa : U64) (graph : GpuvaGraph) : SameNodes graph (bindRoot env ipa graph).2 := by
  unfold bindRoot
  split
  · exact .refl _
  have same := findTable_same ipa 0 graph
  cases search : findTable ipa 0 graph with | mk table found =>
  rw [search] at same
  cases table with
  | none => exact same
  | some table =>
  dsimp only
  split_ifs
  · exact same
  · exact same
  have told := call_same env { command := .RelocateRoot, tableIpa := ipa } found
  cases isCall : call env { command := .RelocateRoot, tableIpa := ipa } found with | mk done left =>
  rw [isCall] at told
  cases done with
  | false => exact same.trans told
  | true =>
  have moved := findTable_same ipa 0 { left with rootIpa := ipa }
  exact (same.trans told).trans { moved with }

theorem lost_same {graph left : GpuvaGraph} (same : SameNodes graph left) (condition : Prop) [Decidable condition] :
    SameNodes graph (if condition then { left with uncertain := true } else left) := by
  split_ifs
  · exact same.trans ⟨rfl,rfl,rfl,rfl,rfl,rfl,rfl⟩
  exact same

private theorem beginJob_same (slot : Nat) (graph : GpuvaGraph) : SameNodes graph (beginJob env slot graph).2 := by
  have told := callWithResponse_same env { command := .Lease, slot := slot } graph
  unfold beginJob
  split
  · exact .refl _
  cases lease : callWithResponse env { command := .Lease, slot := slot } graph with | mk response left =>
  rw [lease] at told
  cases response with
  | none => exact lost_same told _
  | some response =>
  dsimp only
  split
  · exact lost_same told _
  have leased : SameNodes graph { left with leaseToken := response.token, slot := slot } := told.trans ⟨rfl,rfl,rfl,rfl,rfl,rfl,rfl⟩
  have both := leased.trans (call_same env { command := .JobBegin, slot := slot, token := response.token } _)
  cases begin' : call env { command := .JobBegin, slot := slot, token := response.token }
      { left with leaseToken := response.token, slot := slot } with | mk done next =>
  rw [begin'] at both
  cases done with
  | _ => exact both.trans ⟨rfl,rfl,rfl,rfl,rfl,rfl,rfl⟩

private theorem endJob_same (graph : GpuvaGraph) : SameNodes graph (endJob env graph).2 := by
  have told := call_same env { command := .JobEnd, slot := graph.slot, token := graph.leaseToken } graph
  unfold endJob
  split_ifs
  · exact .refl _
  cases ended : call env { command := .JobEnd, slot := graph.slot, token := graph.leaseToken } graph with | mk done left =>
  rw [ended] at told
  cases done with
  | false => exact told.trans ⟨rfl,rfl,rfl,rfl,rfl,rfl,rfl⟩
  | true =>
  have finished : SameNodes graph { left with jobInFlight := false } := told.trans ⟨rfl,rfl,rfl,rfl,rfl,rfl,rfl⟩
  have both := finished.trans (call_same env { command := .Release, slot := graph.slot, token := graph.leaseToken } _)
  dsimp only
  cases release : call env { command := .Release, slot := graph.slot, token := graph.leaseToken }
      { left with jobInFlight := false } with | mk done next =>
  rw [release] at both
  cases done with
  | _ => exact both.trans ⟨rfl,rfl,rfl,rfl,rfl,rfl,rfl⟩

private theorem flush_same (startVa endVa : U64) (graph : GpuvaGraph) : SameNodes graph (flush env startVa endVa graph).2 := by
  unfold flush
  split_ifs
  · exact .refl _
  exact call_same ..

private theorem leaf_same (tableIpa : U64) (index : Nat) (graph : GpuvaGraph) : SameNodes graph (leaf tableIpa index graph).2 := by
  unfold leaf
  split_ifs
  · exact .refl _
  exact findTable_same tableIpa 2 graph

private theorem addMapping_graph (frame : GpuvaFrame) (state : GpuvaState) : (addMapping frame state).2.graph = state.graph := by
  unfold addMapping
  split_ifs <;> rfl

private theorem mappingAcquire_owned (ipa : U64) (owned : GraphOwned temps state.graph heap) :
    GraphOwned temps (mappingAcquire env ipa state).2.graph heap := by
  unfold mappingAcquire
  split
  · exact owned
  dsimp only
  cases found : findFrame state.graph state.registry (ipa &&& ~~~pageMask) with
  | some frame =>
    rw [addMapping_graph]
    exact owned
  | none =>
  split_ifs
  · exact owned
  have asked := unallocated env owned
  cases answer : allocate env state.graph with | mk done left =>
  rw [answer] at asked
  cases done with
  | false => exact asked
  | true =>
  exact asked

private theorem mappingRelease_same (ipa : U64) (state : GpuvaState) : SameNodes state.graph (mappingRelease ipa state).graph := by
  unfold mappingRelease
  split
  · exact ⟨rfl,rfl,rfl,rfl,rfl,rfl,rfl⟩
  split_ifs
  · exact ⟨rfl,rfl,rfl,rfl,rfl,rfl,rfl⟩
  exact .refl _

variable (env) in
private theorem apply_owned (call : Call) (linked : Linked state.graph) (owned : GraphOwned temps state.graph heap) :
    GraphOwned temps (apply env call state).graph (applyHeap env call state heap) := by
  cases call with
  | create rootIpa paging => exact create_owned rootIpa paging owned
  | registerTable ipa level => exact registerTable_owned env state ipa level linked owned
  | bindRoot ipa => exact owned.same (bindRoot_same ipa state.graph)
  | updateParent tableIpa index childIpa => exact updateParent_owned env tableIpa index childIpa owned
  | tryLeafBacking tableIpa index target => exact tryLeafBacking_owned env tableIpa index target owned
  | attachPrivate va middle leaf => exact attachPrivate_owned env va middle leaf owned
  | detachPrivateRoot va root leaf => exact detachPrivateRoot_owned env va root leaf owned
  | beginJob slot => exact owned.same (beginJob_same slot state.graph)
  | endJob => exact owned.same (endJob_same state.graph)
  | flush startVa endVa => exact owned.same (flush_same startVa endVa state.graph)
  | leaf tableIpa index => exact owned.same (leaf_same tableIpa index state.graph)
  | reserveNode => exact reserveNode_owned owned
  | destroy => exact destroy_owned env linked owned
  | mappingAcquire ipa => exact mappingAcquire_owned ipa owned
  | mappingRelease ipa => exact owned.same (mappingRelease_same ipa state)

theorem graphInit_owned (owner : Owner) : GraphOwned [] (graphInit owner) heapInit :=
  ⟨Ledger.nil,nodup_nil,nofun⟩

theorem run_owned {n : Nat} (env : Fin n → GpuvaEnv) (who : Fin n) {world : World n} {heap : Heap} (linked : WorldLinked world)
    (owned : GraphOwned [] (world.graphs who) heap) (script : List (Fin n × Call)) :
    GraphOwned [] ((run env world script).graphs who) (runHeap env who world script heap) := by
  induction script generalizing world heap with
  | nil => exact owned
  | cons entry rest ih =>
  refine ih (step_linked env linked entry) ?_
  simp only [step,World.set]
  by_cases same : who = entry.1
  · subst same
    rw [Function.update_self,if_pos rfl]
    exact apply_owned (env entry.1) entry.2 (linked.graphs entry.1) owned
  rw [Function.update_of_ne same,if_neg (fun here => same here.symm)]
  exact owned

/-- **The memory of a graph is accounted for.** Behind any calls, and whatever the allocator and the broker answer,
    every block was handed out and freed at most once, and is live exactly if one node, slot array or reserved node is it. -/
theorem blocks_accounted {n : Nat} (env : Fin n → GpuvaEnv) (owners : Fin n → Owner) (script : List (Fin n × Call)) (who : Fin n)
    (block : Nat) : let graph := (run env (worldInit owners) script).graphs who
    let heap := runHeap env who (worldInit owners) script heapInit
    heap.events.count (.allocated block) ≤ 1 ∧ heap.events.count (.allocated block) =
      heap.events.count (.freed block) + held [] (nodeSerials graph) (serials graph.tables) graph.spareNode heap block := by
  have owned := run_owned env who (worldInit_linked owners) (graphInit_owned (owners who)) script
  refine ⟨(owned.memory.once block).trans ?_,owned.memory.balance block⟩
  unfold SerialCounts.one
  split_ifs <;> omega

end WindowsOnM1.GpuvaOwned
