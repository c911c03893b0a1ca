import WindowsOnM1.GpuvaBackings

/-!
The operations on tables, jobs and whole graphs as moves. A retirement leaves no entry of
its table, and a teardown leaves no entry at all.
-/
namespace WindowsOnM1.GpuvaOperations
open GpuvaModel GpuvaLists GpuvaMoves GpuvaLinked List
open Bool hiding not_not not_or
open DrainLoop GpuvaSteps GpuvaBackings

variable {env : GpuvaEnv} {allows : Allows}

def Cleared (graph left : GpuvaGraph) : Prop := Linked graph → Steps graph left ∧ Kept graph left
theorem Cleared.refl (graph : GpuvaGraph) : Cleared graph graph := fun _ => ⟨.refl _,.refl _⟩

theorem Cleared.trans (a b c : GpuvaGraph) (first : Cleared a b) (second : Cleared b c) : Cleared a c := by
  intro linked
  obtain ⟨steps,kept⟩ := first linked
  obtain ⟨steps',kept'⟩ := second (steps.linked linked)
  exact ⟨steps.trans steps',kept.trans kept'⟩

def ClearedState (allows : Allows) (state left : GpuvaState) : Prop :=
  Linked state.graph → Moves allows (none,state) (none,left) ∧ Kept state.graph left.graph
theorem ClearedState.refl (state : GpuvaState) : ClearedState allows state state := fun _ => ⟨.refl,.refl _⟩

theorem ClearedState.trans (a b c : GpuvaState) (first : ClearedState allows a b)
    (second : ClearedState allows b c) : ClearedState allows a c := by
  intro linked
  obtain ⟨moves,kept⟩ := first linked
  obtain ⟨moves',kept'⟩ := second (moves_linked moves linked)
  exact ⟨moves.trans moves',kept.trans kept'⟩

variable {turns : Nat} {graph : GpuvaGraph} {done : Bool}

variable (env) in
theorem drainParents {pick : GpuvaGraph → Option GpuvaNode} {clear : GpuvaNode → GpuvaGraph → Bool × GpuvaGraph}
    (inside : ∀ graph edge, pick graph = some edge → edge ∈ graph.parents)
    (step : ∀ graph edge, pick graph = some edge →
      clear edge graph = (false,graph) ∨ clear edge graph = updateParent env edge.ipa edge.index 0 graph)
    {left : GpuvaGraph} (linked : Linked graph) (enough : graph.parents.length ≤ turns)
    (loop : drain pick clear turns graph = (done,left)) :
    Steps graph left ∧ Kept graph left ∧ (done = true → pick left = none) := by
  have clears : ∀ state entry next removed, Cleared graph state → pick state = some entry →
      clear entry state = (removed,next) →
      Cleared state next ∧ (removed = true → next.parents.length < state.parents.length) := by
    intro state entry next removed reached found cleared
    have isLinked := (reached linked).1.linked linked
    rcases step state entry found with stuck | update
    · rw [stuck] at cleared
      cases cleared
      exact ⟨.refl _,nofun⟩
    rw [update] at cleared
    obtain ⟨steps,kept,fewer⟩ := clearParent_spec isLinked cleared
    exact ⟨fun _ => ⟨steps,kept⟩,fun success => fewer success entry (inside state entry found) rfl rfl⟩
  obtain ⟨cleared,finished⟩ := drain_spec Cleared.refl Cleared.trans inside clears enough loop
  exact ⟨(cleared linked).1,(cleared linked).2,finished⟩

variable {state : GpuvaState}

variable (env) in
theorem drainLeaves {pick : GpuvaState → Option GpuvaNode} {clear : GpuvaNode → GpuvaState → Bool × GpuvaState}
    (inside : ∀ state leaf, pick state = some leaf → leaf ∈ state.graph.leaves)
    (step : ∀ state leaf, pick state = some leaf → clear leaf state = updateLeaf env leaf.ipa leaf.index 0 false state)
    {left : GpuvaState} (linked : Linked state.graph)
    (enough : state.graph.leaves.length ≤ turns) (loop : drain pick clear turns state = (done,left)) :
    Moves allows (none,state) (none,left) ∧ Kept state.graph left.graph ∧ (done = true → pick left = none) := by
  have clears : ∀ middle entry next removed, ClearedState allows state middle → pick middle = some entry →
      clear entry middle = (removed,next) →
      ClearedState allows middle next ∧ (removed = true → next.graph.leaves.length < middle.graph.leaves.length) := by
    intro middle entry next removed reached found cleared
    rw [step middle entry found] at cleared
    obtain ⟨moves,kept,fewer⟩ := updateLeaf_spec (moves_linked (reached linked).1 linked) cleared
    exact ⟨fun _ => ⟨moves,kept⟩,fun success => fewer success entry (inside middle entry found) rfl rfl⟩
  obtain ⟨cleared,finished⟩ := drain_spec ClearedState.refl ClearedState.trans inside clears enough loop
  exact ⟨(cleared linked).1,(cleared linked).2,finished⟩

variable {ipa : U64}

theorem clearLinks_spec {left : GpuvaGraph} (linked : Linked graph)
    (clear : clearLinks env ipa graph.parents.length graph = (done,left)) :
    Steps graph left ∧ Kept graph left ∧ (done = true → ∀ edge ∈ left.parents, edge.auxIpa ≠ ipa) := by
  obtain ⟨steps,kept,finished⟩ := drainParents env (fun _ _ => mem_of_find?_eq_some)
    (fun graph edge _ => by split_ifs; exact .inl rfl; exact .inr rfl) linked (Nat.le_refl _) clear
  exact ⟨steps,kept,fun success edge there same => find?_eq_none.mp (finished success) edge there (beq_iff_eq.mpr same)⟩

theorem clearEdges_spec {left : GpuvaGraph} (linked : Linked graph)
    (clear : clearEdges env ipa graph.parents.length graph = (done,left)) :
    Steps graph left ∧ Kept graph left ∧ (done = true → ∀ edge ∈ left.parents, edge.ipa ≠ ipa) := by
  obtain ⟨steps,kept,finished⟩ := drainParents env (fun _ _ => mem_of_find?_eq_some)
    (fun graph edge found => by
      have under := find?_some found
      rw [beq_iff_eq] at under
      exact .inr (by rw [under])) linked (Nat.le_refl _) clear
  exact ⟨steps,kept,fun success edge there same => find?_eq_none.mp (finished success) edge there (beq_iff_eq.mpr same)⟩

theorem clearLeaves_spec {left : GpuvaState} (linked : Linked state.graph)
    (clear : clearLeaves env ipa state.graph.leaves.length state = (done,left)) :
    Moves allows (none,state) (none,left) ∧ Kept state.graph left.graph ∧
      (done = true → ∀ leaf ∈ left.graph.leaves, leaf.ipa ≠ ipa) := by
  obtain ⟨moves,kept,finished⟩ := drainLeaves env (fun _ _ => mem_of_find?_eq_some)
    (fun state leaf found => by
      have under := find?_some found
      rw [beq_iff_eq] at under
      rw [under]) linked (Nat.le_refl _) clear
  exact ⟨moves,kept,fun success leaf there same => find?_eq_none.mp (finished success) leaf there (beq_iff_eq.mpr same)⟩

variable {table : GpuvaNode}

private theorem removeTable_place {table' : GpuvaNode} (same : place table' = place table) (graph : GpuvaGraph) :
    removeTable table graph = removeTable table' graph ∧ revokeTableRequest table = revokeTableRequest table' := by
  simp only [place,Prod.mk.injEq] at same
  obtain ⟨id,ipa,level⟩ := same
  exact ⟨by simp only [removeTable,id],by simp only [revokeTableRequest,ipa,level]⟩

theorem clearEntries_spec {table : GpuvaNode} {state left : GpuvaState} {done : Bool}
    (clear : clearEntries env table state = (done,left)) (linked : Linked state.graph) :
    Moves allows (none,state) (none,left) ∧ Kept state.graph left.graph ∧ (done = true →
      (table.level = 2 → ∀ leaf ∈ left.graph.leaves, leaf.ipa ≠ table.ipa) ∧
      (table.level ≠ 2 → ∀ edge ∈ left.graph.parents, edge.ipa ≠ table.ipa)) := by
  unfold clearEntries at clear
  split_ifs at clear with level
  · obtain ⟨moves,kept,noLeaves⟩ := clearLeaves_spec linked clear
    exact ⟨moves,kept,fun success => ⟨fun _ => noLeaves success,fun other => absurd level other⟩⟩
  cases edges : clearEdges env table.ipa state.graph.parents.length state.graph with | mk empty graph =>
  obtain ⟨steps,kept,noEdges⟩ := clearEdges_spec linked edges
  simp only [onGraph,edges] at clear
  cases clear
  exact ⟨steps allows none state.registry,kept,fun success => ⟨fun other => absurd other level,fun _ => noEdges success⟩⟩

theorem table_empty (linked : Linked graph) (mem : table ∈ graph.tables)
    (noLeaves : table.level = 2 → ∀ leaf ∈ graph.leaves, leaf.ipa ≠ table.ipa)
    (noEdges : table.level ≠ 2 → ∀ edge ∈ graph.parents, edge.ipa ≠ table.ipa) :
    (∀ edge ∈ graph.parents, edge.ipa ≠ table.ipa) ∧ ∀ leaf ∈ graph.leaves, leaf.ipa ≠ table.ipa := by
  refine ⟨fun edge edgeIn under => ?_,fun leaf leafIn under => ?_⟩
  · have inner := (linked.tree.edge_table edgeIn mem under).1
    exact noEdges (by omega) edge edgeIn under
  obtain ⟨_,owner,ownerIn,isOwner,level,_⟩ := linked.tree.placed leaf leafIn
  rw [linked.tree.addresses.eq ownerIn mem (isOwner.symm.trans under)] at level
  exact noLeaves level leaf leafIn under

/-- A table that is retired has no entry left and no link to it. -/
theorem retireTable_spec {left : GpuvaState} (linked : Linked state.graph)
    (present : state.graph.created = true) (mem : table ∈ state.graph.tables)
    (retire : retireTable env table state = (done,left)) : Moves allows (none,state) (none,left) ∧
      left.graph.created = true ∧ (done = true → ∀ other ∈ left.graph.tables, other.ipa ≠ table.ipa) := by
  unfold retireTable at retire
  by_cases isRoot : table.ipa = state.graph.rootIpa
  · rw [if_pos isRoot] at retire
    cases retire
    exact ⟨.refl,present,nofun⟩
  rw [if_neg isRoot] at retire
  cases links : clearLinks env table.ipa state.graph.parents.length state.graph with | mk unlinked first =>
  obtain ⟨steps,kept,noLinks⟩ := clearLinks_spec linked links
  have moved := steps allows none state.registry
  simp only [onGraph,links] at retire
  cases unlinked with
  | false =>
    cases retire
    exact ⟨moved,kept.created.trans present,nofun⟩
  | true =>
  dsimp only at retire
  cases isSecond : clearEntries env table { state with graph := first } with | mk empty second =>
  obtain ⟨moves,kept',noEntries⟩ := clearEntries_spec isSecond (steps.linked linked)
  rw [isSecond] at retire
  have both := moved.trans moves
  have isKept := kept.trans kept'
  have isCreated := isKept.created.trans present
  cases empty with
  | false =>
    cases retire
    exact ⟨both,isCreated,nofun⟩
  | true =>
  dsimp only at retire
  obtain ⟨table',there,same⟩ := isKept.table mem
  obtain ⟨sameId,sameIpa,sameLevel⟩ : table'.id = table.id ∧ table'.ipa = table.ipa ∧ table'.level = table.level := by
    simpa only [place,Prod.mk.injEq] using same
  obtain ⟨noLeaves,noEdges⟩ := noEntries rfl
  rcases call_cases env (revokeTableRequest table) second.graph with ⟨lost,isLost,unanswered,refused⟩ |
    ⟨response,certain,acked,answered⟩
  · rw [isLost] at retire
    cases retire
    exact ⟨both.trans (refused _ _ _),unanswered.kept.created.trans isCreated,nofun⟩
  rw [answered] at retire
  cases retire
  have linked := moves_linked both linked
  obtain ⟨edgeless,leafless⟩ := table_empty linked there (fun level => sameIpa ▸ noLeaves (sameLevel ▸ level))
    (fun level => sameIpa ▸ noEdges (sameLevel ▸ level))
  have free : ∀ edge ∈ second.graph.parents, edge.ipa ≠ table'.ipa ∧ edge.auxIpa ≠ table'.ipa :=
    fun edge edgeIn => ⟨edgeless edge edgeIn,sameIpa ▸ noLinks rfl edge (kept'.parents.subset edgeIn)⟩
  obtain ⟨removed,revoke⟩ := removeTable_place same (sent second.graph (revokeTableRequest table') (some response))
  refine ⟨both.trans (.head (.change certain (.tableRemoved acked isCreated there ?_ free leafless)) ?_),
    isCreated,fun _ other otherIn here => ?_⟩
  · rw [sameIpa,isKept.rootIpa]
    exact isRoot
  · rw [← removed,← revoke]
    exact moves_quiet (.of_same rfl)
  obtain ⟨otherIn,apart⟩ := mem_without.mp otherIn
  exact apart ((congrArg GpuvaNode.id (linked.tree.addresses.eq otherIn there (here.trans sameIpa.symm))).trans sameId)

variable {level : Nat}

theorem registerNewTable_steps (replaced : Bool)
    (present : graph.created = true) (nonzero : ipa ≠ 0) (small : level ≤ 2)
    (free : ∀ table ∈ graph.tables, table.ipa ≠ ipa) : Steps graph (registerNewTable env ipa level replaced graph).2 := by
  unfold registerNewTable
  rcases call_cases env { command := .RegisterTable, auxIpa := ipa, index := level } graph with
    ⟨lost,isLost,_,refused⟩ | ⟨response,certain,acked,answered⟩
  · rw [isLost]
    cases replaced with
    | false => exact refused
    | true => exact refused.trans (.lost _)
  rw [answered]
  exact .changed certain (fun allows l registry => .tableLinked ipa level acked present nonzero small free)
    (.of_same rfl)

theorem registerTable_moves (ipa : U64) (level : Nat) (linked : Linked state.graph) :
    Moves allows (none,state) (none,(registerTable env ipa level state).2) := by
  unfold registerTable
  by_cases absent : ¬ state.graph.created ∨ state.graph.uncertain ∨ ipa = 0 ∨ ipa &&& pageMask ≠ 0 ∨ 2 < level
  · rw [if_pos absent]
  rw [if_neg absent]
  simp only [not_or,not_eq_true,not_eq_false] at absent
  obtain ⟨present,certain,nonzero,_,small⟩ := absent
  generalize isOld : state.graph.tables.find? (fun table => table.ipa == ipa) = existing
  dsimp only
  split_ifs
  · exact .refl
  have memory := node_quiet env state.graph
  cases isNode : node env state.graph with | mk enough asked =>
  rw [isNode] at memory
  cases enough with
  | false => exact moves_quiet memory
  | true =>
  dsimp only
  have slots := memory.trans (allocate_quiet env asked)
  cases isSlots : allocate env asked with | mk enough' asked' =>
  rw [isSlots] at slots
  have asking : Moves allows (none,state) (none,{ state with graph := asked' }) := moves_quiet slots
  obtain ⟨tables,_,_,_,_,created,_⟩ := quiet_fields slots
  cases enough' with
  | false => exact asking
  | true =>
  refine asking.trans ?_
  cases existing with
  | none =>
    have free : ∀ table ∈ asked'.tables, table.ipa ≠ ipa := by
      intro table mem same
      exact find?_eq_none.mp isOld table (tables ▸ mem) (beq_iff_eq.mpr same)
    exact registerNewTable_steps false (created.trans present) nonzero (Nat.le_of_not_lt small) free allows none state.registry
  | some table =>
  have here := find?_some isOld
  rw [beq_iff_eq] at here
  dsimp only
  cases retire : retireTable env table { state with graph := asked' } with | mk retired left =>
  obtain ⟨moves,created',free⟩ := retireTable_spec (moves_linked asking linked) (created.trans present)
    (tables ▸ mem_of_find?_eq_some isOld) retire
  cases retired with
  | false => exact moves
  | true =>
  exact moves.trans (registerNewTable_steps true created' nonzero (Nat.le_of_not_lt small) (here ▸ free rfl)
    allows none left.registry)

theorem create_steps (rootIpa : U64) (paging : Bool) (graph : GpuvaGraph) :
    Steps graph (create env rootIpa paging graph).2 := by
  unfold create
  split
  · exact .refl _
  rename_i present
  simp only [not_or,not_eq_true] at present
  obtain ⟨absent,nonzero,_⟩ := present
  have memory := node_quiet env graph
  cases isNode : node env graph with | mk enough asked =>
  rw [isNode] at memory
  cases enough with
  | false => exact quiet_steps memory
  | true =>
  dsimp only
  have slots := memory.trans (allocate_quiet env asked)
  cases isSlots : allocate env asked with | mk enough' asked' =>
  rw [isSlots] at slots
  cases enough' with
  | false => exact quiet_steps slots
  | true =>
  refine (quiet_steps slots).trans ?_
  obtain ⟨_,_,_,_,_,created,_⟩ := quiet_fields slots
  dsimp only
  rcases call_cases env { command := .Create, tableIpa := rootIpa, flags := if paging then 1 else 0 } asked' with
    ⟨lost,isLost,_,refused⟩ | ⟨response,certain,acked,answered⟩
  · rw [isLost]
    exact refused
  rw [answered]
  exact .changed certain (fun allows l registry => .created rootIpa _ acked (created.trans absent) nonzero)
    (.of_same rfl)

private theorem relocateRoot_quiet (graph : GpuvaGraph) (mem : table ∈ graph.tables)
    (here : table.ipa = ipa) (level : table.level = 0) : ∃ moved ∈ graph.tables, moved.ipa = ipa ∧ moved.level = 0 ∧
      Quiet { graph with rootIpa := moved.ipa, rootTable := some moved.id } (relocateRoot ipa graph) := by
  unfold relocateRoot
  split
  rename_i again found search
  obtain ⟨quiet,isTable,missing⟩ := findTable_spec search
  cases again with
  | none => exact absurd ⟨here,level⟩ (missing rfl table mem)
  | some again =>
  obtain ⟨there,rfl,level'⟩ := isTable again rfl
  obtain ⟨_,_,_,_,_,_,_,_,rfl,hint⟩ := quiet
  exact ⟨again,there,rfl,level',_,_,_,_,_,_,_,_,rfl,hint⟩

/-- A root of the graph that is not the one it has. -/
def Rebinds (ipa : U64) (graph : GpuvaGraph) : Prop :=
  graph.rootIpa ≠ ipa ∧ ∃ table ∈ graph.tables, table.ipa = ipa ∧ table.level = 0

theorem bindRoot_moves (ipa : U64) (graph : GpuvaGraph) (l : Option Nat) (registry : GpuvaRegistry)
    (rebinds : Rebinds ipa graph → allows.rebinds) :
    Moves allows (l,⟨graph,registry⟩) (l,⟨(bindRoot env ipa graph).2,registry⟩) := by
  unfold bindRoot
  by_cases absent : ¬ graph.created ∨ graph.uncertain
  · rw [if_pos absent]
  rw [if_neg absent]
  simp only [not_or,not_eq_true,not_eq_false] at absent
  split
  · rename_i found search
    exact quiet_steps (findTable_spec search).1 _ _ _
  rename_i table found search
  obtain ⟨quiet,isTable,_⟩ := findTable_spec search
  obtain ⟨mem,here,level⟩ := isTable table rfl
  obtain ⟨tables,_,_,_,_,created,rootIpa,_⟩ := quiet_fields quiet
  refine (quiet_steps quiet _ _ _).trans ?_
  split_ifs with exhausted same
  · exact .refl
  · exact .refl
  rcases call_cases env { command := .RelocateRoot, tableIpa := ipa } found with
    ⟨lost,isLost,_,refused⟩ | ⟨response,certain,acked,answered⟩
  · rw [isLost]
    exact refused _ _ _
  rw [answered]
  have other : allows.rebinds := rebinds ⟨fun isRoot => same (rootIpa.trans isRoot),table,mem,here,level⟩
  obtain ⟨moved,there,rfl,level',quiet'⟩ := relocateRoot_quiet
    { sent found { command := .RelocateRoot, tableIpa := ipa } (some response) with lastStatus := response.status }
    (tables ▸ mem) here level
  exact .head (.change certain (.rootMoved other acked (created.trans absent.1) there level'))
    (.single (.quiet (.trans ⟨_,_,response.status,_,_,_,_,_,rfl,fun _ => .inl⟩ quiet')))

theorem attachFailure_quiet (graph : GpuvaGraph) (failure : Nat) : Quiet graph { graph with attachFailure := failure } :=
  .of_same rfl

private theorem attachLinks_steps (va middle leaf : U64) (rootEdge leafEdge : Option GpuvaNode)
    (graph : GpuvaGraph) : Steps graph (attachLinks env va middle leaf rootEdge leafEdge graph).2 := by
  unfold attachLinks
  cases isJoined : updateParent env middle (middleIndex va) leaf graph with | mk done joined =>
  have first := (updates_of isJoined).steps
  cases done with
  | false => exact first.trans (quiet_steps (attachFailure_quiet _ _))
  | true =>
  dsimp only
  split_ifs
  · exact first
  cases isRooted : updateParent env joined.rootIpa (privateRootIndex va) middle joined with | mk done' left =>
  have second := first.trans (updates_of isRooted).steps
  cases done' with
  | true => exact second
  | false =>
  have failed := second.trans (quiet_steps (attachFailure_quiet left 9))
  dsimp only
  split_ifs
  · exact failed
  cases isCleared : updateParent env middle (middleIndex va) 0 { left with attachFailure := 9 } with | mk done'' left' =>
  have third := failed.trans (updates_of isCleared).steps
  cases done'' with
  | true => exact third
  | false => exact third.trans (.lost _)

theorem attachPrivate_steps (va middle leaf : U64) (graph : GpuvaGraph) :
    Steps graph (attachPrivate env va middle leaf graph).2 := by
  unfold attachPrivate
  split
  · exact quiet_steps (attachFailure_quiet _ _)
  split
  · exact quiet_steps (attachFailure_quiet _ _)
  split
  · rename_i found search
    exact quiet_steps ((findTable_spec search).1.trans (attachFailure_quiet _ _))
  rename_i table found search
  have first := (findTable_spec search).1
  split
  · rename_i found' search'
    exact quiet_steps ((first.trans (findTable_spec search').1).trans (attachFailure_quiet _ _))
  rename_i table' found' search'
  have ready := quiet_steps ((first.trans (findTable_spec search').1).trans (attachFailure_quiet _ 0))
  refine ready.trans ?_
  dsimp only
  split_ifs
  · exact .refl _
  · exact quiet_steps (attachFailure_quiet _ _)
  · exact quiet_steps (attachFailure_quiet _ _)
  · exact quiet_steps (attachFailure_quiet _ _)
  exact attachLinks_steps _ _ _ _ _ _

theorem detachPrivateRoot_steps (va root leaf : U64) (graph : GpuvaGraph) :
    Steps graph (detachPrivateRoot env va root leaf graph).2 := by
  unfold detachPrivateRoot
  split_ifs
  · exact updateParent_steps env _ _ _ _
  exact .refl _

theorem flush_steps (startVa endVa : U64) (graph : GpuvaGraph) : Steps graph (flush env startVa endVa graph).2 := by
  unfold flush
  split_ifs
  · exact .refl _
  rcases call_cases env { command := .FlushTlb, tableIpa := graph.rootIpa, logicalIpa := fun i =>
      if i = 0 then startVa else if i = 1 then endVa else 0 } graph with
    ⟨lost,isLost,_,refused⟩ | ⟨response,certain,acked,answered⟩
  · rw [isLost]
    exact refused
  rw [answered]
  exact .changed certain (fun allows l registry => .flushed _ rfl acked) (.of_same rfl)

theorem leaf_quiet (tableIpa : U64) (index : Nat) (graph : GpuvaGraph) : Quiet graph (leaf tableIpa index graph).2 := by
  unfold leaf
  split_ifs
  · exact .refl _
  split
  rename_i found search
  exact (findTable_spec search).1

theorem lost_if (graph : GpuvaGraph) (condition : Prop) [Decidable condition] :
    Steps graph (if condition then { graph with uncertain := true } else graph) := by
  split_ifs
  · exact .lost _
  exact .refl _

theorem beginJob_steps (slot : Nat) (graph : GpuvaGraph) : Steps graph (beginJob env slot graph).2 := by
  unfold beginJob
  split
  · exact .refl _
  rename_i busy
  simp only [not_or,not_eq_true,not_eq_false,not_not,ne_eq] at busy
  obtain ⟨present,_,noLease,_⟩ := busy
  rcases callWithResponse_cases env { command := .Lease, slot := slot } graph with
    ⟨lost,isLost,_,refused⟩ | ⟨response,certain,acked,answered⟩
  · rw [isLost]
    exact refused.trans (lost_if _ _)
  rw [answered]
  dsimp only
  split
  · rename_i noToken
    refine .trans (.changed certain (fun allows l registry => .leased slot acked present) ?_) (lost_if _ _)
    rw [noToken,← noLease]
    exact .of_same rfl
  have leased : Steps graph { sent graph { command := .Lease, slot := slot } (some response) with
      lastStatus := response.status, leaseToken := response.token, slot := slot } :=
    .changed certain (fun allows l registry => .leased slot acked present) (.of_same rfl)
  refine leased.trans ?_
  rcases call_cases env { command := .JobBegin, slot := slot, token := response.token }
      { sent graph { command := .Lease, slot := slot } (some response) with
        lastStatus := response.status, leaseToken := response.token, slot := slot } with
    ⟨lost,isLost,_,refused⟩ | ⟨response',certain',acked',answered'⟩
  · rw [isLost]
    exact refused.trans (.lost _)
  rw [answered']
  exact .changed certain' (fun allows l registry => .jobBegun _ rfl acked' present) (.of_same rfl)

theorem endJob_moves (graph : GpuvaGraph) (l : Option Nat) (registry : GpuvaRegistry) (ends : allows.ends) :
    Moves allows (l,⟨graph,registry⟩) (l,⟨(endJob env graph).2,registry⟩) := by
  unfold endJob
  split_ifs
  · exact .refl
  rcases call_cases env { command := .JobEnd, slot := graph.slot, token := graph.leaseToken } graph with
    ⟨lost,isLost,_,refused⟩ | ⟨response,certain,acked,answered⟩
  · rw [isLost]
    exact (refused.trans (.lost _)) _ _ _
  rw [answered]
  have ended : Moves allows (l,⟨graph,registry⟩) (l,⟨{ sent graph
      { command := .JobEnd, slot := graph.slot, token := graph.leaseToken } (some response) with
      lastStatus := response.status, jobInFlight := false },registry⟩) :=
    .head (.change certain (.jobEnded ends _ rfl acked)) (.single (.quiet (.of_same rfl)))
  refine ended.trans ?_
  dsimp only
  rcases call_cases env { command := .Release, slot := graph.slot, token := graph.leaseToken }
      { sent graph { command := .JobEnd, slot := graph.slot, token := graph.leaseToken } (some response) with
        lastStatus := response.status, jobInFlight := false } with
    ⟨lost,isLost,_,refused⟩ | ⟨response',certain',acked',answered'⟩
  · rw [isLost]
    exact (refused.trans (.lost _)) _ _ _
  rw [answered']
  exact .head (.change certain' (.leaseReleased { command := .Release, slot := graph.slot, token := graph.leaseToken } rfl
    acked')) (.single (.quiet (.of_same rfl)))

/-- A graph without a job and without a lease. -/
structure Idle (graph : GpuvaGraph) : Prop where
  created : graph.created = true
  noLease : graph.leaseToken = 0
  noJob : graph.jobInFlight = false

theorem Idle.kept {left : GpuvaGraph} (idle : Idle graph) (kept : Kept graph left) : Idle left :=
  ⟨kept.created.trans idle.created,kept.leaseToken.trans idle.noLease,kept.jobInFlight.trans idle.noJob⟩

/-- An idle graph that has only tables left. -/
structure Emptied (graph : GpuvaGraph) : Prop extends Idle graph where
  noLeaves : graph.leaves = []
  noBackings : graph.backings = []
  noParents : graph.parents = []

/-- What a step of the teardown takes and what it leaves. -/
def Achieves (allows : Allows) (operation : GpuvaState → Bool × GpuvaState) (before after : GpuvaGraph → Prop) : Prop :=
  ∀ state, Linked state.graph → before state.graph → Moves allows (none,state) (none,(operation state).2) ∧
    ((operation state).1 = true → after (operation state).2.graph)

theorem Achieves.andThen {first second : GpuvaState → Bool × GpuvaState} {before middle after : GpuvaGraph → Prop}
    (one : Achieves allows first before middle) (two : Achieves allows second middle after) :
    Achieves allows (GpuvaModel.andThen first second) before after := by
  intro state linked ready
  obtain ⟨moves,reached⟩ := one state linked ready
  unfold GpuvaModel.andThen
  cases isFirst : first state with | mk done left =>
  rw [isFirst] at moves reached
  cases done with
  | false => exact ⟨moves,nofun⟩
  | true =>
  obtain ⟨moves',reached'⟩ := two left (moves_linked moves linked) (reached rfl)
  exact ⟨moves.trans moves',reached'⟩

theorem destroyLeaves_achieves : Achieves allows (fun state => destroyLeaves env state.graph.leaves.length state) Idle
    (fun graph => Idle graph ∧ graph.leaves = []) := by
  intro state linked idle
  obtain ⟨moves,kept,finished⟩ := drainLeaves env (fun _ _ => mem_of_head?)
    (fun _ _ _ => rfl) linked (Nat.le_refl _) (rfl : destroyLeaves env state.graph.leaves.length state = _)
  exact ⟨moves,fun success => ⟨idle.kept kept,head?_eq_none_iff.mp (finished success)⟩⟩

theorem revokeNext_spec {backing : GpuvaNode} {state left : GpuvaState} {done : Bool} (linked : Linked state.graph)
    (present : state.graph.created = true) (noLeaves : state.graph.leaves = [])
    (mem : backing ∈ state.graph.backings) (revoke : revokeNext env backing state = (done,left)) :
    Moves allows (none,state) (none,left) ∧ Kept state.graph left.graph ∧
      (done = true → left.graph.backings.length < state.graph.backings.length) := by
  unfold revokeNext at revoke
  rcases call_cases env (revokeRequest backing) state.graph with ⟨lost,isLost,unanswered,refused⟩ |
    ⟨response,certain,acked,answered⟩
  · rw [isLost] at revoke
    cases revoke
    exact ⟨refused _ _ _,unanswered.kept,nofun⟩
  rw [answered] at revoke
  cases revoke
  refine ⟨moves_revoked certain acked present mem (.inr noLeaves) nofun,
    (sent_kept _ _ _ _).trans (releaseGrant_kept _ _ _),fun _ => ?_⟩
  rw [← length_without linked.backings.ids mem]
  exact Nat.lt_succ_self _

theorem destroyBackings_achieves : Achieves allows (fun state => destroyBackings env state.graph.backings.length state)
    (fun graph => Idle graph ∧ graph.leaves = []) (fun graph => Idle graph ∧ graph.leaves = [] ∧ graph.backings = []) := by
  intro start linked ⟨idle,noLeaves⟩
  have clears : ∀ state backing next removed, ClearedState allows start state → state.graph.backings.head? = some backing →
      revokeNext env backing state = (removed,next) → ClearedState allows state next ∧
        (removed = true → next.graph.backings.length < state.graph.backings.length) := by
    intro state backing next removed reached found revoke
    obtain ⟨moves,kept⟩ := reached linked
    have none : state.graph.leaves = [] := sublist_nil.mp (noLeaves ▸ kept.leaves)
    obtain ⟨moves',kept',fewer⟩ := revokeNext_spec (moves_linked moves linked) (kept.created.trans idle.created) none
      (mem_of_head? found) revoke
    exact ⟨fun _ => ⟨moves',kept'⟩,fewer⟩
  obtain ⟨cleared,finished⟩ := drain_spec ClearedState.refl ClearedState.trans (fun _ _ => mem_of_head?) clears
    (Nat.le_refl _) (rfl : destroyBackings env start.graph.backings.length start = _)
  obtain ⟨moves,kept⟩ := cleared linked
  exact ⟨moves,fun success => ⟨idle.kept kept,sublist_nil.mp (noLeaves ▸ kept.leaves),
    head?_eq_none_iff.mp (finished success)⟩⟩

theorem onGraph_achieves {operation : GpuvaGraph → Bool × GpuvaGraph} {before after : GpuvaGraph → Prop}
    (achieves : ∀ graph, Linked graph → before graph → Steps graph (operation graph).2 ∧
      ((operation graph).1 = true → after (operation graph).2)) : Achieves allows (onGraph operation) before after := by
  intro state linked ready
  obtain ⟨steps,reached⟩ := achieves state.graph linked ready
  exact ⟨steps allows none state.registry,reached⟩

theorem destroyParents_achieves : Achieves allows (onGraph (fun graph => destroyParents env graph.parents.length graph))
    (fun graph => Idle graph ∧ graph.leaves = [] ∧ graph.backings = []) Emptied := by
  refine onGraph_achieves (fun graph linked ⟨idle,noLeaves,noBackings⟩ => ?_)
  obtain ⟨steps,kept,finished⟩ := drainParents env (fun _ _ => mem_of_head?) (fun _ _ _ => .inr rfl) linked
    (Nat.le_refl _) (rfl : destroyParents env graph.parents.length graph = _)
  exact ⟨steps,fun success => ⟨idle.kept kept,sublist_nil.mp (noLeaves ▸ kept.leaves),kept.noBackings noBackings,
    head?_eq_none_iff.mp (finished success)⟩⟩

theorem destroyTables_spec {tables : List GpuvaNode} {left : GpuvaGraph}
    (emptied : Emptied graph) (listed : graph.uncertain = false → Ids tables ∧ ∀ table ∈ tables, table ∈ graph.tables)
    (destroy : destroyTables env level tables graph = (done,left)) : Steps graph left ∧ Emptied left := by
  induction tables generalizing graph with
  | nil =>
    cases destroy
    exact ⟨.refl _,emptied⟩
  | cons table rest ih =>
  unfold destroyTables at destroy
  split_ifs at destroy with skipped
  · refine ih emptied (fun certain => ?_) destroy
    obtain ⟨ids,inside⟩ := listed certain
    exact ⟨(nodup_cons.mp ids).2,fun other later => inside other (mem_cons_of_mem _ later)⟩
  rcases call_cases env (revokeTableRequest table) graph with ⟨lost,isLost,unanswered,refused⟩ |
    ⟨response,certain,acked,answered⟩
  · rw [isLost] at destroy
    cases destroy
    obtain ⟨_,_,_,rfl,_⟩ := unanswered
    exact ⟨refused,{ emptied with }⟩
  rw [answered] at destroy
  obtain ⟨ids,inside⟩ := listed certain
  obtain ⟨apart,ids⟩ := nodup_cons.mp ids
  have removed : Steps graph (removeTable table { sent graph (revokeTableRequest table) (some response) with
      lastStatus := response.status }) := by
    refine .changed certain (fun allows l registry => .tableRemoved acked emptied.created (inside table mem_cons_self)
      (not_or.mp skipped).2 ?_ ?_) (.of_same rfl)
    · rw [emptied.noParents]
      exact fun _ bad => absurd bad not_mem_nil
    rw [emptied.noLeaves]
    exact fun _ bad => absurd bad not_mem_nil
  have still : Emptied (removeTable table { sent graph (revokeTableRequest table) (some response) with
      lastStatus := response.status }) := { emptied with }
  obtain ⟨steps,finally'⟩ := ih still (fun _ => ⟨ids,fun other later => mem_without.mpr
    ⟨inside other (mem_cons_of_mem _ later),fun same => apart (mem_map.mpr ⟨other,later,same⟩)⟩⟩) destroy
  exact ⟨removed.trans steps,finally'⟩

theorem destroyTables_achieves (level : Nat) : Achieves allows (onGraph (fun graph => destroyTables env level graph.tables graph))
    Emptied Emptied := by
  refine onGraph_achieves (fun graph linked emptied => ?_)
  obtain ⟨steps,emptied'⟩ := destroyTables_spec emptied (fun certain => ⟨linked.tree.tableIds,fun _ => id⟩)
    (rfl : destroyTables env level graph.tables graph = _)
  exact ⟨steps,fun _ => emptied'⟩

private theorem destroyProcess_achieves : Achieves allows (onGraph (destroyProcess env)) Emptied (fun graph => graph.created = false) := by
  intro state linked emptied
  simp only [onGraph,destroyProcess]
  rcases call_cases env { command := .Destroy } state.graph with ⟨lost,isLost,_,refused⟩ |
    ⟨response,certain,acked,answered⟩
  · rw [isLost]
    exact ⟨refused _ _ _,nofun⟩
  rw [answered]
  exact ⟨.head (.change certain (.destroyed acked emptied.created emptied.noLeaves emptied.noBackings
    emptied.noParents emptied.noLease emptied.noJob)) (moves_quiet (.of_same rfl)),fun _ => rfl⟩

theorem destroy_moves (linked : Linked state.graph) : Moves allows (none,state) (none,(destroy env state).2) := by
  unfold destroy
  by_cases busy : ¬ state.graph.created ∨ state.graph.uncertain ∨ state.graph.leaseToken ≠ 0 ∨ state.graph.jobInFlight
  · rw [if_pos busy]
  rw [if_neg busy]
  simp only [not_or,not_eq_true,not_eq_false,not_not,ne_eq] at busy
  obtain ⟨present,_,noLease,noJob⟩ := busy
  exact (destroyLeaves_achieves.andThen (destroyBackings_achieves.andThen (destroyParents_achieves.andThen
    ((destroyTables_achieves 2).andThen ((destroyTables_achieves 1).andThen ((destroyTables_achieves 0).andThen
      destroyProcess_achieves))))) state linked ⟨present,noLease,noJob⟩).1

end WindowsOnM1.GpuvaOperations
