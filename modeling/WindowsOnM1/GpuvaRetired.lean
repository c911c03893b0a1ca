import WindowsOnM1.GpuvaFrozen

/-!
What the registration of a table changes. A page that was a table of another level loses
the edges to it and its own entries; none of them is on a walk from the root, so that
every address keeps its translation.
-/
namespace WindowsOnM1.GpuvaRetired
open DrainLoop GpuvaModel GpuvaLists GpuvaMoves GpuvaLinked List
open GpuvaSteps GpuvaBackings GpuvaOperations GpuvaWorld GpuvaWalk
open GpuvaFrozen

variable {env : GpuvaEnv}

variable {ipa : U64}

theorem findEdge_kept {entries entries' : List GpuvaNode} (keys : Keys entries) (fewer : entries'.Sublist entries)
    (kept : ∀ entry ∈ entries, entry.ipa = ipa → entry ∈ entries') (index : Nat) :
    findEdge entries' ipa index = findEdge entries ipa index := by
  cases found : findEdge entries ipa index with
  | some entry =>
    obtain ⟨mem,rfl,rfl⟩ := findEdge_some found
    exact findEdge_mem (keys.sublist (fewer.map _)) (kept entry mem rfl)
  | none =>
  cases found' : findEdge entries' ipa index with
  | none => rfl
  | some entry =>
  obtain ⟨mem,here⟩ := findEdge_some found'
  exact absurd here (findEdge_none found entry (fewer.subset mem))

theorem reachable_root (graph : GpuvaGraph) (depth : Nat) : reachable graph depth graph.rootIpa = true := by
  cases depth <;> simp [reachable]

variable {graph : GpuvaGraph}

theorem reachable_edge {edge : GpuvaNode} (mem : edge ∈ graph.parents) {depth : Nat}
    (above : reachable graph depth edge.ipa = true) : reachable graph (depth + 1) edge.auxIpa = true := by
  rw [reachable,Bool.or_eq_true,any_eq_true]
  exact .inr ⟨edge,mem,by simp [above]⟩

variable {left : GpuvaGraph}

theorem reachable_same (same : SameTree graph left) (depth : Nat) (ipa : U64) :
    reachable left depth ipa = reachable graph depth ipa := by
  induction depth generalizing ipa with
  | zero => rw [reachable,reachable,same.rootIpa]
  | succ depth ih => simp only [reachable,same.rootIpa,same.parents,ih]

theorem reachable_unlinked (notRoot : ipa ≠ graph.rootIpa)
    (unlinked : ∀ edge ∈ graph.parents, edge.auxIpa ≠ ipa) (depth : Nat) : reachable graph depth ipa = false := by
  cases depth with
  | zero => simp [reachable,notRoot]
  | succ depth =>
  have noEdge : graph.parents.any (fun edge => edge.auxIpa == ipa && reachable graph depth edge.ipa) = false := by
    rw [any_eq_false]
    intro edge mem
    simp [unlinked edge mem]
  simp [reachable,notRoot,noEdge]

theorem listTranslate_kept (rootIpa : left.rootIpa = graph.rootIpa)
    (edges : ∀ ipa, reachable graph 4 ipa = true → ∀ index, findEdge left.parents ipa index = findEdge graph.parents ipa index)
    (leaves : ∀ ipa, reachable graph 4 ipa = true → ∀ index, findEdge left.leaves ipa index = findEdge graph.leaves ipa index)
    (va : U64) : listTranslate left va = listTranslate graph va := by
  have middle : listMiddle left va = listMiddle graph va := by
    rw [listMiddle,listMiddle,rootIpa,edges _ (reachable_root graph 4)]
    refine Option.bind_congr (fun edge found => ?_)
    obtain ⟨mem,under,_⟩ := findEdge_some found
    exact edges _ (reachable_edge mem (under ▸ reachable_root graph 3)) _
  have leaf : listLeaf left va = listLeaf graph va := by
    rw [listLeaf,listLeaf,middle]
    refine Option.bind_congr (fun edge found => ?_)
    obtain ⟨first,isFirst,isSecond⟩ := Option.bind_eq_some_iff.mp found
    obtain ⟨firstIn,under,_⟩ := findEdge_some isFirst
    obtain ⟨secondIn,under',_⟩ := findEdge_some isSecond
    exact leaves _ (reachable_edge secondIn (under' ▸ reachable_edge firstIn (under ▸ reachable_root graph 2))) _
  rw [listTranslate,listTranslate,leaf]

def bare (table : GpuvaNode) : GpuvaNode := { table with slots := fun _ => none }

/-- Only edges to and from a page and leaves of the page are removed, and no walk meets them. -/
structure Trimmed (ipa : U64) (graph left : GpuvaGraph) : Prop where
  tables : left.tables.map bare = graph.tables.map bare
  parents : left.parents.Sublist graph.parents
  parentsKept : ∀ edge ∈ graph.parents, edge.ipa ≠ ipa → edge.auxIpa ≠ ipa → edge ∈ left.parents
  leaves : left.leaves.Sublist graph.leaves
  leavesKept : ∀ leaf ∈ graph.leaves, leaf.ipa ≠ ipa → leaf ∈ left.leaves
  rootIpa : left.rootIpa = graph.rootIpa
  created : left.created = graph.created
  walks : ∀ va, listTranslate left va = listTranslate graph va

variable {ipa : U64}

theorem Trimmed.of_same (same : SameTree graph left) (tables : left.tables = graph.tables) :
    Trimmed ipa graph left where
  tables := by rw [tables]
  parents := by rw [same.parents]
  parentsKept := fun edge mem _ _ => same.parents ▸ mem
  leaves := by rw [same.leaves]
  leavesKept := fun leaf mem _ => same.leaves ▸ mem
  rootIpa := same.rootIpa
  created := same.created
  walks := listTranslate_same same

theorem Trimmed.refl (graph : GpuvaGraph) : Trimmed ipa graph graph := .of_same (.refl _) rfl

theorem Trimmed.trans {a b c : GpuvaGraph} (first : Trimmed ipa a b) (second : Trimmed ipa b c) : Trimmed ipa a c where
  tables := second.tables.trans first.tables
  parents := second.parents.trans first.parents
  parentsKept := fun edge mem above below => second.parentsKept edge (first.parentsKept edge mem above below) above below
  leaves := second.leaves.trans first.leaves
  leavesKept := fun leaf mem apart => second.leavesKept leaf (first.leavesKept leaf mem apart) apart
  rootIpa := second.rootIpa.trans first.rootIpa
  created := second.created.trans first.created
  walks := fun va => (second.walks va).trans (first.walks va)

theorem quiet_same {graph' : GpuvaGraph} (quiet : Quiet graph graph') :
    SameTree graph graph' ∧ graph'.tables = graph.tables := by
  obtain ⟨tables,parents,leaves,_,_,created,rootIpa,_⟩ := quiet_fields quiet
  exact ⟨⟨parents,leaves,rootIpa,created⟩,tables⟩
theorem unanswered_same (unanswered : Unanswered graph left) : SameTree graph left ∧ left.tables = graph.tables := by
  obtain ⟨_,_,_,rfl,_⟩ := unanswered
  exact ⟨⟨rfl,rfl,rfl,rfl⟩,rfl⟩
theorem Trimmed.quiet (quiet : Quiet graph left) : Trimmed ipa graph left :=
  .of_same (quiet_same quiet).1 (quiet_same quiet).2
theorem Trimmed.unanswered (unanswered : Unanswered graph left) : Trimmed ipa graph left :=
  .of_same (unanswered_same unanswered).1 (unanswered_same unanswered).2

theorem Trimmed.edge (linked : Linked graph) {edge : GpuvaNode} (mem : edge ∈ graph.parents)
    (dead : reachable graph 4 edge.ipa = false) (stale : edge.ipa = ipa ∨ edge.auxIpa = ipa)
    (tables : left.tables.map bare = graph.tables.map bare) (parents : left.parents = without graph.parents edge.id)
    (leaves : left.leaves = graph.leaves) (rootIpa : left.rootIpa = graph.rootIpa) (created : left.created = graph.created) :
    Trimmed ipa graph left where
  tables := tables
  parents := parents ▸ filter_sublist
  parentsKept := fun other there above below => by
    refine parents ▸ mem_without.mpr ⟨there,fun same => ?_⟩
    rw [linked.tree.parentIds.eq there mem same] at above below
    exact stale.elim above below
  leaves := leaves ▸ .refl _
  leavesKept := fun _ there _ => leaves ▸ there
  rootIpa := rootIpa
  created := created
  walks := listTranslate_kept rootIpa (fun other isReachable index => by
    rw [parents]
    refine findEdge_kept linked.tree.parentKeys filter_sublist (fun item there under => ?_) index
    refine mem_without.mpr ⟨there,fun same => ?_⟩
    rw [linked.tree.parentIds.eq there mem same] at under
    rw [under,isReachable] at dead
    cases dead) (fun _ _ _ => by rw [leaves])

variable {index : Nat} {done : Bool}

private theorem clearParent_trimmed {tableIpa : U64} (linked : Linked graph) (dead : reachable graph 4 tableIpa = false)
    (stale : ∀ edge ∈ graph.parents, edge.ipa = tableIpa → edge.index = index → edge.ipa = ipa ∨ edge.auxIpa = ipa)
    (update : updateParent env tableIpa index 0 graph = (done,left)) : Trimmed ipa graph left := by
  cases updates_of update with
  | refused quiet => exact .quiet quiet
  | lost quiet unanswered => exact (Trimmed.quiet quiet).trans (.unanswered unanswered)
  | same _ quiet => exact .quiet quiet
  | relinked links => exact absurd rfl links
  | linked links => exact absurd rfl links
  | unlinked _ asks _ _ isEdge =>
    obtain ⟨_,parents,_⟩ := quiet_fields asks.quiet
    obtain ⟨mem,rfl,rfl⟩ := findEdge_some isEdge
    exact (Trimmed.quiet asks.quiet).trans (.edge (linked_quiet linked asks.quiet) (parents ▸ mem)
      ((reachable_same (quiet_same asks.quiet).1 4 _).trans dead) (stale _ mem rfl rfl)
      (map_setSlot _ _ _ _ _ (fun _ _ => rfl)) rfl rfl rfl rfl)

theorem Trimmed.leaf (linked : Linked graph) {leaf : GpuvaNode} (mem : leaf ∈ graph.leaves)
    (dead : reachable graph 4 ipa = false) (stale : leaf.ipa = ipa)
    (tables : left.tables.map bare = graph.tables.map bare) (parents : left.parents = graph.parents)
    (leaves : left.leaves = without graph.leaves leaf.id) (rootIpa : left.rootIpa = graph.rootIpa)
    (created : left.created = graph.created) : Trimmed ipa graph left where
  tables := tables
  parents := parents ▸ .refl _
  parentsKept := fun _ there _ _ => parents ▸ there
  leaves := leaves ▸ filter_sublist
  leavesKept := fun other there apart => by
    refine leaves ▸ mem_without.mpr ⟨there,fun same => ?_⟩
    rw [linked.tree.leafIds.eq there mem same] at apart
    exact apart stale
  rootIpa := rootIpa
  created := created
  walks := listTranslate_kept rootIpa (fun _ _ _ => by rw [parents]) (fun other isReachable index => by
    rw [leaves]
    refine findEdge_kept linked.tree.leafKeys filter_sublist (fun item there under => ?_) index
    refine mem_without.mpr ⟨there,fun same => ?_⟩
    rw [linked.tree.leafIds.eq there mem same,stale] at under
    rw [under,isReachable] at dead
    cases dead)

theorem revokeUnusedBacking_same {id : Nat} {state left : GpuvaState}
    (revoke : revokeUnusedBacking env id state = (done,left)) :
    SameTree state.graph left.graph ∧ left.graph.tables = state.graph.tables := by
  unfold revokeUnusedBacking at revoke
  split at revoke
  · cases revoke
    exact ⟨.refl _,rfl⟩
  split_ifs at revoke
  · cases revoke
    exact ⟨.refl _,rfl⟩
  · cases revoke
    exact ⟨.refl _,rfl⟩
  · cases revoke
    exact ⟨⟨rfl,rfl,rfl,rfl⟩,rfl⟩
  rename_i backing _ _ _ _
  rcases call_cases env (revokeRequest backing) state.graph with ⟨lost,isLost,unanswered,_⟩ | ⟨response,_,_,answered⟩
  · rw [isLost] at revoke
    cases revoke
    obtain ⟨same,tables⟩ := unanswered_same unanswered
    exact ⟨{ same with },tables⟩
  rw [answered] at revoke
  cases revoke
  exact ⟨⟨rfl,rfl,rfl,rfl⟩,rfl⟩

private theorem clearLeaf_trimmed {table leaf : GpuvaNode} {index : Nat} {state left : GpuvaState} {done : Bool}
    (linked : Linked state.graph) (mem : leaf ∈ state.graph.leaves) (under : leaf.ipa = ipa)
    (dead : reachable state.graph 4 ipa = false) (clear : clearLeaf env table leaf index state = (done,left)) :
    Trimmed ipa state.graph left.graph := by
  unfold clearLeaf at clear
  split at clear
  · cases clear
    exact .refl _
  split_ifs at clear
  · cases clear
    exact .refl _
  rcases call_cases env (leafRequest table.ipa index none) state.graph with ⟨lost,isLost,unanswered,_⟩ |
    ⟨response,_,_,answered⟩
  · rw [isLost] at clear
    cases clear
    exact .unanswered unanswered
  rw [answered] at clear
  dsimp only at clear
  split at clear
  · rename_i left' revoke
    cases clear
    obtain ⟨same,tables⟩ := revokeUnusedBacking_same revoke
    exact .leaf linked mem dead under (tables ▸ map_setSlot _ _ _ _ _ (fun _ _ => rfl)) same.parents same.leaves same.rootIpa
      same.created
  rename_i left' revoke
  cases clear
  obtain ⟨same,tables⟩ := revokeUnusedBacking_same revoke
  refine .trans (.leaf linked mem dead under ?_ same.parents same.leaves same.rootIpa
    same.created) (.quiet (countMapping_quiet _))
  exact tables ▸ map_setSlot _ _ _ _ _ (fun _ _ => rfl)

private theorem updateLeaf_trimmed {state left : GpuvaState} (linked : Linked state.graph)
    (dead : reachable state.graph 4 ipa = false) (update : updateLeaf env ipa index 0 false state = (done,left)) :
    Trimmed ipa state.graph left.graph := by
  unfold updateLeaf at update
  split at update
  rename_i attempt
  cases update
  unfold tryLeafBacking at attempt
  split at attempt
  · cases attempt
    exact .refl _
  split at attempt
  · rename_i found search
    cases attempt
    exact .quiet (findTable_spec search).1
  rename_i table found search
  obtain ⟨quiet,isTable,_⟩ := findTable_spec search
  obtain ⟨tableIn,rfl,level⟩ := isTable table rfl
  obtain ⟨tables,_⟩ := quiet_fields quiet
  have isLinked := linked_quiet linked quiet
  have trimmed : Trimmed table.ipa state.graph found := .quiet quiet
  split at attempt
  · cases attempt
    exact trimmed
  rw [GpuvaBackings.leafSlot isLinked (tables ▸ tableIn) level] at attempt
  split at attempt
  · rename_i leaf isLeaf
    obtain ⟨leafIn,under,_⟩ := findEdge_some isLeaf
    cases attempt
    have isDead := (reachable_same (quiet_same quiet).1 4 table.ipa).trans dead
    exact trimmed.trans (@clearLeaf_trimmed env table.ipa table leaf index ⟨found,state.registry⟩ _ _ isLinked leafIn under isDead rfl)
  cases attempt
  exact trimmed

/-- What the loops of a retirement keep. -/
def Trims (ipa : U64) (graph left : GpuvaGraph) : Prop := Linked graph → Linked left ∧ Trimmed ipa graph left
theorem Trims.refl (graph : GpuvaGraph) : Trims ipa graph graph := fun linked => ⟨linked,.refl _⟩

theorem Trims.trans (a b c : GpuvaGraph) (first : Trims ipa a b) (second : Trims ipa b c) : Trims ipa a c := by
  intro linked
  obtain ⟨linked',trimmed⟩ := first linked
  obtain ⟨linked'',trimmed'⟩ := second linked'
  exact ⟨linked'',trimmed.trans trimmed'⟩

/-- The page is not the root and no edge leads to it. -/
def Unlinked (ipa : U64) (graph : GpuvaGraph) : Prop := ipa ≠ graph.rootIpa ∧ ∀ edge ∈ graph.parents, edge.auxIpa ≠ ipa
theorem Unlinked.trimmed (unlinked : Unlinked ipa graph) (trimmed : Trimmed ipa graph left) : Unlinked ipa left :=
  ⟨trimmed.rootIpa ▸ unlinked.1,fun edge mem => unlinked.2 edge (trimmed.parents.subset mem)⟩

theorem clearParent_turn {edge : GpuvaNode} (linked : Linked graph)
    (mem : edge ∈ graph.parents) (dead : reachable graph 4 edge.ipa = false) (stale : edge.ipa = ipa ∨ edge.auxIpa = ipa)
    (update : updateParent env edge.ipa edge.index 0 graph = (done,left)) :
    Trims ipa graph left ∧ (done = true → left.parents.length < graph.parents.length) := by
  obtain ⟨steps,_,fewer⟩ := clearParent_spec linked update
  refine ⟨fun _ => ⟨steps.linked linked,clearParent_trimmed linked dead (fun other there under atIndex => ?_) update⟩,
    fun success => fewer success edge mem rfl rfl⟩
  rw [linked.tree.parentKeys.eq there mem under atIndex]
  exact stale

/-- The first loop of `retire_table`, without a bound on its turns. -/
def LinksEnd (env : GpuvaEnv) (ipa : U64) : GpuvaGraph → Prop :=
  Ends (fun graph => graph.parents.find? (fun edge => edge.auxIpa == ipa))
    (fun edge graph =>
      if reachable graph 4 edge.ipa then (false,graph) else updateParent env edge.ipa edge.index 0 graph)

private theorem clearLinks_trimmed (linked : Linked graph)
    (clear : clearLinks env ipa graph.parents.length graph = (done,left)) :
    Trimmed ipa graph left ∧ (done = true → ∀ edge ∈ left.parents, edge.auxIpa ≠ ipa) ∧ LinksEnd env ipa graph := by
  have turn : ∀ state edge next removed, Trims ipa graph state →
      state.parents.find? (fun edge => edge.auxIpa == ipa) = some edge →
      (if reachable state 4 edge.ipa then (false,state) else updateParent env edge.ipa edge.index 0 state) = (removed,next) →
      Trims ipa state next ∧ (removed = true → next.parents.length < state.parents.length) := by
    intro state edge next removed reached found cleared
    have stale := find?_some found
    rw [beq_iff_eq] at stale
    split_ifs at cleared with alive
    · cases cleared
      exact ⟨.refl _,nofun⟩
    exact clearParent_turn (reached linked).1 (mem_of_find?_eq_some found) (by simpa using alive) (.inr stale) cleared
  obtain ⟨trims,finished⟩ := drain_spec Trims.refl Trims.trans (fun _ _ => mem_of_find?_eq_some) turn (Nat.le_refl _) clear
  refine ⟨(trims linked).2,fun success edge there same => ?_,drain_ends Trims.refl Trims.trans turn⟩
  exact find?_eq_none.mp (finished success) edge there (beq_iff_eq.mpr same)

/-- The loop over the edges of the table, without a bound on its turns. -/
def EdgesEnd (env : GpuvaEnv) (ipa : U64) : GpuvaGraph → Prop :=
  Ends (fun graph => graph.parents.find? (fun edge => edge.ipa == ipa)) (fun edge => updateParent env ipa edge.index 0)

private theorem clearEdges_trimmed (linked : Linked graph) (unlinked : Unlinked ipa graph)
    (clear : clearEdges env ipa graph.parents.length graph = (done,left)) :
    Trimmed ipa graph left ∧ EdgesEnd env ipa graph := by
  have turn : ∀ state edge next removed, Trims ipa graph state → state.parents.find? (fun edge => edge.ipa == ipa) = some edge →
      updateParent env ipa edge.index 0 state = (removed,next) →
      Trims ipa state next ∧ (removed = true → next.parents.length < state.parents.length) := by
    intro state edge next removed reached found cleared
    have under := find?_some found
    rw [beq_iff_eq] at under
    obtain ⟨isLinked,trimmed⟩ := reached linked
    obtain ⟨notRoot,noEdges⟩ := unlinked.trimmed trimmed
    subst under
    exact clearParent_turn isLinked (mem_of_find?_eq_some found) (reachable_unlinked notRoot noEdges 4) (.inl rfl) cleared
  obtain ⟨trims,_⟩ := drain_spec Trims.refl Trims.trans (fun _ _ => mem_of_find?_eq_some) turn (Nat.le_refl _) clear
  exact ⟨(trims linked).2,drain_ends Trims.refl Trims.trans turn⟩

/-- The loop over the leaves of the table, without a bound on its turns. -/
def LeavesEnd (env : GpuvaEnv) (ipa : U64) : GpuvaState → Prop :=
  Ends (fun state => state.graph.leaves.find? (fun leaf => leaf.ipa == ipa)) (fun leaf => updateLeaf env ipa leaf.index 0 false)

private theorem clearLeaves_trimmed {state left : GpuvaState} (linked : Linked state.graph)
    (unlinked : Unlinked ipa state.graph) (clear : clearLeaves env ipa state.graph.leaves.length state = (done,left)) :
    Trimmed ipa state.graph left.graph ∧ LeavesEnd env ipa state := by
  have turn : ∀ middle leaf next removed, Trims ipa state.graph middle.graph →
      middle.graph.leaves.find? (fun leaf => leaf.ipa == ipa) = some leaf →
      updateLeaf env ipa leaf.index 0 false middle = (removed,next) →
      Trims ipa middle.graph next.graph ∧ (removed = true → next.graph.leaves.length < middle.graph.leaves.length) := by
    intro middle leaf next removed reached found cleared
    have under := find?_some found
    rw [beq_iff_eq] at under
    obtain ⟨isLinked,trimmed⟩ := reached linked
    obtain ⟨notRoot,noEdges⟩ := unlinked.trimmed trimmed
    obtain ⟨moves,_,fewer⟩ := @updateLeaf_spec env ⟨False,False,False,False⟩ ipa leaf.index middle next removed isLinked cleared
    exact ⟨fun _ => ⟨moves_linked moves isLinked,updateLeaf_trimmed isLinked (reachable_unlinked notRoot noEdges 4) cleared⟩,
      fun success => fewer success leaf (mem_of_find?_eq_some found) under rfl⟩
  have refl : ∀ middle : GpuvaState, Trims ipa middle.graph middle.graph := fun middle => .refl _
  have trans : ∀ a b c : GpuvaState, Trims ipa a.graph b.graph → Trims ipa b.graph c.graph → Trims ipa a.graph c.graph :=
    fun a b c => Trims.trans a.graph b.graph c.graph
  obtain ⟨trims,_⟩ := drain_spec refl trans (fun _ _ => mem_of_find?_eq_some) turn (Nat.le_refl _) clear
  exact ⟨(trims linked).2,drain_ends refl trans turn⟩

/-- The loops of `retire_table` end. -/
structure RetirementEnds (env : GpuvaEnv) (table : GpuvaNode) (state : GpuvaState) : Prop where
  links : LinksEnd env table.ipa state.graph
  leaves : table.level = 2 → ∀ left, clearLinks env table.ipa state.graph.parents.length state.graph = (true,left) →
    LeavesEnd env table.ipa { state with graph := left }
  edges : table.level ≠ 2 → ∀ left, clearLinks env table.ipa state.graph.parents.length state.graph = (true,left) →
    EdgesEnd env table.ipa left

private theorem clearEntries_trimmed {table : GpuvaNode} {state left : GpuvaState} {done : Bool} (linked : Linked state.graph)
    (unlinked : Unlinked table.ipa state.graph) (clear : clearEntries env table state = (done,left)) :
    Trimmed table.ipa state.graph left.graph ∧ (table.level = 2 → LeavesEnd env table.ipa state) ∧
      (table.level ≠ 2 → EdgesEnd env table.ipa state.graph) := by
  unfold clearEntries at clear
  split_ifs at clear with level
  · obtain ⟨trimmed,ends⟩ := clearLeaves_trimmed linked unlinked clear
    exact ⟨trimmed,fun _ => ends,fun other => absurd level other⟩
  cases edges : clearEdges env table.ipa state.graph.parents.length state.graph with | mk empty graph =>
  obtain ⟨trimmed,ends⟩ := clearEdges_trimmed linked unlinked edges
  simp only [onGraph,edges] at clear
  cases clear
  exact ⟨trimmed,fun other => absurd other level,fun _ => ends⟩

theorem Trimmed.table (trimmed : Trimmed ipa graph left) {table : GpuvaNode}
    (mem : table ∈ graph.tables) : ∃ table' ∈ left.tables,
      table'.id = table.id ∧ table'.ipa = table.ipa ∧ table'.level = table.level := by
  have there : bare table ∈ left.tables.map bare := by
    rw [trimmed.tables]
    exact mem_map_of_mem mem
  obtain ⟨table',here,same⟩ := mem_map.mp there
  have place : ∀ table : GpuvaNode, (bare table).id = table.id ∧ (bare table).ipa = table.ipa ∧ (bare table).level = table.level :=
    fun _ => ⟨rfl,rfl,rfl⟩
  exact ⟨table',here,by rw [← (place table').1,same]; rfl,by rw [← (place table').2.1,same]; rfl,
    by rw [← (place table').2.2,same]; rfl⟩

/-- A graph without the entries of a page and one without its table too. -/
structure Retired (ipa : U64) (graph emptied left : GpuvaGraph) : Prop where
  linked : Linked emptied
  trimmed : Trimmed ipa graph emptied
  links : ∀ edge ∈ emptied.parents, edge.auxIpa ≠ ipa
  edges : ∀ edge ∈ emptied.parents, edge.ipa ≠ ipa
  leaves : ∀ leaf ∈ emptied.leaves, leaf.ipa ≠ ipa
  tree : SameTree emptied left
  tables : left.tables = emptied.tables.filter (fun table => table.ipa != ipa)

private theorem without_address {tables : List GpuvaNode} (addresses : Addresses tables) (ids : Ids tables) {table : GpuvaNode}
    (mem : table ∈ tables) : without tables table.id = tables.filter (fun other => other.ipa != table.ipa) := by
  refine filter_congr (fun other there => ?_)
  rw [Bool.eq_iff_iff,bne_iff_ne,bne_iff_ne,not_iff_not]
  exact ⟨fun same => by rw [ids.eq there mem same],fun same => by rw [addresses.eq there mem same]⟩

theorem retireTable_retired {table : GpuvaNode} {state left : GpuvaState} {done : Bool} (linked : Linked state.graph)
    (mem : table ∈ state.graph.tables) (notRoot : table.ipa ≠ state.graph.rootIpa)
    (retire : retireTable env table state = (done,left)) : (done = false → Trimmed table.ipa state.graph left.graph) ∧
      (done = true → ∃ emptied, Retired table.ipa state.graph emptied left.graph) ∧ RetirementEnds env table state := by
  unfold retireTable at retire
  rw [if_neg notRoot] at retire
  cases links : clearLinks env table.ipa state.graph.parents.length state.graph with | mk unlinked first =>
  obtain ⟨trimmed,noLinks,linksEnd⟩ := clearLinks_trimmed linked links
  have firstLinked : Linked first := (clearLinks_spec linked links).1.linked linked
  simp only [onGraph,links] at retire
  cases unlinked with
  | false =>
    cases retire
    have never : ∀ other, clearLinks env table.ipa state.graph.parents.length state.graph ≠ (true,other) := by
      rw [links]
      exact fun _ same => by cases same
    exact ⟨fun _ => trimmed,by rintro ⟨⟩,linksEnd,fun _ other success => absurd success (never other),
      fun _ other success => absurd success (never other)⟩
  | true =>
  dsimp only at retire
  have isUnlinked : Unlinked table.ipa first := ⟨trimmed.rootIpa ▸ notRoot,noLinks rfl⟩
  cases isSecond : clearEntries env table { state with graph := first } with | mk empty second =>
  obtain ⟨trimmed',leavesEnd,edgesEnd⟩ := @clearEntries_trimmed env table ⟨first,state.registry⟩ _ _ firstLinked
    isUnlinked isSecond
  have ends : RetirementEnds env table state := by
    refine ⟨linksEnd,fun level other success => ?_,fun level other success => ?_⟩
    · cases links.symm.trans success
      exact leavesEnd level
    cases links.symm.trans success
    exact edgesEnd level
  rw [isSecond] at retire
  have both := trimmed.trans trimmed'
  cases empty with
  | false =>
    cases retire
    exact ⟨fun _ => both,by rintro ⟨⟩,ends⟩
  | true =>
  dsimp only at retire
  obtain ⟨moves,_,noEntries⟩ := @clearEntries_spec env ⟨False,False,False,False⟩ table _ _ _ isSecond firstLinked
  obtain ⟨noLeaves,noEdges⟩ := noEntries rfl
  have secondLinked := moves_linked moves firstLinked
  obtain ⟨table',there,sameId,sameIpa,sameLevel⟩ := both.table mem
  obtain ⟨edgeless,leafless⟩ := table_empty secondLinked there (fun level => sameIpa ▸ noLeaves (sameLevel ▸ level))
    (fun level => sameIpa ▸ noEdges (sameLevel ▸ level))
  have emptied : ∀ graph, SameTree second.graph graph → graph.tables = without second.graph.tables table.id →
      Retired table.ipa state.graph second.graph graph := by
    intro graph same tables
    refine ⟨secondLinked,both,(isUnlinked.trimmed trimmed').2,sameIpa ▸ edgeless,sameIpa ▸ leafless,same,?_⟩
    rw [tables,← sameId,← sameIpa]
    exact without_address secondLinked.tree.addresses secondLinked.tree.tableIds there
  rcases call_cases env (revokeTableRequest table) second.graph with ⟨lost,isLost,unanswered,_⟩ | ⟨response,_,_,answered⟩
  · rw [isLost] at retire
    cases retire
    exact ⟨fun _ => both.trans (.unanswered unanswered),by rintro ⟨⟩,ends⟩
  rw [answered] at retire
  cases retire
  exact ⟨by rintro ⟨⟩,fun _ => ⟨second.graph,emptied _ ⟨rfl,rfl,rfl,rfl⟩ rfl⟩,ends⟩

/-- A table without the entries that lead to a page. -/
def unlinkFrom (graph : GpuvaGraph) (ipa : U64) (table : GpuvaNode) : GpuvaNode :=
  { table with slots := fun index =>
      if (findEdge graph.parents table.ipa index).any (fun edge => edge.auxIpa == ipa) then none else table.slots index }

/-- A graph in which a page is a new table: without the edges to and from the page, the
    leaves of the page and the table that it was, and otherwise as before. -/
structure Replaced (ipa : U64) (level : Nat) (graph left : GpuvaGraph) : Prop where
  parents : left.parents = graph.parents.filter (fun edge => edge.ipa != ipa && edge.auxIpa != ipa)
  leaves : left.leaves = graph.leaves.filter (fun leaf => leaf.ipa != ipa)
  tables : ∃ id, left.tables =
    { id := id, ipa := ipa, level := level } :: (graph.tables.filter (fun table => table.ipa != ipa)).map (unlinkFrom graph ipa)
  rootIpa : left.rootIpa = graph.rootIpa

theorem filter_of_sublist {α : Type*} {items kept : List α} {p : α → Bool} (fewer : kept.Sublist items) (nodup : items.Nodup)
    (keeps : ∀ item ∈ items, p item = true → item ∈ kept) (holds : ∀ item ∈ kept, p item = true) : kept = items.filter p := by
  induction fewer with
  | slnil => rfl
  | cons item fewer ih =>
    obtain ⟨fresh,nodup⟩ := nodup_cons.mp nodup
    have gone : ¬ p item = true := fun holds => fresh (fewer.subset (keeps item mem_cons_self holds))
    rw [filter_cons_of_neg gone]
    exact ih nodup (fun other mem => keeps other (mem_cons_of_mem _ mem)) holds
  | cons_cons item fewer ih =>
  obtain ⟨fresh,nodup⟩ := nodup_cons.mp nodup
  rw [filter_cons_of_pos (holds item mem_cons_self)]
  refine congrArg _ (ih nodup (fun other mem isKept => ?_) (fun other mem => holds other (mem_cons_of_mem _ mem)))
  rcases mem_cons.mp (keeps other (mem_cons_of_mem _ mem) isKept) with rfl | there
  · exact absurd mem fresh
  exact there

private theorem map_of_bare {tables tables' : List GpuvaNode} {change : GpuvaNode → GpuvaNode}
    (same : tables'.map bare = tables.map bare)
    (each : ∀ table' ∈ tables', ∀ table ∈ tables, bare table' = bare table → table' = change table) :
    tables' = tables.map change := by
  induction tables generalizing tables' with
  | nil => exact map_eq_nil_iff.mp same
  | cons table rest ih =>
  obtain ⟨table',rest',rfl,isTable,isRest⟩ := map_eq_cons_iff.mp same
  rw [map_cons,← each table' mem_cons_self table mem_cons_self isTable]
  exact congrArg _ (ih isRest (fun other' there' other there =>
    each other' (mem_cons_of_mem _ there') other (mem_cons_of_mem _ there)))

namespace Retired

variable {graph emptied left : GpuvaGraph} (retired : Retired ipa graph emptied left) (linked : Linked graph)
include retired linked

theorem parents : left.parents = graph.parents.filter (fun edge => edge.ipa != ipa && edge.auxIpa != ipa) := by
  rw [retired.tree.parents]
  refine filter_of_sublist retired.trimmed.parents (.of_map _ linked.tree.parentIds) (fun edge mem keeps => ?_)
    (fun edge mem => ?_)
  · rw [Bool.and_eq_true,bne_iff_ne,bne_iff_ne] at keeps
    exact retired.trimmed.parentsKept edge mem keeps.1 keeps.2
  rw [Bool.and_eq_true,bne_iff_ne,bne_iff_ne]
  exact ⟨retired.edges edge mem,retired.links edge mem⟩

private theorem leavesOf : left.leaves = graph.leaves.filter (fun leaf => leaf.ipa != ipa) := by
  rw [retired.tree.leaves]
  exact filter_of_sublist retired.trimmed.leaves (.of_map _ linked.tree.leafIds)
    (fun leaf mem keeps => retired.trimmed.leavesKept leaf mem (bne_iff_ne.mp keeps))
    (fun leaf mem => bne_iff_ne.mpr (retired.leaves leaf mem))

theorem slots {table table' : GpuvaNode} (mem' : table' ∈ emptied.tables) (mem : table ∈ graph.tables)
    (apart : table.ipa ≠ ipa) (sameIpa : table'.ipa = table.ipa) (sameLevel : table'.level = table.level) (index : Nat) :
    table'.slots index = (unlinkFrom graph ipa table).slots index := by
  have fewer := retired.trimmed
  change table'.slots index =
    if (findEdge graph.parents table.ipa index).any (fun edge => edge.auxIpa == ipa) then none else table.slots index
  by_cases level : table.level = 2
  · have edgeless : findEdge graph.parents table.ipa index = none := by
      cases found : findEdge graph.parents table.ipa index with
      | none => rfl
      | some edge =>
      obtain ⟨there,under,_⟩ := findEdge_some found
      exact absurd (linked.tree.edge_table there mem under).1 (by omega)
    rw [edgeless,retired.linked.tree.leafSlots.slot mem' (by simp [sameLevel,level]) index,
      linked.tree.leafSlots.slot mem (by simp [level]) index,sameIpa]
    refine congrArg _ (findEdge_kept linked.tree.leafKeys fewer.leaves (fun leaf there under => ?_) index)
    exact fewer.leavesKept leaf there (under ▸ apart)
  rw [retired.linked.tree.parentSlots.slot mem' (by simp [sameLevel,level]) index,
    linked.tree.parentSlots.slot mem (by simp [level]) index,sameIpa]
  cases found : findEdge graph.parents table.ipa index with
  | none =>
    cases found' : findEdge emptied.parents table.ipa index with
    | none => rfl
    | some edge =>
    obtain ⟨there,here⟩ := findEdge_some found'
    exact absurd here (findEdge_none found edge (fewer.parents.subset there))
  | some edge =>
  obtain ⟨there,under,rfl⟩ := findEdge_some found
  rw [← under] at apart ⊢
  by_cases leads : edge.auxIpa = ipa
  · have gone : findEdge emptied.parents edge.ipa edge.index = none := by
      cases found' : findEdge emptied.parents edge.ipa edge.index with
      | none => rfl
      | some other =>
      obtain ⟨there',under,atIndex⟩ := findEdge_some found'
      have same := linked.tree.parentKeys.eq (fewer.parents.subset there') there under atIndex
      exact absurd leads (same ▸ retired.links other there')
    simp [gone,leads]
  have isKept : findEdge emptied.parents edge.ipa edge.index = some edge :=
    findEdge_mem retired.linked.tree.parentKeys (fewer.parentsKept edge there apart leads)
  simp [isKept,leads]

private theorem tablesOf : left.tables = (graph.tables.filter (fun table => table.ipa != ipa)).map (unlinkFrom graph ipa) := by
  rw [retired.tables]
  refine map_of_bare ?_ (fun table' mem' table mem same => ?_)
  · have both : (emptied.tables.map bare).filter (fun table => table.ipa != ipa) =
        (graph.tables.map bare).filter (fun table => table.ipa != ipa) := by rw [retired.trimmed.tables]
    rw [filter_map,filter_map] at both
    exact both
  obtain ⟨there',_⟩ := mem_filter.mp mem'
  obtain ⟨there,apart⟩ := mem_filter.mp mem
  have shape : table' = { table with slots := table'.slots } :=
    congrArg (fun other : GpuvaNode => { other with slots := table'.slots }) same
  have slots := retired.slots linked there' there (bne_iff_ne.mp apart) (by rw [shape]) (by rw [shape])
  rw [shape,unlinkFrom,funext slots]
  rfl

end Retired

structure Registered (env : GpuvaEnv) (ipa : U64) (level : Nat) (state : GpuvaState) (done : Bool) (left : GpuvaState) :
    Prop where
  walks : ∀ va, listTranslate left.graph va = listTranslate state.graph va
  already : done = true → ∀ table ∈ state.graph.tables, table.ipa = ipa → table.level = level → left = state
  replaced : done = true → (∀ table ∈ state.graph.tables, table.ipa = ipa → table.level ≠ level) →
    Replaced ipa level state.graph left.graph
  ends : ∀ table ∈ state.graph.tables, table.ipa = ipa → ipa ≠ state.graph.rootIpa →
    RetirementEnds env table { state with graph := (allocate env (node env state.graph).2).2 }

variable {level : Nat}

theorem Retired.replaced {graph emptied left left' : GpuvaGraph} (retired : Retired ipa graph emptied left)
    (linked : Linked graph) {id : Nat} (same : SameTree left left')
    (tables : left'.tables = { id := id, ipa := ipa, level := level } :: left.tables) : Replaced ipa level graph left' where
  parents := same.parents.trans (retired.parents linked)
  leaves := same.leaves.trans (retired.leavesOf linked)
  tables := ⟨id,by rw [tables,retired.tablesOf linked]⟩
  rootIpa := by rw [same.rootIpa,retired.tree.rootIpa,retired.trimmed.rootIpa]

theorem Replaced.of_same {graph graph' left : GpuvaGraph} (replaced : Replaced ipa level graph' left)
    (same : SameTree graph graph') (tables : graph'.tables = graph.tables) : Replaced ipa level graph left where
  parents := same.parents ▸ replaced.parents
  leaves := same.leaves ▸ replaced.leaves
  tables := by
    obtain ⟨id,isTables⟩ := replaced.tables
    refine ⟨id,isTables.trans ?_⟩
    rw [tables,funext (fun table => by rw [unlinkFrom,same.parents] : ∀ table, unlinkFrom graph' ipa table = _)]
    rfl
  rootIpa := replaced.rootIpa.trans same.rootIpa

private theorem retired_fresh {graph : GpuvaGraph} (linked : Linked graph) (fresh : ∀ table ∈ graph.tables, table.ipa ≠ ipa) :
    Retired ipa graph graph graph where
  linked := linked
  trimmed := .refl _
  links := fun edge mem same => by
    obtain ⟨_,_,child,childIn,_,_,_,aux,_⟩ := linked.tree.leads edge mem
    exact fresh child childIn (aux.symm.trans same)
  edges := fun edge mem same => by
    obtain ⟨table,tableIn,_,_,under,_⟩ := linked.tree.leads edge mem
    exact fresh table tableIn (under.symm.trans same)
  leaves := fun leaf mem same => by
    obtain ⟨_,table,tableIn,under,_⟩ := linked.tree.placed leaf mem
    exact fresh table tableIn (under.symm.trans same)
  tree := .refl _
  tables := (filter_eq_self.mpr (fun table mem => bne_iff_ne.mpr (fresh table mem))).symm

variable {done : Bool}

private theorem registerNewTable_same {replaced : Bool} {graph left : GpuvaGraph}
    (register : registerNewTable env ipa level replaced graph = (done,left)) : SameTree graph left ∧
      (done = true → ∃ id, left.tables = { id := id, ipa := ipa, level := level } :: graph.tables) := by
  unfold registerNewTable at register
  rcases call_cases env { command := .RegisterTable, auxIpa := ipa, index := level } graph with
    ⟨lost,isLost,unanswered,_⟩ | ⟨response,_,_,answered⟩
  · rw [isLost] at register
    cases register
    have same := (unanswered_same unanswered).1
    split_ifs
    · exact ⟨{ same with },nofun⟩
    exact ⟨same,nofun⟩
  rw [answered] at register
  cases register
  exact ⟨⟨rfl,rfl,rfl,rfl⟩,fun _ => ⟨_,rfl⟩⟩

private theorem registerTable_registered {state left : GpuvaState} (linked : Linked state.graph)
    (register : registerTable env ipa level state = (done,left)) : Registered env ipa level state done left := by
  have slots := (node_quiet env state.graph).trans (allocate_quiet env (node env state.graph).2)
  have asked := linked_quiet linked slots
  obtain ⟨sameAsked,tables⟩ := quiet_same slots
  have ends : ∀ table ∈ state.graph.tables, table.ipa = ipa → ipa ≠ state.graph.rootIpa →
      RetirementEnds env table { state with graph := (allocate env (node env state.graph).2).2 } := by
    intro table mem here notRoot
    subst here
    exact (@retireTable_retired env table ⟨_,state.registry⟩ _ _ asked (tables ▸ mem) (sameAsked.rootIpa ▸ notRoot) rfl).2.2
  unfold registerTable at register
  by_cases absent : ¬ state.graph.created ∨ state.graph.uncertain ∨ ipa = 0 ∨ ipa &&& pageMask ≠ 0 ∨ 2 < level
  · rw [if_pos absent] at register
    cases register
    exact ⟨fun _ => rfl,nofun,nofun,ends⟩
  rw [if_neg absent] at register
  generalize isOld : state.graph.tables.find? (fun table => table.ipa == ipa) = existing at register
  have isExisting : ∀ table, existing = some table → table ∈ state.graph.tables ∧ table.ipa = ipa := by
    intro table same
    have here := find?_some (isOld.trans same)
    exact ⟨mem_of_find?_eq_some (isOld.trans same),beq_iff_eq.mp here⟩
  have fresh : existing = none → ∀ table ∈ state.graph.tables, table.ipa ≠ ipa := by
    intro none table mem same
    exact find?_eq_none.mp (isOld.trans none) table mem (beq_iff_eq.mpr same)
  by_cases known : existing.any (fun table => table.level == level)
  · rw [if_pos known] at register
    cases register
    obtain ⟨table,isTable,here⟩ := (Option.any_eq_true _ _).mp known
    obtain ⟨mem,isIpa⟩ := isExisting table isTable
    exact ⟨fun _ => rfl,fun _ _ _ _ _ => rfl,fun _ apart => absurd (beq_iff_eq.mp here) (apart table mem isIpa),ends⟩
  rw [if_neg known] at register
  have unknown : ∀ table ∈ state.graph.tables, table.ipa = ipa → table.level ≠ level := by
    intro table mem here isLevel
    refine known ((Option.any_eq_true _ _).mpr ?_)
    cases existing with
    | none => exact absurd here (fresh rfl table mem)
    | some other =>
    obtain ⟨mem',here'⟩ := isExisting other rfl
    rw [linked.tree.addresses.eq mem' mem (here'.trans here.symm)]
    exact ⟨table,rfl,beq_iff_eq.mpr isLevel⟩
  have failed : ∀ left : GpuvaState, (∀ va, listTranslate left.graph va = listTranslate state.graph va) →
      Registered env ipa level state false left :=
    fun left walks => ⟨walks,nofun,nofun,ends⟩
  have succeeded : ∀ left : GpuvaState, (∀ va, listTranslate left.graph va = listTranslate state.graph va) →
      Replaced ipa level state.graph left.graph → Registered env ipa level state true left :=
    fun left walks replaced =>
      ⟨walks,fun _ table mem here isLevel => absurd isLevel (unknown table mem here),fun _ _ => replaced,ends⟩
  cases isNode : node env state.graph with | mk enough first =>
  rw [isNode] at register slots asked sameAsked tables
  have firstSame := (quiet_same (isNode ▸ node_quiet env state.graph)).1
  cases enough with
  | false =>
    cases register
    exact failed _ (listTranslate_same firstSame)
  | true =>
  dsimp only at register
  cases isSlots : allocate env first with | mk enough' second =>
  rw [isSlots] at register asked sameAsked tables
  cases enough' with
  | false =>
    cases register
    exact failed _ (listTranslate_same sameAsked)
  | true =>
  have toSecond := listTranslate_same sameAsked
  have registered : ∀ (replaced : Bool) (emptied : GpuvaGraph) (middle : GpuvaState), Retired ipa second emptied middle.graph →
      onGraph (registerNewTable env ipa level replaced) middle = (done,left) → Registered env ipa level state done left := by
    intro replaced emptied middle retired isLast
    cases isRegister : registerNewTable env ipa level replaced middle.graph with | mk done' last =>
    simp only [onGraph,isRegister] at isLast
    cases isLast
    obtain ⟨same,isNew⟩ := registerNewTable_same isRegister
    have walks : ∀ va, listTranslate last va = listTranslate state.graph va := fun va => by
      rw [listTranslate_same same,listTranslate_same retired.tree,retired.trimmed.walks,toSecond]
    cases done with
    | false => exact failed _ walks
    | true =>
    obtain ⟨id,isTable⟩ := isNew rfl
    exact succeeded _ walks ((retired.replaced asked same isTable).of_same sameAsked tables)
  cases existing with
  | none => exact registered false second _ (retired_fresh asked (fun table mem => fresh rfl table (tables ▸ mem))) register
  | some table =>
  obtain ⟨mem,rfl⟩ := isExisting table rfl
  dsimp only at register
  cases retire : retireTable env table { state with graph := second } with | mk retired third =>
  rw [retire] at register
  by_cases isRoot : table.ipa = second.rootIpa
  · rw [retireTable,if_pos isRoot] at retire
    cases retire
    cases register
    exact failed _ toSecond
  obtain ⟨partly,wholly,_⟩ := @retireTable_retired env table ⟨second,state.registry⟩ _ _ asked (tables ▸ mem) isRoot retire
  cases retired with
  | false =>
    cases register
    exact failed _ (fun va => ((partly rfl).walks va).trans (toSecond va))
  | true =>
  obtain ⟨emptied,isRetired⟩ := wholly rfl
  exact registered true emptied _ isRetired register

/-- The registration of a table in a state that calls lead to: as long as the graph is not uncertain every address keeps its
    translation, the loops of the retirement end, and a success replaces the old table of the page and nothing else. -/
theorem run_registered {n : Nat} (env : Fin n → GpuvaEnv) (owners : Fin n → Owner) (script : List (Fin n × Call)) (who : Fin n)
    (ipa : U64) (level : Nat) (certain : ((run env (worldInit owners) script).graphs who).uncertain = false) :
    ((registerTable (env who) ipa level ((run env (worldInit owners) script).at who)).2.graph.uncertain = false → ∀ va,
      translateVa (registerTable (env who) ipa level ((run env (worldInit owners) script).at who)).2.graph va =
        translateVa ((run env (worldInit owners) script).graphs who) va) ∧
    Registered (env who) ipa level ((run env (worldInit owners) script).at who)
      (registerTable (env who) ipa level ((run env (worldInit owners) script).at who)).1
      (registerTable (env who) ipa level ((run env (worldInit owners) script).at who)).2 := by
  have linked : Linked ((run env (worldInit owners) script).at who).graph :=
    (run_linked env (worldInit_linked owners) script).graphs who
  have registered : Registered (env who) ipa level ((run env (worldInit owners) script).at who) _ _ :=
    registerTable_registered linked rfl
  have moves : Moves ⟨False,False,False,False⟩ (none,(run env (worldInit owners) script).at who)
      (none,(registerTable (env who) ipa level ((run env (worldInit owners) script).at who)).2) :=
    registerTable_moves ipa level linked
  exact ⟨fun certain' => translate_of_walks linked (moves_linked moves linked) certain certain' registered.walks,registered⟩

local instance onlyProcess : NeZero 1 := ⟨Nat.one_ne_zero⟩

/-- Beside the mapped page, a middle table with an edge to a leaf table. -/
def staleEdge : List (Fin 1 × Call) :=
  mapOnePage ++ [(0,.registerTable 0x14000 1),(0,.registerTable 0x18000 2),(0,.updateParent 0x14000 5 0x18000)]

/-- A page that a stale edge leads to becomes a table of another level. -/
theorem run_registered_relevelled :
    translateVa (registerTable willing 0x18000 1 ((willingRun staleEdge).at 0)).2.graph 0x200c005 = some 0x10005 ∧
    Replaced 0x18000 1 ((willingRun staleEdge).graphs 0) (registerTable willing 0x18000 1 ((willingRun staleEdge).at 0)).2.graph := by
  have registered := run_registered (fun _ => willing) oneOwner staleEdge 0 0x18000 1 (by decide +kernel)
  exact ⟨(registered.1 (by decide +kernel) 0x200c005).trans (by decide +kernel),
    registered.2.replaced (by decide +kernel) (by decide +kernel)⟩

end WindowsOnM1.GpuvaRetired
