import WindowsOnM1.GpuvaLinked

/-!
Every operation on a graph is a sequence of moves. The operations that clear entries also
say what they keep, from which the loops of a retirement and of a teardown end with no
entry left.
-/
namespace WindowsOnM1.GpuvaSteps
open GpuvaModel GpuvaLists GpuvaMoves GpuvaLinked List

variable {env : GpuvaEnv} {allows : Allows}

/-- Moves that change neither the registry nor the loose backing. -/
def Steps (graph graph' : GpuvaGraph) : Prop := ∀ allows l registry, Moves allows (l,⟨graph,registry⟩) (l,⟨graph',registry⟩)
theorem Steps.refl (graph : GpuvaGraph) : Steps graph graph := fun _ _ _ => .refl
theorem Steps.trans {a b c : GpuvaGraph} (first : Steps a b) (second : Steps b c) : Steps a c :=
  fun allows l registry => (first allows l registry).trans (second allows l registry)

variable {graph graph' : GpuvaGraph}

theorem quiet_steps (quiet : Quiet graph graph') : Steps graph graph' :=
  fun _ _ _ => .single (.quiet quiet)
theorem Steps.lost (graph : GpuvaGraph) : Steps graph { graph with uncertain := true } := fun _ _ _ => .single .lost
theorem Steps.changed {graph'' : GpuvaGraph} (certain : graph.uncertain = false)
    (change : ∀ allows l registry, Change allows (l,⟨graph,registry⟩) (l,⟨graph',registry⟩)) (quiet : Quiet graph' graph'') :
    Steps graph graph'' := fun allows l registry => .head (.change certain (change allows l registry)) (quiet_steps quiet allows l registry)
theorem Steps.linked (steps : Steps graph graph') (linked : Linked graph) : Linked graph' :=
  moves_linked (steps ⟨False,False,False,False⟩ none ⟨[],0,fun _ => [],0⟩) linked

theorem quiet_fields (quiet : Quiet graph graph') : graph'.tables = graph.tables ∧
    graph'.parents = graph.parents ∧ graph'.leaves = graph.leaves ∧ graph'.backings = graph.backings ∧
    graph'.backingBuckets = graph.backingBuckets ∧ graph'.created = graph.created ∧ graph'.rootIpa = graph.rootIpa ∧
    graph'.uncertain = graph.uncertain := by
  obtain ⟨_,_,_,_,_,_,_,_,rfl,_⟩ := quiet
  exact ⟨rfl,rfl,rfl,rfl,rfl,rfl,rfl,rfl⟩

theorem quiet_job (quiet : Quiet graph graph') : graph'.jobInFlight = graph.jobInFlight := by
  obtain ⟨_,_,_,_,_,_,_,_,rfl,_⟩ := quiet
  rfl

variable (env) in
theorem allocate_quiet (graph : GpuvaGraph) : Quiet graph (allocate env graph).2 :=
  .of_same rfl

variable (env) in
theorem node_quiet (graph : GpuvaGraph) : Quiet graph (node env graph).2 := by
  unfold node
  split
  · rename_i asked step
    have quiet := allocate_quiet env graph
    rw [step] at quiet
    exact quiet
  rename_i asked step
  have quiet := allocate_quiet env graph
  rw [step] at quiet
  exact quiet.trans (.of_same rfl)

variable (env) in
theorem reserveNode_quiet (graph : GpuvaGraph) : Quiet graph (reserveNode env graph).2 := by
  unfold reserveNode
  split_ifs
  · exact .refl _
  exact .of_same rfl

variable {ipa : U64} {level : Nat}

theorem findTable_spec {found : GpuvaGraph} {table : Option GpuvaNode}
    (search : findTable ipa level graph = (table,found)) : Quiet graph found ∧
      (∀ item, table = some item → item ∈ graph.tables ∧ item.ipa = ipa ∧ item.level = level) ∧
      (table = none → ∀ item ∈ graph.tables, ¬ (item.ipa = ipa ∧ item.level = level)) := by
  unfold findTable at search
  split at search
  · rename_i item hinted
    cases search
    refine ⟨.refl _,fun other same => ?_,nofun⟩
    cases same
    obtain ⟨pointer,here⟩ := Option.filter_eq_some_iff.mp hinted
    obtain ⟨id,_,there⟩ := Option.bind_eq_some_iff.mp pointer
    simp only [Bool.and_eq_true,beq_iff_eq] at here
    exact ⟨(nodeAt_some there).1,here⟩
  split at search
  · rename_i item listed
    cases search
    have here := find?_some listed
    simp only [Bool.and_eq_true,beq_iff_eq] at here
    refine ⟨⟨_,_,_,_,_,_,_,_,rfl,fun id isHint => ?_⟩,fun other same => ?_,nofun⟩
    · cases isHint
      exact .inr ⟨item,mem_of_find?_eq_some listed,rfl⟩
    cases same
    exact ⟨mem_of_find?_eq_some listed,here⟩
  rename_i absent
  cases search
  refine ⟨.refl _,nofun,fun _ item mem same => ?_⟩
  have missing := find?_eq_none.mp absent item mem
  simp [same] at missing

theorem findTable_hint (linked : Linked graph) {table : GpuvaNode}
    (mem : table ∈ graph.tables) (here : table.ipa = ipa) (isLevel : table.level = level) :
    ∃ tableHint, findTable ipa level graph = (some table,{ graph with tableHint := tableHint }) := by
  cases search : findTable ipa level graph with | mk item found =>
  obtain ⟨_,isTable,missing⟩ := findTable_spec search
  cases item with
  | none => exact absurd ⟨here,isLevel⟩ (missing rfl table mem)
  | some other =>
  obtain ⟨there,ipa',_⟩ := isTable other rfl
  have same := linked.tree.addresses.eq there mem (ipa'.trans here.symm)
  subst same
  unfold findTable at search
  split at search
  · cases search
    exact ⟨graph.tableHint,rfl⟩
  split at search
  · cases search
    exact ⟨_,rfl⟩
  cases search

/-- A request that was not acknowledged changes the history, the last status and whether the graph is uncertain. -/
def Unanswered (graph left : GpuvaGraph) : Prop :=
  ∃ calls lastStatus uncertain, left = { graph with calls := calls, lastStatus := lastStatus, uncertain := uncertain } ∧
    (graph.uncertain = true → uncertain = true)

theorem Steps.told (certain : graph.uncertain = false) (request : Request) (answer : Option Response)
    (lastStatus : U32) (poisons : Bool) (isPoison : poisons = true ↔ Poisons answer)
    (refused : ∀ response, answer = some response → ¬ Acknowledges response) :
    Steps graph { sent graph request answer with lastStatus := lastStatus, uncertain := poisons } := by
  cases poisons with
  | false =>
    have told : Steps graph { sent graph request answer with lastStatus := lastStatus } :=
      .changed certain (fun allows l registry => .refused request answer refused (by simpa using isPoison))
        ⟨_,_,lastStatus,_,_,_,_,_,rfl,fun _ => .inl⟩
    rwa [← certain]
  | true =>
  intro allows l registry
  exact .head (.poisoned certain request answer (isPoison.mp rfl))
    (.single (.quiet ⟨_,_,lastStatus,_,_,_,_,_,rfl,fun _ => .inl⟩))

theorem callWithResponse_cases (env : GpuvaEnv) (request : Request) (graph : GpuvaGraph) :
    (∃ left, callWithResponse env request graph = (none,left) ∧ Unanswered graph left ∧ Steps graph left) ∨
    (∃ response, graph.uncertain = false ∧ Acknowledges response ∧ callWithResponse env request graph =
      (some response,{ sent graph request (some response) with lastStatus := response.status })) := by
  unfold callWithResponse
  by_cases uncertain : graph.uncertain
  · left
    rw [if_pos uncertain]
    exact ⟨graph,rfl,⟨_,_,_,rfl,id⟩,.refl _⟩
  have certain : graph.uncertain = false := by simpa using uncertain
  rw [if_neg uncertain]
  simp only
  cases answer : env.clientCall graph.calls.length with
  | none =>
    exact .inl ⟨_,rfl,⟨_,_,_,rfl,fun _ => rfl⟩,.told certain request none _ true (by simp [Poisons])
      nofun⟩
  | some response =>
  simp only
  by_cases acked : response.status = 0 ∧ response.flags = 0
  · right
    refine ⟨response,certain,acked,?_⟩
    rw [if_pos acked]
    have fine : (response.flags != 0 || response.status == 5 || response.status == 6) = graph.uncertain := by
      rw [certain,acked.1,acked.2]
      decide
    rw [fine]
    rfl
  left
  rw [if_neg acked]
  refine ⟨_,rfl,⟨_,_,_,rfl,fun bad => absurd bad uncertain⟩,
    .told certain request (some response) _ _ (by simp [Poisons,or_assoc]) ?_⟩
  rintro _ ⟨⟩
  exact acked

theorem call_cases (env : GpuvaEnv) (request : Request) (graph : GpuvaGraph) :
    (∃ left, call env request graph = (false,left) ∧ Unanswered graph left ∧ Steps graph left) ∨
    (∃ response, graph.uncertain = false ∧ Acknowledges response ∧ call env request graph =
      (true,{ sent graph request (some response) with lastStatus := response.status })) := by
  unfold call
  rcases callWithResponse_cases env request graph with ⟨left,isLeft,rest⟩ | ⟨response,certain,acked,isLeft⟩
  · exact .inl ⟨left,by rw [isLeft]; rfl,rest⟩
  exact .inr ⟨response,certain,acked,by rw [isLeft]; rfl⟩

/-- The serial number, the address and the level of a table. -/
def place (table : GpuvaNode) : Nat × U64 × Nat := (table.id,table.ipa,table.level)

/-- What the operations that clear entries keep. -/
structure Kept (graph graph' : GpuvaGraph) : Prop where
  places : graph'.tables.map place = graph.tables.map place
  parents : graph'.parents.Sublist graph.parents
  leaves : graph'.leaves.Sublist graph.leaves
  noBackings : graph.backings = [] → graph'.backings = []
  created : graph'.created = graph.created
  rootIpa : graph'.rootIpa = graph.rootIpa
  leaseToken : graph'.leaseToken = graph.leaseToken
  jobInFlight : graph'.jobInFlight = graph.jobInFlight

theorem Kept.refl (graph : GpuvaGraph) : Kept graph graph :=
  ⟨rfl,.refl _,.refl _,id,rfl,rfl,rfl,rfl⟩

theorem Kept.trans {a b c : GpuvaGraph} (first : Kept a b) (second : Kept b c) : Kept a c :=
  ⟨second.places.trans first.places,second.parents.trans first.parents,
    second.leaves.trans first.leaves,fun empty => second.noBackings (first.noBackings empty),
    second.created.trans first.created,second.rootIpa.trans first.rootIpa,second.leaseToken.trans first.leaseToken,
    second.jobInFlight.trans first.jobInFlight⟩

theorem quiet_kept (quiet : Quiet graph graph') : Kept graph graph' := by
  obtain ⟨_,_,_,_,_,_,_,_,rfl,_⟩ := quiet
  exact ⟨rfl,.refl _,.refl _,id,rfl,rfl,rfl,rfl⟩
theorem Unanswered.kept {left : GpuvaGraph} (unanswered : Unanswered graph left) : Kept graph left := by
  obtain ⟨_,_,_,rfl,_⟩ := unanswered
  exact ⟨rfl,.refl _,.refl _,id,rfl,rfl,rfl,rfl⟩

theorem Kept.table (kept : Kept graph graph') {table : GpuvaNode}
    (mem : table ∈ graph.tables) : ∃ table' ∈ graph'.tables, place table' = place table := by
  have there : place table ∈ graph'.tables.map place := by
    rw [kept.places]
    exact mem_map_of_mem mem
  obtain ⟨table',here,same⟩ := mem_map.mp there
  exact ⟨table',here,same⟩

theorem findParent_spec {found : GpuvaGraph} {parent : Option GpuvaNode}
    (search : findParent ipa graph = (parent,found)) : Quiet graph found ∧
      (∀ item, parent = some item → item ∈ graph.tables ∧ item.ipa = ipa ∧ item.level ≤ 1) ∧
      (parent = none → ∀ item ∈ graph.tables, item.ipa = ipa → 1 < item.level) := by
  unfold findParent at search
  split at search
  · rename_i item found' first
    cases search
    obtain ⟨quiet,isTable,_⟩ := findTable_spec first
    refine ⟨quiet,fun other same => ?_,nofun⟩
    cases same
    obtain ⟨mem,here,level⟩ := isTable item rfl
    exact ⟨mem,here,by omega⟩
  rename_i found' first
  obtain ⟨quiet,_,noRoot⟩ := findTable_spec first
  obtain ⟨quiet',isTable,noMiddle⟩ := findTable_spec search
  obtain ⟨tables,_⟩ := quiet_fields quiet
  refine ⟨quiet.trans quiet',fun item same => ?_,fun missing item mem here => ?_⟩
  · obtain ⟨mem,here,level⟩ := isTable item same
    exact ⟨tables ▸ mem,here,level.le⟩
  have above := noRoot rfl item mem
  have below := noMiddle missing item (tables ▸ mem)
  simp only [here,true_and] at above below
  omega

/-- A graph that is as another was, and whose request was acknowledged. -/
structure Asks (graph asked : GpuvaGraph) (response : Response) : Prop where
  quiet : Quiet graph asked
  certain : asked.uncertain = false
  created : asked.created = true
  idle : asked.jobInFlight = false
  acked : Acknowledges response

/-- What an update of an entry does: it refuses, is not answered, finds the entry as it is wanted, or stores it. -/
inductive Updates (tableIpa : U64) (index : Nat) (childIpa : U64) (graph : GpuvaGraph) : Bool → GpuvaGraph → Prop
  | refused {left} (quiet : Quiet graph left) : Updates tableIpa index childIpa graph false left
  | lost {asked left} (quiet : Quiet graph asked) (unanswered : Unanswered asked left) (steps : Steps asked left) :
      Updates tableIpa index childIpa graph false left
  | same {left} (certain : graph.uncertain = false) (quiet : Quiet graph left)
      (cleared : childIpa = 0 → findEdge graph.parents tableIpa index = none)
      (leads : childIpa ≠ 0 → ∃ edge, findEdge graph.parents tableIpa index = some edge ∧ edge.auxIpa = childIpa) :
      Updates tableIpa index childIpa graph true left
  | unlinked {asked response parent edge} (clear : childIpa = 0) (asks : Asks graph asked response)
      (parentIn : parent ∈ graph.tables) (here : parent.ipa = tableIpa) (isEdge : findEdge graph.parents tableIpa index = some edge) :
      Updates tableIpa index childIpa graph true (countMapping (unlinkChild parent edge index
        { sent asked (parentRequest tableIpa index 0) (some response) with lastStatus := response.status }))
  | relinked {asked response parent child edge} (links : childIpa ≠ 0) (asks : Asks graph asked response)
      (parentIn : parent ∈ graph.tables) (here : parent.ipa = tableIpa) (childIn : child ∈ graph.tables) (isChild : child.ipa = childIpa)
      (level : child.level = parent.level + 1) (isEdge : findEdge graph.parents tableIpa index = some edge)
      (other : edge.auxIpa ≠ childIpa) :
      Updates tableIpa index childIpa graph true (countMapping (relinkChild edge child
        { sent asked (parentRequest tableIpa index childIpa) (some response) with lastStatus := response.status }))
  | linked {asked response parent child} (links : childIpa ≠ 0) (asks : Asks graph asked response)
      (parentIn : parent ∈ graph.tables) (here : parent.ipa = tableIpa) (childIn : child ∈ graph.tables) (isChild : child.ipa = childIpa)
      (level : child.level = parent.level + 1) (inside : index < entryCount parent.level)
      (free : findEdge graph.parents tableIpa index = none) :
      Updates tableIpa index childIpa graph true (countMapping (linkChild parent child index
        { sent asked (parentRequest tableIpa index childIpa) (some response) with lastStatus := response.status }))

variable (env) in
private theorem updateParent_updates (tableIpa : U64) (index : Nat) (childIpa : U64) (graph : GpuvaGraph) :
    Updates tableIpa index childIpa graph (updateParent env tableIpa index childIpa graph).1
      (updateParent env tableIpa index childIpa graph).2 := by
  unfold updateParent
  by_cases absent : ¬ graph.created ∨ graph.uncertain
  · rw [if_pos absent]
    exact .refused (.refl _)
  by_cases busy : graph.jobInFlight ∨ graph.mappingGeneration = maxU64
  · rw [if_neg absent,if_pos busy]
    exact .refused (.refl _)
  rw [if_neg absent,if_neg busy]
  have certain : graph.uncertain = false := by simpa using (not_or.mp absent).2
  have asks : ∀ {asked response}, Quiet graph asked → Acknowledges response → Asks graph asked response := by
    intro asked response quiet acked
    obtain ⟨_,_,_,_,_,created,_,uncertain⟩ := quiet_fields quiet
    exact ⟨quiet,uncertain.trans certain,created.trans (by simpa using (not_or.mp absent).1),
      (quiet_job quiet).trans (by simpa using (not_or.mp busy).1),acked⟩
  cases search : findParent tableIpa graph with | mk parent found =>
  obtain ⟨quiet,isParent,_⟩ := findParent_spec search
  cases parent with
  | none => exact .refused quiet
  | some parent =>
  obtain ⟨parentIn,here,_⟩ := isParent parent rfl
  dsimp only
  by_cases clear : childIpa = 0
  · rw [if_pos clear,(quiet_fields quiet).2.1]
    split_ifs
    · exact .refused quiet
    cases isEdge : findEdge graph.parents tableIpa index with
    | none => exact .same certain quiet (fun _ => isEdge) (absurd clear)
    | some edge =>
    rcases call_cases env (parentRequest tableIpa index 0) found with ⟨lost,isLost,unanswered,steps⟩ | ⟨response,_,acked,answered⟩
    · simp only [isLost]
      exact .lost quiet unanswered steps
    simp only [answered]
    exact .unlinked clear (asks quiet acked) parentIn here isEdge
  rw [if_neg clear]
  cases search' : findTable childIpa (parent.level + 1) found with | mk child found' =>
  obtain ⟨quiet',isTable,_⟩ := findTable_spec search'
  have both := quiet.trans quiet'
  cases child with
  | none => exact .refused both
  | some child =>
  obtain ⟨childIn,isChild,level⟩ := isTable child rfl
  replace childIn := (quiet_fields quiet).1 ▸ childIn
  dsimp only
  rw [(quiet_fields both).2.1]
  split_ifs with outside
  · exact .refused both
  cases isEdge : findEdge graph.parents tableIpa index with
  | some edge =>
    dsimp only
    split_ifs with leads
    · exact .same certain both (absurd · clear) (fun _ => ⟨edge,isEdge,leads⟩)
    rcases call_cases env (parentRequest tableIpa index childIpa) found' with ⟨lost,isLost,unanswered,steps⟩ |
      ⟨response,_,acked,answered⟩
    · rw [isLost]
      exact .lost both unanswered steps
    rw [answered]
    exact .relinked clear (asks both acked) parentIn here childIn isChild level isEdge leads
  | none =>
  have memory := node_quiet env found'
  cases isNode : node env found' with | mk enough asked =>
  rw [isNode] at memory
  have all := both.trans memory
  cases enough with
  | false => exact .refused all
  | true =>
  dsimp only
  rcases call_cases env (parentRequest tableIpa index childIpa) asked with ⟨lost,isLost,unanswered,steps⟩ |
    ⟨response,_,acked,answered⟩
  · rw [isLost]
    exact .lost all unanswered steps
  rw [answered]
  exact .linked clear (asks all acked) parentIn here childIn isChild level (Nat.lt_of_not_le outside) isEdge

variable {tableIpa : U64} {index : Nat} {childIpa : U64} {done : Bool} {left : GpuvaGraph}

theorem Updates.steps (updates : Updates tableIpa index childIpa graph done left) : Steps graph left := by
  cases updates with
  | refused quiet => exact quiet_steps quiet
  | lost quiet _ steps => exact (quiet_steps quiet).trans steps
  | same _ quiet => exact quiet_steps quiet
  | unlinked clear asks parentIn here isEdge =>
    obtain ⟨tables,parents,_⟩ := quiet_fields asks.quiet
    obtain ⟨edgeIn,under,rfl⟩ := findEdge_some isEdge
    refine (quiet_steps asks.quiet).trans (.changed asks.certain (fun allows l registry => .childUnlinked asks.acked asks.created
      asks.idle (tables ▸ parentIn) (parents ▸ edgeIn) (under.trans here.symm)) ?_)
    rw [here]
    exact .of_same rfl
  | relinked links asks parentIn here childIn isChild level isEdge =>
    obtain ⟨tables,parents,_⟩ := quiet_fields asks.quiet
    obtain ⟨edgeIn,under,rfl⟩ := findEdge_some isEdge
    refine (quiet_steps asks.quiet).trans (.changed asks.certain (fun allows l registry => .childRelinked asks.acked asks.created
      asks.idle (tables ▸ parentIn) (tables ▸ childIn) level (parents ▸ edgeIn) (under.trans here.symm)) ?_)
    rw [here,isChild]
    exact .of_same rfl
  | linked links asks parentIn here childIn isChild level inside free =>
    obtain ⟨tables,parents,_⟩ := quiet_fields asks.quiet
    refine (quiet_steps asks.quiet).trans (.changed asks.certain (fun allows l registry => .childLinked asks.acked asks.created
      asks.idle (tables ▸ parentIn) (tables ▸ childIn) level inside
      (fun edge there => here ▸ findEdge_none free edge (parents ▸ there))) ?_)
    rw [here,isChild]
    exact .of_same rfl

theorem updates_of (update : updateParent env tableIpa index childIpa graph = (done,left)) :
    Updates tableIpa index childIpa graph done left := by
  have updates := updateParent_updates env tableIpa index childIpa graph
  rwa [update] at updates

variable (env) in
theorem updateParent_steps (tableIpa : U64) (index : Nat) (childIpa : U64) (graph : GpuvaGraph) :
    Steps graph (updateParent env tableIpa index childIpa graph).2 :=
  (updateParent_updates env tableIpa index childIpa graph).steps

/-- The clearing of an edge keeps what it does not clear, and a success leaves one edge less. -/
theorem clearParent_spec (linked : Linked graph) (update : updateParent env tableIpa index 0 graph = (done,left)) :
    Steps graph left ∧ Kept graph left ∧
      (done = true → ∀ edge ∈ graph.parents, edge.ipa = tableIpa → edge.index = index →
        left.parents.length < graph.parents.length) := by
  have updates := updates_of update
  refine ⟨updates.steps,?_⟩
  cases updates with
  | refused quiet => exact ⟨quiet_kept quiet,nofun⟩
  | lost quiet unanswered => exact ⟨(quiet_kept quiet).trans unanswered.kept,nofun⟩
  | same _ quiet cleared =>
    exact ⟨quiet_kept quiet,fun _ edge there ipa at' => absurd ⟨ipa,at'⟩ (findEdge_none (cleared rfl) edge there)⟩
  | relinked links => exact absurd rfl links
  | linked links => exact absurd rfl links
  | unlinked _ asks parentIn here isEdge =>
  refine ⟨(quiet_kept asks.quiet).trans ⟨map_setSlot _ _ _ _ _ (fun _ _ => rfl),filter_sublist,.refl _,id,rfl,rfl,rfl,rfl⟩,
    fun _ _ _ _ _ => ?_⟩
  change (without _ _).length < _
  rw [← length_without linked.tree.parentIds (findEdge_some isEdge).1,← (quiet_fields asks.quiet).2.1]
  exact Nat.lt_succ_self _

end WindowsOnM1.GpuvaSteps
