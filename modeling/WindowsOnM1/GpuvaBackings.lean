import WindowsOnM1.GpuvaSteps

/-!
The steps over leaves and backings. A backing that a step leaves without references is
loose until it is kept or revoked.
-/
namespace WindowsOnM1.GpuvaBackings
open GpuvaModel GpuvaLists GpuvaMoves GpuvaLinked GpuvaSteps List

variable {env : GpuvaEnv} {allows : Allows}

variable {l : Option Nat} {state : GpuvaState} {graph : GpuvaGraph}

theorem moves_quiet (quiet : Quiet state.graph graph) : Moves allows (l,state) (l,{ state with graph := graph }) := .single (.quiet quiet)

theorem moves_settled (fine : state.graph.uncertain = false →
    ∀ backing ∈ state.graph.backings, l = some backing.id → backing.references ≠ 0 ∨ backing.retained = true) :
    Moves allows (l,state) (none,state) := by
  obtain ⟨graph,registry⟩ := state
  cases certain : graph.uncertain with
  | false => exact .single (.change certain (.settled (fine certain)))
  | true =>
  have same : graph = { graph with uncertain := true } := by rw [← certain]
  have move : Moves allows (l,⟨graph,registry⟩) (none,⟨{ graph with uncertain := true },registry⟩) := .single .lost
  rwa [← same] at move

variable {registry : GpuvaRegistry} {backing : GpuvaNode}

theorem moves_revoked {response : Response} (certain : graph.uncertain = false) (acked : Acknowledges response)
    (present : graph.created = true) (mem : backing ∈ graph.backings)
    (unused : backing.references = 0 ∨ graph.leaves = []) (loose : ∀ id, l = some id → id = backing.id) :
    Moves allows (l,⟨graph,registry⟩) (none,releaseGrant backing
      ⟨{ sent graph (revokeRequest backing) (some response) with lastStatus := response.status },registry⟩) :=
  .head (.change certain (.revoked acked present mem unused loose))
    (.single (.quiet (.of_same rfl)))

theorem releaseGrant_kept (backing : GpuvaNode) (graph : GpuvaGraph) (registry : GpuvaRegistry) :
    Kept graph (releaseGrant backing ⟨graph,registry⟩).graph :=
  ⟨rfl,.refl _,.refl _,fun empty => by simp only [releaseGrant,empty]; rfl,rfl,rfl,rfl,rfl⟩
theorem sent_kept (graph : GpuvaGraph) (request : Request) (response : Option Response) (lastStatus : U32) :
    Kept graph { sent graph request response with lastStatus := lastStatus } :=
  ⟨rfl,.refl _,.refl _,id,rfl,rfl,rfl,rfl⟩

variable {id : Nat} {done : Bool}

theorem revokeUnusedBacking_spec {left : GpuvaState} (linked : Linked state.graph)
    (certain : state.graph.uncertain = false) (present : state.graph.created = true)
    (revoke : revokeUnusedBacking env id state = (done,left)) :
    Moves allows (some id,state) (none,left) ∧ Kept state.graph left.graph := by
  unfold revokeUnusedBacking at revoke
  split at revoke
  · rename_i missing
    cases revoke
    refine ⟨moves_settled (fun _ backing mem same => ?_),.refl _⟩
    cases same
    exact absurd rfl (nodeAt_none missing backing mem)
  rename_i backing found
  obtain ⟨mem,rfl⟩ := nodeAt_some found
  have isBacking : ∀ other ∈ state.graph.backings, some backing.id = some other.id → other = backing :=
    fun other there same => linked.backings.ids.eq there mem (Option.some.inj same).symm
  split_ifs at revoke with used kept room
  · cases revoke
    refine ⟨moves_settled (fun _ other there same => .inl ?_),.refl _⟩
    rw [isBacking other there same]
    exact used
  · cases revoke
    refine ⟨moves_settled (fun _ other there same => .inr ?_),.refl _⟩
    rw [isBacking other there same]
    exact (Bool.and_eq_true _ _ ▸ kept).2
  · cases revoke
    rw [Bool.and_eq_true,decide_eq_true_eq] at room
    have unkept : backing.retained = false := by
      rw [Bool.and_eq_true,not_and,Bool.not_eq_true] at kept
      exact kept room.1
    have isKept : Kept state.graph (retain backing state.graph) :=
      ⟨rfl,.refl _,.refl _,fun empty => by simp only [retain,empty]; rfl,rfl,rfl,rfl,rfl⟩
    exact ⟨.single (.change certain (.retained mem (not_not.mp used) unkept room.2
      (fun id same => (Option.some.inj same).symm))),isKept⟩
  rcases call_cases env (revokeRequest backing) state.graph with ⟨lost,isLost,unanswered,refused⟩ |
    ⟨response,_,acked,answered⟩
  · rw [isLost] at revoke
    cases revoke
    refine ⟨.tail (refused allows (some backing.id) state.registry) .lost,unanswered.kept.trans ?_⟩
    exact ⟨rfl,.refl _,.refl _,id,rfl,rfl,rfl,rfl⟩
  rw [answered] at revoke
  cases revoke
  exact ⟨moves_revoked certain acked present mem (.inl (not_not.mp used))
    (fun id same => (Option.some.inj same).symm),(sent_kept _ _ _ _).trans (releaseGrant_kept _ _ _)⟩

theorem countMapping_quiet (graph : GpuvaGraph) : Quiet graph (countMapping graph) :=
  .of_same rfl

variable {table : GpuvaNode} {index : Nat}

/-- The clearing of a leaf keeps what it does not clear, and a success leaves one leaf less. -/
theorem clearLeaf_spec {leaf : GpuvaNode} {left : GpuvaState}
    (linked : Linked state.graph) (certain : state.graph.uncertain = false) (present : state.graph.created = true)
    (idle : state.graph.jobInFlight = false) (tableIn : table ∈ state.graph.tables) (level : table.level = 2) (leafIn : leaf ∈ state.graph.leaves)
    (under : leaf.ipa = table.ipa) (atIndex : leaf.index = index)
    (clear : clearLeaf env table leaf index state = (done,left)) : Moves allows (none,state) (none,left) ∧
      Kept state.graph left.graph ∧ (done = true → left.graph.leaves.length < state.graph.leaves.length) := by
  subst atIndex
  unfold clearLeaf at clear
  split at clear
  · cases clear
    exact ⟨.refl,.refl _,nofun⟩
  rename_i backing found
  obtain ⟨mem,names⟩ := linked.backings.findBacking_iff.mp found
  split_ifs at clear with unused
  · cases clear
    exact ⟨.refl,.refl _,nofun⟩
  rcases call_cases env (leafRequest table.ipa leaf.index none) state.graph with ⟨lost,isLost,unanswered,refused⟩ |
    ⟨response,_,acked,answered⟩
  · rw [isLost] at clear
    cases clear
    exact ⟨refused _ _ _,unanswered.kept,nofun⟩
  rw [answered] at clear
  dsimp only at clear
  have step : Moves allows (none,state) (some backing.id,{ state with
      graph := dropReference backing (unlinkLeaf table leaf leaf.index
        { sent state.graph (leafRequest table.ipa leaf.index none) (some response) with
          lastStatus := response.status }) }) :=
    .head (.change certain (.leafUnlinked acked present idle tableIn level leafIn under mem names unused))
      (moves_quiet (.of_same rfl))
  have cleared : Kept state.graph (dropReference backing (unlinkLeaf table leaf leaf.index
      { sent state.graph (leafRequest table.ipa leaf.index none) (some response) with lastStatus := response.status })) :=
    ⟨map_setSlot _ _ _ _ _ (fun _ _ => rfl),List.Sublist.refl _,filter_sublist,
      fun empty => by rw [empty] at mem; exact absurd mem not_mem_nil,rfl,rfl,rfl,rfl⟩
  have fewer : (without state.graph.leaves leaf.id).length < state.graph.leaves.length := by
    rw [← length_without linked.tree.leafIds leafIn]
    exact Nat.lt_succ_self _
  split at clear
  · rename_i revoke
    cases clear
    obtain ⟨moves,kept⟩ := revokeUnusedBacking_spec (moves_linked step linked) certain present revoke
    exact ⟨step.trans moves,cleared.trans kept,nofun⟩
  rename_i left revoke
  cases clear
  obtain ⟨moves,kept⟩ := revokeUnusedBacking_spec (moves_linked step linked) certain present revoke
  have quiet := countMapping_quiet left.graph
  refine ⟨(step.trans moves).trans (moves_quiet quiet),(cleared.trans kept).trans (quiet_kept quiet),fun _ => ?_⟩
  exact (kept.leaves.length_le).trans_lt fewer

/-- A page that a leaf may name has its backing, which is loose when it is new. -/
structure Obtained (allows : Allows) (target : LeafTarget) (state left : GpuvaState) (id : Nat) (new : Bool) : Prop where
  moves : Moves allows (none,state) (if new then some id else none,left)
  tables : left.graph.tables = state.graph.tables
  leaves : left.graph.leaves = state.graph.leaves
  backings : ∀ backing ∈ state.graph.backings, backing ∈ left.graph.backings ∧ (new = true → backing.id ≠ id)
  created : left.graph.created = state.graph.created
  job : left.graph.jobInFlight = state.graph.jobInFlight
  certain : left.graph.uncertain = false
  names : ∀ backing ∈ left.graph.backings, backing.id = id →
    backing.ipa = target.guestIpa ∧ backing.kind = target.kind ∧ (new = true → backing.references = 0) ∧
      (backing.references = 0 ∨ backing ∈ state.graph.backings)

theorem findFrame_some {ipa : U64} {frame : GpuvaFrame}
    (found : findFrame graph registry ipa = some frame) : frame ∈ registry.frames ∧ frame.ipa = ipa := by
  unfold findFrame at found
  split_ifs at found
  have here := find?_some found
  rw [beq_iff_eq] at here
  obtain ⟨id,_,pointer⟩ := mem_filterMap.mp (mem_of_find?_eq_some found)
  exact ⟨mem_of_find?_eq_some pointer,here⟩

variable {target : LeafTarget}

theorem newBacking_spec {frame : Option GpuvaFrame} {counted : GpuvaGraph}
    (isNew : newBacking target frame graph = (backing,counted)) : Quiet graph counted ∧ backing.ipa = target.guestIpa ∧
      backing.kind = target.kind ∧ backing.frame = frame.map (fun frame => frame.id) ∧ backing.references = 0 ∧
      backing.retained = false ∧ ∀ found, frame = some found → backing.generation = found.generation := by
  cases isNew
  refine ⟨?_,rfl,rfl,rfl,rfl,rfl,fun found isFrame => by rw [isFrame]⟩
  split_ifs
  · exact .refl _
  exact .of_same rfl

variable {outcome : Except Bool (Nat × Bool)}

theorem grantBacking_spec {left : GpuvaState} (grant : grantBacking env backing state = (outcome,left))
    (linked : Linked state.graph) (present : state.graph.created = true) (free : ∀ other ∈ state.graph.backings, other.ipa ≠ backing.ipa) (unused : backing.references = 0)
    (unkept : backing.retained = false) (system : backing.kind = .System ↔ backing.frame.isSome = true)
    (framed : ∀ id, backing.frame = some id → ∃ frame ∈ state.registry.frames, frame.id = id ∧ frame.ipa = backing.ipa ∧
      frame.generation = backing.generation ∧ frame.grants ≠ maxU64)
    (names : backing.ipa = target.guestIpa) (kind : backing.kind = target.kind) :
    (∀ unavailable, outcome = .error unavailable → Moves allows (none,state) (none,left)) ∧
      (∀ id new, outcome = .ok (id,new) → Obtained allows target state left id new) := by
  unfold grantBacking at grant
  rcases call_cases env (grantRequest state.graph backing) state.graph with ⟨lost,isLost,_,refused⟩ |
    ⟨response,certain,acked,answered⟩
  · rw [isLost] at grant
    cases grant
    exact ⟨fun _ _ => refused _ _ _,nofun⟩
  rw [answered] at grant
  cases grant
  refine ⟨nofun,fun id new same => ?_⟩
  cases same
  refine ⟨?_,rfl,rfl,fun other there => ⟨mem_cons_of_mem _ there,fun _ => ?_⟩,rfl,rfl,certain,fun other there same => ?_⟩
  · exact .head (.change certain (.granted _ acked present rfl free unused unkept system framed))
      (moves_quiet (.of_same rfl))
  · exact Nat.ne_of_lt (linked.backings.old other there)
  rcases mem_cons.mp there with rfl | old
  · exact ⟨names,kind,fun _ => unused,.inl unused⟩
  exact absurd same (Nat.ne_of_lt (linked.backings.old other old))

theorem obtainBacking_spec {left : GpuvaState}
    (linked : Linked state.graph) (certain : state.graph.uncertain = false) (present : state.graph.created = true)
    (obtain' : obtainBacking env target state = (outcome,left)) :
    (∀ unavailable, outcome = .error unavailable → Moves allows (none,state) (none,left)) ∧
      (∀ id new, outcome = .ok (id,new) → Obtained allows target state left id new) := by
  unfold obtainBacking at obtain'
  split at obtain'
  · rename_i backing found
    obtain ⟨mem,names⟩ := linked.backings.findBacking_iff.mp found
    split_ifs at obtain' with other
    · cases obtain'
      exact ⟨fun _ _ => .refl,nofun⟩
    cases obtain'
    refine ⟨nofun,fun id new same => ?_⟩
    cases same
    refine ⟨.refl,rfl,rfl,fun _ there => ⟨there,nofun⟩,rfl,rfl,certain,?_⟩
    intro item there same
    rw [linked.backings.ids.eq there mem same]
    exact ⟨names,not_not.mp other,nofun,.inr mem⟩
  rename_i missing
  have free := linked.backings.findBacking_none missing
  have memory := node_quiet env state.graph
  cases isNode : node env state.graph with | mk enough asked =>
  rw [isNode] at memory obtain'
  cases enough with
  | false =>
    cases obtain'
    exact ⟨fun _ _ => moves_quiet memory,nofun⟩
  | true =>
  dsimp only at obtain'
  generalize isFrame : (if target.kind = .System then findFrame asked state.registry target.guestIpa else none) = frame
    at obtain'
  split_ifs at obtain' with unmapped exhausted
  · cases obtain'
    exact ⟨fun _ _ => moves_quiet memory,nofun⟩
  · cases obtain'
    exact ⟨fun _ _ => moves_quiet memory,nofun⟩
  cases isNew : newBacking target frame asked with | mk backing counted =>
  rw [isNew] at obtain'
  obtain ⟨quiet,names,kind,itsFrame,unused,unkept,generation⟩ := newBacking_spec isNew
  have both := memory.trans quiet
  obtain ⟨tables,_,leaves,backings,_,created,_,_⟩ := quiet_fields both
  have system : backing.kind = .System ↔ backing.frame.isSome = true := by
    rw [kind,itsFrame,Option.isSome_map,← isFrame]
    constructor
    · intro isSystem
      rw [if_pos isSystem] at isFrame ⊢
      cases found : findFrame asked state.registry target.guestIpa with
      | none =>
        rw [found] at isFrame
        subst isFrame
        exact absurd ⟨isSystem,rfl⟩ unmapped
      | some => rfl
    intro framed
    by_contra other
    rw [if_neg other] at framed
    cases framed
  have framed : ∀ id, backing.frame = some id → ∃ frame ∈ state.registry.frames, frame.id = id ∧
      frame.ipa = backing.ipa ∧ frame.generation = backing.generation ∧ frame.grants ≠ maxU64 := by
    intro id isId
    rw [itsFrame] at isId
    obtain ⟨found,rfl,rfl⟩ := Option.map_eq_some_iff.mp isId
    split_ifs at isFrame with system
    rw [Option.all_some,not_and,Bool.or_eq_true,not_or,beq_iff_eq,beq_iff_eq] at unmapped
    obtain ⟨there,here⟩ := findFrame_some isFrame
    exact ⟨found,there,rfl,here.trans names.symm,(generation found rfl).symm,(unmapped system).2⟩
  have grant : grantBacking env backing ⟨counted,state.registry⟩ = (outcome,left) := obtain'
  obtain ⟨failure,success⟩ := grantBacking_spec grant (linked_quiet linked both) (created.trans present)
    (fun other there => names ▸ free other (backings ▸ there)) unused unkept system framed names kind
  refine ⟨fun unavailable same => (moves_quiet both).trans (failure unavailable same),fun id new same => ?_⟩
  obtain ⟨moves,tables',leaves',backings',created',job,certain',named⟩ := success id new same
  exact ⟨(moves_quiet both).trans moves,tables'.trans tables,leaves'.trans leaves,
    fun other there => backings' other (backings ▸ there),created'.trans created,job.trans (quiet_job both),
    certain',backings ▸ named⟩

variable {new : Bool}

theorem withdrawBacking_moves (present : state.graph.created = true) (mem : backing ∈ state.graph.backings)
    (unused : new = true → backing.references = 0) :
    Moves allows (if new then some backing.id else none,state) (none,withdrawBacking env backing new state) := by
  have withStatus : ∀ (left : GpuvaState) (lastStatus : U32),
      Moves allows (none,left) (none,{ left with graph := { left.graph with lastStatus := lastStatus } }) :=
    fun left lastStatus => moves_quiet ⟨_,_,lastStatus,_,_,_,_,_,rfl,fun _ => .inl⟩
  cases new with
  | false => exact withStatus state _
  | true =>
  refine .trans ?_ (withStatus _ _)
  rcases call_cases env (revokeRequest backing) state.graph with ⟨lost,isLost,_,refused⟩ |
    ⟨response,certain,acked,answered⟩
  · rw [isLost]
    exact .tail (refused allows (some backing.id) state.registry) .lost
  rw [answered]
  exact moves_revoked certain acked present mem (.inl (unused rfl)) (fun id same => (Option.some.inj same).symm)

theorem unanswered_fields {left : GpuvaGraph} (unanswered : Unanswered graph left) :
    left.backings = graph.backings ∧ left.created = graph.created := by
  obtain ⟨_,_,_,rfl,_⟩ := unanswered
  exact ⟨rfl,rfl⟩

/-- The count of references of the backing of a page is full. -/
def Full (target : LeafTarget) (graph : GpuvaGraph) : Prop :=
  ∃ backing ∈ graph.backings, backing.ipa = target.guestIpa ∧ backing.kind = target.kind ∧ backing.references = ~~~0
theorem backings_full {graph' : GpuvaGraph} (same : graph'.backings = graph.backings)
    (full : Full target graph') : Full target graph := by
  obtain ⟨backing,mem,rest⟩ := full
  exact ⟨backing,same ▸ mem,rest⟩

theorem fits_or (before : backing.references = 0 ∨ backing ∈ graph.backings) (names : backing.ipa = target.guestIpa)
    (kind : backing.kind = target.kind) (full : Full target graph → allows.wraps) : backing.references ≠ ~~~0 ∨ allows.wraps := by
  by_cases isFull : backing.references = ~~~0
  · rcases before with unused | mem
    · rw [unused] at isFull
      exact absurd isFull (by decide)
    exact .inr (full ⟨backing,mem,names,kind,isFull⟩)
  exact .inl isFull

variable {before : GpuvaState}

private theorem storeNewLeaf_moves
    (obtained : Obtained allows target before state id new) (present : before.graph.created = true)
    (idle : before.graph.jobInFlight = false) (tableIn : table ∈ before.graph.tables) (level : table.level = 2) (inside : index < 2048)
    (nonzero : target.guestIpa ≠ 0) (free : ∀ leaf ∈ before.graph.leaves, ¬ (leaf.ipa = table.ipa ∧ leaf.index = index))
    (full : Full target before.graph → allows.wraps) :
    Moves allows (none,before) (none,(storeNewLeaf env table index target id new state).2) := by
  refine obtained.moves.trans ?_
  have isCreated := obtained.created.trans present
  have isIdle := obtained.job.trans idle
  unfold storeNewLeaf
  cases found : nodeAt state.graph.backings id with
  | none =>
    refine moves_settled (fun _ backing mem same => ?_)
    split_ifs at same
    exact absurd (Option.some.inj same).symm (nodeAt_none found backing mem)
  | some backing =>
  dsimp only
  obtain ⟨mem,rfl⟩ := nodeAt_some found
  obtain ⟨names,kind,unused,before'⟩ := obtained.names backing mem rfl
  rcases call_cases env (leafRequest table.ipa index (some (target,backing.generation))) state.graph with
    ⟨lost,isLost,unanswered,refused⟩ | ⟨response,certain,acked,answered⟩
  · rw [isLost]
    obtain ⟨backings,created⟩ := unanswered_fields unanswered
    exact (refused _ _ _).trans (withdrawBacking_moves (created.trans isCreated) (backings ▸ mem) unused)
  rw [answered]
  refine .head (.change certain (.leafLinked acked isCreated isIdle (obtained.tables ▸ tableIn) level inside mem names
    kind nonzero (fun leaf there => free leaf (obtained.leaves ▸ there)) (fits_or before' names kind full)
    (fun id same => ?_)))
    (moves_quiet (.of_same rfl))
  split_ifs at same
  exact (Option.some.inj same).symm

private theorem storeLeaf_moves {leaf oldBacking : GpuvaNode}
    (obtained : Obtained allows target before state id new) (linked : Linked before.graph)
    (present : before.graph.created = true) (idle : before.graph.jobInFlight = false) (leafIn : leaf ∈ before.graph.leaves) (under : leaf.ipa = table.ipa)
    (atIndex : leaf.index = index) (oldIn : oldBacking ∈ before.graph.backings) (oldNames : oldBacking.ipa = leaf.auxIpa)
    (used : oldBacking.references ≠ 0) (nonzero : target.guestIpa ≠ 0)
    (full : Full target before.graph → leaf.auxIpa ≠ target.guestIpa → allows.wraps) :
    Moves allows (none,before) (none,(storeLeaf env table leaf oldBacking index target id new state).2) := by
  subst atIndex
  refine obtained.moves.trans ?_
  have isCreated := obtained.created.trans present
  have isIdle := obtained.job.trans idle
  obtain ⟨stillIn,apart⟩ := obtained.backings oldBacking oldIn
  unfold storeLeaf
  cases found : nodeAt state.graph.backings id with
  | none =>
    refine moves_settled (fun _ backing mem same => ?_)
    split_ifs at same
    exact absurd (Option.some.inj same).symm (nodeAt_none found backing mem)
  | some backing =>
  dsimp only
  obtain ⟨mem,rfl⟩ := nodeAt_some found
  obtain ⟨names,kind,unused,before'⟩ := obtained.names backing mem rfl
  rcases call_cases env (leafRequest table.ipa leaf.index (some (target,backing.generation))) state.graph with
    ⟨lost,isLost,unanswered,refused⟩ | ⟨response,certain,acked,answered⟩
  · rw [isLost]
    obtain ⟨backings,created⟩ := unanswered_fields unanswered
    exact (refused _ _ _).trans (withdrawBacking_moves (created.trans isCreated) (backings ▸ mem) unused)
  rw [answered,← under]
  dsimp only
  by_cases same : oldBacking.id = backing.id
  · rw [if_pos same]
    have old : new = false := by
      cases new with
      | false => rfl
      | true => exact absurd same (apart rfl)
    subst old
    have linked' := moves_linked obtained.moves linked
    have isSame := linked'.backings.ids.eq stillIn mem same
    exact .head (.change certain (.leafRewritten acked isCreated isIdle (obtained.leaves ▸ leafIn) mem names kind nonzero
      (oldNames.symm.trans (isSame ▸ names)))) (moves_quiet (.of_same rfl))
  rw [if_neg same]
  have linked' := moves_linked obtained.moves linked
  have apart' : leaf.auxIpa ≠ target.guestIpa := by
    intro names'
    have isSame := linked'.backings.chains.eq_of_key stillIn mem (oldNames.trans (names'.trans names.symm))
    exact same (congrArg GpuvaNode.id isSame)
  have moved : Moves allows (if new then some backing.id else none,state) (some oldBacking.id,{ state with
      graph := relinkLeaf leaf backing target (addReference backing (dropReference oldBacking
        { sent state.graph (leafRequest leaf.ipa leaf.index (some (target,backing.generation))) (some response) with
          lastStatus := response.status })) }) := by
    refine .head (.change certain (.leafMoved acked isCreated isIdle (obtained.leaves ▸ leafIn) mem stillIn names kind
      nonzero oldNames same used (fits_or before' names kind (fun isFull => full isFull apart')) (fun id isLoose => ?_))) (moves_quiet (.of_same rfl))
    split_ifs at isLoose
    exact (Option.some.inj isLoose).symm
  refine moved.trans ?_
  cases revoke : revokeUnusedBacking env oldBacking.id { state with
      graph := relinkLeaf leaf backing target (addReference backing (dropReference oldBacking
        { sent state.graph (leafRequest leaf.ipa leaf.index (some (target,backing.generation))) (some response) with
          lastStatus := response.status })) } with | mk done left =>
  have linked := moves_linked (obtained.moves.trans moved) linked
  obtain ⟨moves,_⟩ := revokeUnusedBacking_spec linked certain isCreated revoke
  cases done with
  | false => exact moves
  | true => exact moves.trans (moves_quiet (countMapping_quiet _))

theorem leafSlot (linked : Linked graph) (mem : table ∈ graph.tables) (level : table.level = 2) (index : Nat) :
    (table.slots index).bind (nodeAt graph.leaves) = findEdge graph.leaves table.ipa index :=
  linked.tree.leafSlots.find linked.tree.leafIds mem (by simp [level]) index

/-- A store of a leaf with which a full count of references would wrap. -/
def Wraps (tableIpa : U64) (index : Nat) (target : LeafTarget) (graph : GpuvaGraph) : Prop :=
  target.guestIpa ≠ 0 ∧ Full target graph ∧
    ∀ leaf ∈ graph.leaves, leaf.ipa = tableIpa → leaf.index = index → leaf.auxIpa ≠ target.guestIpa
instance (tableIpa : U64) (index : Nat) (target : LeafTarget) (graph : GpuvaGraph) :
    Decidable (Wraps tableIpa index target graph) :=
  inferInstanceAs (Decidable (_ ∧ (∃ _ ∈ graph.backings, _) ∧ _))

/-- What a store of a leaf does, and what the clearing of one keeps. -/
structure LeafStored (allows : Allows) (tableIpa : U64) (index : Nat) (target : LeafTarget) (state : GpuvaState)
    (outcome : (Bool × Bool) × GpuvaState) : Prop where
  moves : Moves allows (none,state) (none,outcome.2)
  kept : target.guestIpa = 0 → Kept state.graph outcome.2.graph
  fewer : target.guestIpa = 0 → outcome.1.1 = true → ∀ leaf ∈ state.graph.leaves, leaf.ipa = tableIpa → leaf.index = index →
    outcome.2.graph.leaves.length < state.graph.leaves.length

variable {tableIpa : U64}

theorem LeafStored.quiet {unavailable : Bool} (quiet : Quiet state.graph graph) :
    LeafStored allows tableIpa index target state ((false,unavailable),{ state with graph := graph }) :=
  ⟨moves_quiet quiet,fun _ => quiet_kept quiet,nofun⟩
theorem LeafStored.page
    {outcome : (Bool × Bool) × GpuvaState} (page : target.guestIpa ≠ 0) (moves : Moves allows (none,state) (none,outcome.2)) :
    LeafStored allows tableIpa index target state outcome :=
  ⟨moves,fun clear => absurd clear page,fun clear => absurd clear page⟩

theorem LeafStored.after {outcome : (Bool × Bool) × GpuvaState} (quiet : Quiet state.graph graph)
    (stored : LeafStored allows tableIpa index target { state with graph := graph } outcome) :
    LeafStored allows tableIpa index target state outcome :=
  ⟨(moves_quiet quiet).trans stored.moves,fun clear => (quiet_kept quiet).trans (stored.kept clear),
    fun clear success leaf there => by
      have leaves := (quiet_fields quiet).2.2.1
      exact leaves ▸ stored.fewer clear success leaf (leaves ▸ there)⟩

theorem tryLeafBacking_spec (tableIpa : U64) (index : Nat) (target : LeafTarget)
    (linked : Linked state.graph) (mayWrap : Wraps tableIpa index target state.graph → allows.wraps) :
    LeafStored allows tableIpa index target state (tryLeafBacking env tableIpa index target state) := by
  unfold tryLeafBacking
  split
  · exact .quiet (.refl _)
  rename_i absent
  simp only [not_or,Bool.not_eq_true,Bool.not_eq_false] at absent
  obtain ⟨present,certain,idle,_⟩ := absent
  split
  · rename_i graph search
    exact .quiet (findTable_spec search).1
  rename_i table graph search
  obtain ⟨quiet,isTable,_⟩ := findTable_spec search
  obtain ⟨tableIn,rfl,level⟩ := isTable table rfl
  obtain ⟨tables,_,leaves,backings,_,created,_,uncertain⟩ := quiet_fields quiet
  have linked := linked_quiet linked quiet
  replace idle := (quiet_job quiet).trans idle
  replace mayWrap : Wraps table.ipa index target graph → allows.wraps :=
    fun wraps => mayWrap ⟨wraps.1,backings_full backings wraps.2.1,fun leaf there => wraps.2.2 leaf (leaves ▸ there)⟩
  replace tableIn := tables ▸ tableIn
  replace present := created.trans present
  replace certain := uncertain.trans certain
  split
  · exact .quiet quiet
  rename_i outside
  rw [leafSlot linked tableIn level]
  refine .after quiet ?_
  cases isLeaf : findEdge graph.leaves table.ipa index with
  | some leaf =>
    obtain ⟨leafIn,under,atIndex⟩ := findEdge_some isLeaf
    dsimp only
    split
    · cases isClear : clearLeaf env table leaf index { state with graph := graph } with | mk done left =>
      obtain ⟨moves,kept,fewer⟩ := clearLeaf_spec linked certain present idle tableIn level leafIn under atIndex isClear
      exact ⟨moves,fun _ => kept,fun _ success _ _ _ _ => fewer success⟩
    rename_i clear
    refine .page clear ?_
    have onlyLeaf : leaf.auxIpa ≠ target.guestIpa → ∀ other ∈ graph.leaves, other.ipa = table.ipa → other.index = index →
        other.auxIpa ≠ target.guestIpa := by
      intro apart other there ipa atIndex'
      rw [linked.tree.leafKeys.eq there leafIn (ipa.trans under.symm) (atIndex'.trans atIndex.symm)]
      exact apart
    split_ifs
    · exact .refl
    split
    · exact .refl
    rename_i old isOld
    obtain ⟨oldIn,oldNames⟩ := linked.backings.findBacking_iff.mp isOld
    split_ifs with unused
    · exact .refl
    cases isObtained : obtainBacking env target { state with graph := graph } with | mk outcome left =>
    obtain ⟨failure,success⟩ := obtainBacking_spec linked certain present isObtained
    cases outcome with
    | error unavailable => exact failure unavailable rfl
    | ok named =>
    obtain ⟨id,new⟩ := named
    exact storeLeaf_moves (success id new rfl) linked present idle leafIn under atIndex oldIn oldNames unused clear
      (fun isFull apart => mayWrap ⟨clear,isFull,onlyLeaf apart⟩)
  | none =>
  have free := findEdge_none isLeaf
  dsimp only
  split
  · exact ⟨.refl,fun _ => .refl _,fun _ _ leaf there ipa atIndex => absurd ⟨ipa,atIndex⟩ (free leaf there)⟩
  rename_i clear
  refine .page clear ?_
  have memory := node_quiet env graph
  cases isNode : node env graph with | mk enough asked =>
  rw [isNode] at memory
  obtain ⟨tables,_,leaves,backings,_,created,_,uncertain⟩ := quiet_fields memory
  have asking : Moves allows (none,{ state with graph := graph }) (none,{ state with graph := asked }) := moves_quiet memory
  cases enough with
  | false => exact asking
  | true =>
  refine asking.trans ?_
  dsimp only
  cases isObtained : obtainBacking env target { state with graph := asked } with | mk outcome left =>
  obtain ⟨failure,success⟩ := obtainBacking_spec (linked_quiet linked memory) (uncertain.trans certain)
    (created.trans present) isObtained
  cases outcome with
  | error unavailable => exact failure unavailable rfl
  | ok named =>
  obtain ⟨id,new⟩ := named
  exact storeNewLeaf_moves (success id new rfl) (created.trans present) ((quiet_job memory).trans idle) (tables ▸ tableIn) level
    (Nat.lt_of_not_le (not_or.mp outside).1) clear (leaves ▸ free) (fun isFull => mayWrap ⟨clear,backings_full backings isFull,
      fun leaf there ipa atIndex => absurd ⟨ipa,atIndex⟩ (free leaf there)⟩)

theorem updateLeaf_spec {tableIpa : U64} {index : Nat} {state left : GpuvaState} {done : Bool} (linked : Linked state.graph)
    (update : updateLeaf env tableIpa index 0 false state = (done,left)) : Moves allows (none,state) (none,left) ∧
      Kept state.graph left.graph ∧ (done = true → ∀ leaf ∈ state.graph.leaves, leaf.ipa = tableIpa → leaf.index = index →
        left.graph.leaves.length < state.graph.leaves.length) := by
  unfold updateLeaf at update
  have stored : LeafStored allows tableIpa index ⟨0,false,.Local⟩ state (tryLeafBacking env tableIpa index ⟨0,false,.Local⟩ state) :=
    tryLeafBacking_spec tableIpa index ⟨0,false,.Local⟩ linked (fun wraps => absurd rfl wraps.1)
  split at update
  rename_i attempt
  cases update
  rw [attempt] at stored
  exact ⟨stored.moves,stored.kept rfl,stored.fewer rfl⟩

end WindowsOnM1.GpuvaBackings
