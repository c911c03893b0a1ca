import WindowsOnM1.GpuvaUndone
import WindowsOnM1.GpuvaOwned
import WindowsOnM1.GpuvaAccounts
import WindowsOnM1.GpuvaRelink

/-!
The teardown of a process whose broker acknowledges everything. Every entry that it clears
counts as one change of the mappings, so that it succeeds exactly when the count has room
for all of them; it leaves nothing registered and no memory.
-/
namespace WindowsOnM1.GpuvaTeardown
open MemoryLedger DrainLoop GpuvaModel GpuvaLists GpuvaMoves List
open GpuvaLinked GpuvaSteps GpuvaBackings GpuvaOperations GpuvaWorld
open GpuvaAccounts GpuvaBroker GpuvaRelink GpuvaHeap GpuvaLedger
open GpuvaOwned GpuvaUndone

variable {env : GpuvaEnv} {graph : GpuvaGraph} {state : GpuvaState}

/-- The changes of the mappings so far and those of a teardown. -/
def changes (graph : GpuvaGraph) : Nat := graph.mappingGeneration.toNat + graph.leaves.length + graph.parents.length

structure Ready (graph : GpuvaGraph) : Prop where
  linked : Linked graph
  idle : Idle graph
  certain : graph.uncertain = false
  accounts : Accounts none graph
  owing : Owing graph

/-- No store that wraps, no mapped frame, no other root and no ended job. -/
abbrev plain : Allows := ⟨False,False,False,False⟩

variable {left : GpuvaState}

theorem Ready.moved (ready : Ready state.graph) (moves : Moves plain (none,state) (none,left))
    (idle : Idle left.graph) (certain : left.graph.uncertain = false) : Ready left.graph := by
  obtain ⟨l,accounts,same⟩ := accounted_moves id moves ready.linked ⟨none,ready.accounts,fun _ => rfl⟩
  rw [same certain] at accounts
  exact ⟨moves_linked moves ready.linked,idle,certain,accounts,moves_owing moves ready.linked ready.owing⟩

theorem changes_succ {generation : U64} (room : generation ≠ maxU64) : (generation + 1).toNat = generation.toNat + 1 := by
  rw [Ne,full_iff] at room
  exact Nat.mod_eq_of_lt (by simpa using (by omega : generation.toNat + 1 < 2 ^ 64))

/-- What the clearing of one entry does. -/
structure Counts (graph : GpuvaGraph) (done : Bool) (left : GpuvaGraph) : Prop where
  full : graph.mappingGeneration = maxU64 → done = false
  clears : graph.mappingGeneration ≠ maxU64 → done = true ∧ Ready left ∧ changes left = changes graph ∧ left.rootIpa = graph.rootIpa

variable (state) in
private theorem revokeUnusedBacking_acks (acks : Acknowledging env) (id : Nat) (certain : state.graph.uncertain = false) :
    ∃ left, revokeUnusedBacking env id state = (true,left) ∧ left.graph.uncertain = false ∧
      left.graph.mappingGeneration = state.graph.mappingGeneration ∧ left.graph.leaves = state.graph.leaves ∧
      left.graph.parents = state.graph.parents := by
  unfold revokeUnusedBacking
  cases found : nodeAt state.graph.backings id with
  | none => exact ⟨state,rfl,certain,rfl,rfl,rfl⟩
  | some backing =>
  dsimp only
  split_ifs
  · exact ⟨state,rfl,certain,rfl,rfl,rfl⟩
  · exact ⟨state,rfl,certain,rfl,rfl,rfl⟩
  · exact ⟨_,rfl,certain,rfl,rfl,rfl⟩
  obtain ⟨response,answered⟩ := call_acknowledged acks (revokeRequest backing) certain
  rw [answered]
  exact ⟨_,rfl,certain,rfl,rfl,rfl⟩

private theorem tryLeafBacking_full (tableIpa : U64) (index : Nat) (target : LeafTarget) (full : state.graph.mappingGeneration = maxU64) :
    (tryLeafBacking env tableIpa index target state).1 = (false,false) := by
  unfold tryLeafBacking
  rw [if_pos (.inr (.inr (.inr (.inl full))))]

private theorem updateLeaf_counts (acks : Acknowledging env) (ready : Ready state.graph) {leaf : GpuvaNode}
    (mem : leaf ∈ state.graph.leaves) : Counts state.graph (updateLeaf env leaf.ipa leaf.index 0 false state).1
      (updateLeaf env leaf.ipa leaf.index 0 false state).2.graph := by
  refine ⟨fun full => ?_,fun room => ?_⟩
  · exact congrArg Prod.fst (tryLeafBacking_full leaf.ipa leaf.index ⟨0,false,.Local⟩ full)
  obtain ⟨_,table,tableIn,under,level,inside⟩ := ready.linked.tree.placed leaf mem
  obtain ⟨tableHint,search⟩ := findTable_hint ready.linked tableIn under.symm level
  have quiet : Quiet state.graph { state.graph with tableHint := tableHint } := (findTable_spec search).1
  have linked : Linked { state.graph with tableHint := tableHint } := linked_quiet ready.linked quiet
  have isLeaf : (table.slots leaf.index).bind (nodeAt state.graph.leaves) = some leaf := by
    rw [leafSlot linked tableIn level,← under]
    exact findEdge_mem ready.linked.tree.leafKeys mem
  obtain ⟨backing,backingIn,names,_⟩ := ready.accounts.names leaf mem
  have isBacking : findBacking { state.graph with tableHint := tableHint } leaf.auxIpa = some backing :=
    linked.backings.findBacking_iff.mpr ⟨backingIn,names⟩
  have used : backing.references ≠ 0 := by
    rw [Ne,toNat_zero,ready.accounts.counted.references backing backingIn,names]
    exact Nat.ne_of_gt (naming_pos mem)
  have sure : ({ state.graph with tableHint := tableHint } : GpuvaGraph).uncertain = false := ready.certain
  obtain ⟨response,answered⟩ := call_acknowledged acks (leafRequest table.ipa leaf.index none) sure
  obtain ⟨left,revoked,certain,generation,leaves,parents⟩ := revokeUnusedBacking_acks
    ⟨dropReference backing (unlinkLeaf table leaf leaf.index
      { sent { state.graph with tableHint := tableHint } (leafRequest table.ipa leaf.index none) (some response) with
        lastStatus := response.status }),state.registry⟩ acks backing.id ready.certain
  have cleared : updateLeaf env leaf.ipa leaf.index 0 false state = (true,countMappingOf left) := by
    have present := ready.idle.created
    unfold updateLeaf tryLeafBacking
    rw [if_neg (by simp [present,ready.certain,ready.idle.noJob,room]),search]
    dsimp only
    rw [if_neg (by simp [inside]),isLeaf]
    dsimp only
    rw [if_pos rfl]
    unfold clearLeaf
    rw [isBacking]
    dsimp only
    rw [if_neg used,answered]
    dsimp only
    rw [revoked]
  obtain ⟨moves,kept,_⟩ := @updateLeaf_spec env plain leaf.ipa leaf.index state _ _ ready.linked cleared
  rw [cleared]
  refine ⟨rfl,ready.moved moves (ready.idle.kept kept) certain,?_,kept.rootIpa⟩
  have fewer := length_without ready.linked.tree.leafIds mem
  simp only [changes,countMappingOf,countMapping,generation,leaves,parents,dropReference,unlinkLeaf,sent,changes_succ room]
  omega

private theorem updateParent_counts (acks : Acknowledging env) (ready : Ready graph) (noLeaves : graph.leaves = [])
    {edge : GpuvaNode} (mem : edge ∈ graph.parents) : Counts graph (updateParent env edge.ipa edge.index 0 graph).1
      (updateParent env edge.ipa edge.index 0 graph).2 := by
  refine ⟨fun full => updateParent_full edge.ipa edge.index 0 full,fun room => ?_⟩
  obtain ⟨left,cleared,beside,parents,_,_,generation⟩ :=
    updateParent_unlinks acks ready.linked ready.idle.created ready.certain ready.idle.noJob room mem
  obtain ⟨steps,kept,_⟩ := clearParent_spec ready.linked cleared
  rw [cleared]
  refine ⟨rfl,?_,?_,kept.rootIpa⟩
  · exact ready.moved (steps plain none registryInit) (ready.idle.kept kept) (beside.uncertain.trans ready.certain)
  have fewer := length_without ready.linked.tree.parentIds mem
  have none : left.leaves = [] := sublist_nil.mp (noLeaves ▸ kept.leaves)
  simp only [changes,generation,parents,none,noLeaves,changes_succ room]
  omega

/-- A stage of a teardown with a number of changes in all. -/
structure Stage (total : Nat) (root : U64) (graph : GpuvaGraph) : Prop extends Ready graph where
  total : changes graph = total
  root : graph.rootIpa = root

/-- What a step of the teardown reaches; it succeeds when the changes fit. -/
def Reaches (total : Nat) (operation : GpuvaState → Bool × GpuvaState) (before after : GpuvaGraph → Prop) : Prop :=
  ∀ state, before state.graph → (total ≤ 2 ^ 64 - 1 → (operation state).1 = true) ∧
    ((operation state).1 = true → after (operation state).2.graph)

theorem Reaches.andThen {total : Nat} {first second : GpuvaState → Bool × GpuvaState} {before middle after : GpuvaGraph → Prop}
    (one : Reaches total first before middle) (two : Reaches total second middle after) :
    Reaches total (GpuvaModel.andThen first second) before after := by
  intro state ready
  obtain ⟨fits,reached⟩ := one state ready
  unfold GpuvaModel.andThen
  cases isFirst : first state with | mk done left =>
  rw [isFirst] at fits reached
  cases done with
  | false => exact ⟨fun room => (by cases fits room),nofun⟩
  | true => exact two left (reached rfl)

variable {total : Nat} {root : U64}

theorem Stage.room {entries : Nat} (stage : Stage total root graph) (fits : total ≤ 2 ^ 64 - 1)
    (more : graph.mappingGeneration.toNat + entries ≤ changes graph) (some : 0 < entries) : graph.mappingGeneration ≠ maxU64 := by
  have isTotal := stage.total
  rw [Ne,full_iff]
  omega

theorem Stage.cleared {done : Bool} {left : GpuvaGraph} (stage : Stage total root graph) (counts : Counts graph done left) :
    (graph.mappingGeneration ≠ maxU64 → done = true) ∧ (done = true → Stage total root left) := by
  by_cases full : graph.mappingGeneration = maxU64
  · exact ⟨fun room => absurd full room,fun success => by rw [counts.full full] at success; cases success⟩
  obtain ⟨done,ready,same,sameRoot⟩ := counts.clears full
  exact ⟨fun _ => done,fun _ => ⟨ready,same.trans stage.total,sameRoot.trans stage.root⟩⟩

private theorem destroyLeaves_reaches (acks : Acknowledging env) :
    Reaches total (fun state => destroyLeaves env state.graph.leaves.length state) (Stage total root)
      (fun graph => Stage total root graph ∧ graph.leaves = []) := by
  intro state start
  obtain ⟨fits,reached⟩ : (total ≤ 2 ^ 64 - 1 → (destroyLeaves env state.graph.leaves.length state).1 = true) ∧
      ((destroyLeaves env state.graph.leaves.length state).1 = true →
        Stage total root (destroyLeaves env state.graph.leaves.length state).2.graph) := by
    refine drain_reaches (fun (state : GpuvaState) leaf (stage : Stage total root state.graph) found => ?_) _ start
    have mem := mem_of_head? found
    obtain ⟨fits,cleared⟩ := stage.cleared (updateLeaf_counts acks stage.toReady mem)
    have entries := length_pos_of_mem mem
    exact ⟨fun room => fits (stage.room room (by simp only [changes]; omega) entries),cleared⟩
  have achieves := @destroyLeaves_achieves env plain
  exact ⟨fits,fun done => ⟨reached done,((achieves state start.linked start.idle).2 done).2⟩⟩

private theorem destroyBackings_reaches (acks : Acknowledging env) :
    Reaches total (fun state => destroyBackings env state.graph.backings.length state)
      (fun graph => Stage total root graph ∧ graph.leaves = [])
      (fun graph => Stage total root graph ∧ graph.leaves = [] ∧ graph.backings = []) := by
  intro state start
  obtain ⟨fits,reached⟩ : (total ≤ 2 ^ 64 - 1 → (destroyBackings env state.graph.backings.length state).1 = true) ∧
      ((destroyBackings env state.graph.backings.length state).1 = true →
        Stage total root (destroyBackings env state.graph.backings.length state).2.graph ∧
        (destroyBackings env state.graph.backings.length state).2.graph.leaves = []) := by
    refine drain_reaches (fun (state : GpuvaState) backing (stage : Stage total root state.graph ∧ state.graph.leaves = []) found => ?_) _ start
    obtain ⟨stage,noLeaves⟩ := stage
    cases revoke : revokeNext env backing state with | mk done left =>
    obtain ⟨moves,kept,_⟩ := @revokeNext_spec env plain backing state left done stage.linked stage.idle.created noLeaves
      (mem_of_head? found) revoke
    obtain ⟨response,answered⟩ := call_acknowledged acks (revokeRequest backing) stage.certain
    rw [revokeNext,answered] at revoke
    cases revoke
    exact ⟨fun _ => rfl,fun _ => ⟨⟨stage.toReady.moved moves (stage.idle.kept kept) stage.certain,stage.total,stage.root⟩,noLeaves⟩⟩
  have achieves := @destroyBackings_achieves env plain
  exact ⟨fits,fun done => ⟨(reached done).1,((achieves state start.1.linked ⟨start.1.idle,start.2⟩).2 done).2⟩⟩

/-- A stage without entries and backings, in which the tables from a level on are revoked but for the root. -/
structure Bare (level total : Nat) (root : U64) (graph : GpuvaGraph) : Prop extends Stage total root graph where
  emptied : Emptied graph
  revoked : ∀ table ∈ graph.tables, level ≤ table.level → table.ipa = graph.rootIpa

private theorem destroyParents_reaches (acks : Acknowledging env) :
    Reaches total (onGraph (fun graph => destroyParents env graph.parents.length graph))
      (fun graph => Stage total root graph ∧ graph.leaves = [] ∧ graph.backings = []) (Bare 3 total root) := by
  intro state start
  obtain ⟨fits,reached⟩ : (total ≤ 2 ^ 64 - 1 → (destroyParents env state.graph.parents.length state.graph).1 = true) ∧
      ((destroyParents env state.graph.parents.length state.graph).1 = true →
        Stage total root (destroyParents env state.graph.parents.length state.graph).2 ∧
        (destroyParents env state.graph.parents.length state.graph).2.leaves = []) := by
    refine drain_reaches (fun (graph : GpuvaGraph) edge (stage : Stage total root graph ∧ graph.leaves = []) found => ?_) _ ⟨start.1,start.2.1⟩
    obtain ⟨stage,noLeaves⟩ := stage
    have mem := mem_of_head? found
    obtain ⟨fits,cleared⟩ := stage.cleared (updateParent_counts acks stage.toReady noLeaves mem)
    have entries := length_pos_of_mem mem
    refine ⟨fun room => fits (stage.room room (by simp only [changes]; omega) entries),fun done => ⟨cleared done,?_⟩⟩
    have kept := (clearParent_spec stage.linked (rfl : updateParent env edge.ipa edge.index 0 graph = _)).2.1
    exact sublist_nil.mp (noLeaves ▸ kept.leaves)
  have achieves := @destroyParents_achieves env plain
  refine ⟨fits,fun done => ?_⟩
  obtain ⟨stage,_⟩ := reached done
  exact ⟨stage,(achieves state start.1.linked ⟨start.1.idle,start.2⟩).2 done,fun table mem high =>
    absurd (stage.linked.tree.real table mem).2 (by omega)⟩

private theorem destroyTables_acks (acks : Acknowledging env) (level : Nat) (tables : List GpuvaNode) {graph : GpuvaGraph}
    (certain : graph.uncertain = false) : ∃ left, destroyTables env level tables graph = (true,left) ∧ left.uncertain = false ∧
      left.rootIpa = graph.rootIpa ∧ left.mappingGeneration = graph.mappingGeneration ∧ left.leaves = graph.leaves ∧
      left.parents = graph.parents ∧ left.tables.Sublist graph.tables ∧
      ∀ table ∈ left.tables, table ∈ tables → table.level = level → table.ipa = graph.rootIpa := by
  induction tables generalizing graph with
  | nil => exact ⟨graph,rfl,certain,rfl,rfl,rfl,rfl,.refl _,fun _ _ bad => absurd bad not_mem_nil⟩
  | cons table rest ih =>
  unfold destroyTables
  split
  · rename_i skipped
    obtain ⟨left,isLeft,sure,rootIpa,generation,leaves,parents,fewer,others⟩ := ih certain
    refine ⟨left,isLeft,sure,rootIpa,generation,leaves,parents,fewer,fun other there inside isLevel => ?_⟩
    rcases mem_cons.mp inside with rfl | later
    · exact skipped.resolve_left (not_not.mpr isLevel)
    exact others other there later isLevel
  obtain ⟨response,answered⟩ := call_acknowledged acks (revokeTableRequest table) certain
  rw [answered]
  have sure : (removeTable table { sent graph (revokeTableRequest table) (some response) with
      lastStatus := response.status }).uncertain = false := certain
  obtain ⟨left,isLeft,sure,rootIpa,generation,leaves,parents,fewer,others⟩ := ih sure
  refine ⟨left,isLeft,sure,rootIpa,generation,leaves,parents,fewer.trans filter_sublist,fun other there inside isLevel => ?_⟩
  rcases mem_cons.mp inside with rfl | later
  · exact absurd rfl (mem_without.mp (fewer.subset there)).2
  exact others other there later isLevel

theorem destroyTables_reaches (acks : Acknowledging env) (level : Nat) :
    Reaches total (onGraph (fun graph => destroyTables env level graph.tables graph)) (Bare (level + 1) total root)
      (Bare level total root) := by
  intro state bare
  obtain ⟨left,isLeft,certain,rootIpa,generation,leaves,parents,fewer,revoked⟩ :=
    destroyTables_acks acks level state.graph.tables bare.certain
  obtain ⟨steps,emptied⟩ := destroyTables_spec bare.emptied (fun _ => ⟨bare.linked.tree.tableIds,fun _ => id⟩) isLeft
  have opened : onGraph (fun graph => destroyTables env level graph.tables graph) state = (true,⟨left,state.registry⟩) := by
    simp only [onGraph,isLeft]
  rw [opened]
  refine ⟨fun _ => rfl,fun _ => ⟨⟨bare.toReady.moved (steps plain none state.registry) emptied.toIdle certain,?_,?_⟩,emptied,?_⟩⟩
  · have same : changes left = changes state.graph := by simp only [changes,generation,leaves,parents]
    exact same.trans bare.total
  · exact rootIpa.trans bare.root
  intro table mem high
  have before := fewer.subset mem
  by_cases here : table.level = level
  · exact (revoked table mem before here).trans rootIpa.symm
  exact (bare.revoked table before (by omega)).trans rootIpa.symm

/-- What a request registered was taken back by one of the later requests; a root goes with its process. -/
def TakenBack (root : U64) (request : Request) (later : List (Request × Option Response)) : Prop :=
  ∃ undo ∈ later, wasAcknowledged undo = true ∧
    (Undoes undo.1 request ∨ (request.command = .RegisterTable ∧ request.auxIpa = root ∧ undo.1.command = .Destroy))

/-- A process that is gone, of which the broker holds nothing. -/
structure TornDown (root : U64) (graph : GpuvaGraph) : Prop where
  gone : graph.created = false
  noTables : graph.tables = []
  noParents : graph.parents = []
  noLeaves : graph.leaves = []
  noBackings : graph.backings = []
  noReserve : graph.spareNode = false
  undone : ∀ earlier call later, sinceCreation graph.calls = earlier ++ call :: later → wasAcknowledged call = true →
    Registers call.1 → TakenBack root call.1 later

theorem Bare.standing (bare : Bare 0 total root graph) {request : Request}
    (stands : Stands (acknowledged graph.calls) request) : request.command = .RegisterTable ∧ request.auxIpa = root := by
  have agrees := bare.owing.broker.agrees bare.certain
  have noParents : ∀ key, (acknowledged graph.calls).parents key = none := fun key =>
    tracks_none agrees.parents (fun edge mem => by rw [bare.emptied.noParents] at mem; cases mem)
  have noLeaves : ∀ key, (acknowledged graph.calls).leaves key = none := fun key =>
    tracks_none agrees.leaves (fun leaf mem => by rw [bare.emptied.noLeaves] at mem; cases mem)
  have noBackings : ∀ ipa, (acknowledged graph.calls).backings ipa = none := fun ipa =>
    tracks_none agrees.backings (fun backing mem => by rw [bare.emptied.noBackings] at mem; cases mem)
  unfold Stands at stands
  cases isCommand : request.command with
  | RegisterTable =>
    simp only [isCommand] at stands
    obtain ⟨table,mem,here,_⟩ := (agrees.tables _ _).mp stands
    exact ⟨rfl,here.symm.trans ((bare.revoked table mem (Nat.zero_le _)).trans bare.root)⟩
  | RegisterBacking | RegisterSharedBacking => simp [isCommand,noBackings] at stands
  | UpdateParent => simp [isCommand,noParents] at stands
  | UpdateLeaf => simp [isCommand,noLeaves] at stands
  | _ => simp only [isCommand] at stands

private theorem destroyProcess_reaches (acks : Acknowledging env) :
    Reaches total (onGraph (destroyProcess env)) (Bare 0 total root) (fun graph => TornDown root graph ∧ total ≤ 2 ^ 64 - 1) := by
  intro state bare
  obtain ⟨response,answered⟩ := call_acknowledged acks { command := .Destroy } bare.certain
  rcases call_cases env { command := .Destroy } state.graph with ⟨lost,isLost,_⟩ | ⟨response,_,acknowledges,isLeft⟩
  · rw [answered] at isLost
    cases isLost
  have room : total ≤ 2 ^ 64 - 1 := by
    have isTotal := bare.total
    simp only [changes,bare.emptied.noLeaves,bare.emptied.noParents,length_nil] at isTotal
    omega
  simp only [onGraph,destroyProcess,isLeft]
  refine ⟨fun _ => trivial,fun _ => ⟨⟨rfl,rfl,bare.emptied.noParents,bare.emptied.noLeaves,bare.emptied.noBackings,rfl,?_⟩,room⟩⟩
  intro earlier call later same was registers
  simp only [sent,sinceCreation_append] at same
  rw [if_neg (by simp)] at same
  rcases eq_nil_or_concat later with none | ⟨rest,last,isLast⟩
  · subst none
    obtain ⟨_,isCall⟩ := append_inj' same rfl
    obtain ⟨rfl,_⟩ := isCall
    simp only [Registers] at registers
  subst isLast
  rw [concat_eq_append,← cons_append,← append_assoc] at same
  obtain ⟨before,isCall⟩ := append_inj' same rfl
  obtain ⟨rfl,_⟩ := isCall
  rcases bare.owing.owed bare.idle.created bare.certain earlier call rest before was registers with ⟨undo,mem,acked,undoes⟩ | stands
  · exact ⟨undo,by simp [mem],acked,.inl undoes⟩
  obtain ⟨isTable,isRoot⟩ := bare.standing stands
  exact ⟨(addressed state.graph { command := .Destroy },some response),by simp [addressed],wasAcknowledged_some acknowledges,
    .inr ⟨isTable,isRoot,rfl⟩⟩

theorem destroy_reaches (acks : Acknowledging env) (ready : Ready state.graph) :
    ((destroy env state).1 = true ↔ changes state.graph ≤ 2 ^ 64 - 1) ∧
      ((destroy env state).1 = true → TornDown state.graph.rootIpa (destroy env state).2.graph) := by
  have start : Stage (changes state.graph) state.graph.rootIpa state.graph := ⟨ready,rfl,rfl⟩
  have reaches := (destroyLeaves_reaches acks).andThen ((destroyBackings_reaches acks).andThen ((destroyParents_reaches acks).andThen
    ((destroyTables_reaches acks 2).andThen ((destroyTables_reaches acks 1).andThen ((destroyTables_reaches acks 0).andThen
      (destroyProcess_reaches acks)))))) state start
  unfold destroy
  rw [if_neg (by simp [ready.idle.created,ready.certain,ready.idle.noLease,ready.idle.noJob])]
  exact ⟨⟨fun done => (reaches.2 done).2,reaches.1⟩,fun done => (reaches.2 done).1⟩

structure TeardownEnds (env : GpuvaEnv) (state : GpuvaState) : Prop where
  leaves : Ends (fun state : GpuvaState => state.graph.leaves.head?)
    (fun leaf => updateLeaf env leaf.ipa leaf.index 0 false) state
  backings : ∀ left, destroyLeaves env state.graph.leaves.length state = (true,left) →
    Ends (fun state : GpuvaState => state.graph.backings.head?) (revokeNext env) left
  parents : ∀ left middle, destroyLeaves env state.graph.leaves.length state = (true,left) →
    destroyBackings env left.graph.backings.length left = (true,middle) →
    Ends (fun graph : GpuvaGraph => graph.parents.head?) (fun edge => updateParent env edge.ipa edge.index 0) middle.graph

private theorem leaves_end (linked : Linked state.graph) : Ends (fun state : GpuvaState => state.graph.leaves.head?)
    (fun leaf => updateLeaf env leaf.ipa leaf.index 0 false) state := by
  refine @drain_ends _ _ _ _ (ClearedState plain) (fun state => state.graph.leaves.length) ClearedState.refl ClearedState.trans
    state (fun middle leaf next removed reached found cleared => ?_)
  obtain ⟨moves,kept,fewer⟩ := updateLeaf_spec (moves_linked (reached linked).1 linked) cleared
  exact ⟨fun _ => ⟨moves,kept⟩,fun success => fewer success leaf (mem_of_head? found) rfl rfl⟩

private theorem backings_end (linked : Linked state.graph) (present : state.graph.created = true) (noLeaves : state.graph.leaves = []) :
    Ends (fun state : GpuvaState => state.graph.backings.head?) (revokeNext env) state := by
  refine @drain_ends _ _ _ _ (ClearedState plain) (fun state => state.graph.backings.length) ClearedState.refl ClearedState.trans
    state (fun middle backing next removed reached found revoke => ?_)
  obtain ⟨moves,kept⟩ := reached linked
  obtain ⟨moves',kept',fewer⟩ := revokeNext_spec (moves_linked moves linked) (kept.created.trans present)
    (sublist_nil.mp (noLeaves ▸ kept.leaves)) (mem_of_head? found) revoke
  exact ⟨fun _ => ⟨moves',kept'⟩,fewer⟩

private theorem parents_end (linked : Linked graph) : Ends (fun graph : GpuvaGraph => graph.parents.head?)
    (fun edge => updateParent env edge.ipa edge.index 0) graph := by
  refine @drain_ends _ _ _ _ Cleared (fun graph => graph.parents.length) Cleared.refl Cleared.trans graph
    (fun middle edge next removed reached found cleared => ?_)
  obtain ⟨steps,kept,fewer⟩ := clearParent_spec ((reached linked).1.linked linked) cleared
  exact ⟨fun _ => ⟨steps,kept⟩,fun success => fewer success edge (mem_of_head? found) rfl rfl⟩

theorem achieved {operation : GpuvaState → Bool × GpuvaState} {before after : GpuvaGraph → Prop}
    (achieves : Achieves plain operation before after) (linked : Linked state.graph) (ready : before state.graph)
    (isLeft : operation state = (true,left)) : Linked left.graph ∧ after left.graph := by
  obtain ⟨moves,reached⟩ := achieves state linked ready
  rw [isLeft] at moves reached
  exact ⟨moves_linked moves linked,reached rfl⟩

private theorem teardown_ends (linked : Linked state.graph) (idle : Idle state.graph) : TeardownEnds env state := by
  have first := @destroyLeaves_achieves env plain
  refine ⟨leaves_end linked,fun left cleared => ?_,fun left middle cleared revoked => ?_⟩
  · obtain ⟨linked,idle,noLeaves⟩ := achieved first linked idle cleared
    exact backings_end linked idle.created noLeaves
  obtain ⟨linked,idle⟩ := achieved first linked idle cleared
  exact parents_end (achieved (@destroyBackings_achieves env plain) linked idle revoked).1

/-- Every block that was allocated was allocated once and freed once, and no other was freed. -/
def FreedOnce (events : List MemoryEvent) : Prop :=
  ∀ block, events.count (.freed block) = events.count (.allocated block) ∧ events.count (.allocated block) ≤ 1

private theorem tornDown_freed {heap : Heap} (tornDown : TornDown root graph) (owned : GraphOwned [] graph heap) :
    FreedOnce heap.events := by
  intro block
  have memory := owned.memory
  simp only [nodeSerials,tornDown.noTables,tornDown.noParents,tornDown.noLeaves,tornDown.noBackings,tornDown.noReserve] at memory
  have balance := Ledger.balance memory block
  have nothing : held [] [] [] false heap block = 0 := rfl
  refine ⟨?_,(Ledger.freed_le memory block).2⟩
  rw [balance]
  exact nothing.symm ▸ rfl

variable {n : Nat}

theorem run_owing (env : Fin n → GpuvaEnv) (owners : Fin n → Owner) (script : List (Fin n × Call)) (who : Fin n) :
    Owing ((run env (worldInit owners) script).graphs who) :=
  run_graph env owing_move (worldInit_linked owners) (fun who => graphInit_owing (owners who)) script who

/-- The teardown of a process in a state that calls lead to: its loops end, and with a broker
    that acknowledges everything it succeeds exactly when its changes can be counted; then
    everything that was registered was taken back and all memory was freed once. -/
theorem run_teardown {n : Nat} (env : Fin n → GpuvaEnv) (owners : Fin n → Owner) (script : List (Fin n × Call)) (who : Fin n)
    (answers : GpuvaEnv) (fits : Fits env (worldInit owners) script)
    (created : ((run env (worldInit owners) script).graphs who).created = true)
    (certain : ((run env (worldInit owners) script).graphs who).uncertain = false)
    (noLease : ((run env (worldInit owners) script).graphs who).leaseToken = 0)
    (noJob : ((run env (worldInit owners) script).graphs who).jobInFlight = false) :
    TeardownEnds answers ((run env (worldInit owners) script).at who) ∧
    (Acknowledging answers →
      ((destroy answers ((run env (worldInit owners) script).at who)).1 = true ↔
        changes ((run env (worldInit owners) script).graphs who) ≤ 2 ^ 64 - 1) ∧
      ((destroy answers ((run env (worldInit owners) script).at who)).1 = true →
        TornDown ((run env (worldInit owners) script).graphs who).rootIpa
          (destroy answers ((run env (worldInit owners) script).at who)).2.graph ∧
        FreedOnce (destroyHeap answers ((run env (worldInit owners) script).at who)
          (runHeap env who (worldInit owners) script heapInit)).events)) := by
  have linked := (run_linked env (worldInit_linked owners) script).graphs who
  have idle : Idle ((run env (worldInit owners) script).graphs who) := ⟨created,noLease,noJob⟩
  obtain ⟨l,accounts,same⟩ := run_accounted env (worldInit_linked owners) (fun who => graphInit_accounted (owners who)) script
    fits who
  rw [same certain] at accounts
  have ready : Ready ((run env (worldInit owners) script).at who).graph :=
    ⟨linked,idle,certain,accounts,run_owing env owners script who⟩
  refine ⟨teardown_ends ready.linked ready.idle,fun acks => ?_⟩
  obtain ⟨succeeds,tornDown⟩ := destroy_reaches acks ready
  refine ⟨succeeds,fun done => ⟨tornDown done,?_⟩⟩
  have owned := run_owned env who (worldInit_linked owners) (graphInit_owned (owners who)) script
  exact tornDown_freed (tornDown done) (destroy_owned answers ready.linked owned)

theorem willing_acknowledges : Acknowledging willing := fun _ => ⟨_,rfl,rfl,rfl⟩

theorem run_teardown_onePage :
    (destroy willing ((willingRun mapOnePage).at 0)).1 = true ∧
    TornDown 0x4000 (destroy willing ((willingRun mapOnePage).at 0)).2.graph ∧
    FreedOnce (destroyHeap willing ((willingRun mapOnePage).at 0)
      (runHeap (fun _ => willing) 0 (worldInit oneOwner) mapOnePage heapInit)).events := by
  have teardown := (run_teardown (fun _ => willing) oneOwner mapOnePage 0 willing mapOnePage_fits (by decide +kernel)
    (by decide +kernel) (by decide +kernel) (by decide +kernel)).2 willing_acknowledges
  have done := teardown.1.mpr (by decide +kernel)
  have isRoot : ((willingRun mapOnePage).graphs 0).rootIpa = 0x4000 := by decide +kernel
  exact ⟨done,isRoot ▸ (teardown.2 done).1,(teardown.2 done).2⟩

/-- A graph with a root at 0x4000 and a middle table at 0x8000 whose mappings were changed a
    number of times, with the places of its edges. -/
structure Toggled (count : Nat) (edges : List (U64 × Nat)) (graph : GpuvaGraph) : Prop where
  created : graph.created = true
  certain : graph.uncertain = false
  noJob : graph.jobInFlight = false
  noLease : graph.leaseToken = 0
  root : ∃ table ∈ graph.tables, table.ipa = 0x4000 ∧ table.level = 0
  middle : ∃ table ∈ graph.tables, table.ipa = 0x8000 ∧ table.level = 1
  generation : graph.mappingGeneration.toNat = count
  edges : graph.parents.map (fun edge => (edge.ipa,edge.index)) = edges

variable {count : Nat}

theorem Toggled.space {edges : List (U64 × Nat)} (toggled : Toggled count edges graph) (room : count < 2 ^ 64 - 1) :
    graph.mappingGeneration ≠ maxU64 := by
  rw [Ne,full_iff,toggled.generation]
  omega

theorem Toggled.beside {edges edges' : List (U64 × Nat)} {left : GpuvaGraph} (toggled : Toggled count edges graph)
    (beside : Beside graph left) (room : count < 2 ^ 64 - 1) (generation : left.mappingGeneration = graph.mappingGeneration + 1)
    (places : left.parents.map (fun edge => (edge.ipa,edge.index)) = edges') : Toggled (count + 1) edges' left := by
  refine ⟨beside.created.trans toggled.created,beside.uncertain.trans toggled.certain,beside.jobInFlight.trans toggled.noJob,
    beside.leaseToken.trans toggled.noLease,beside.table toggled.root,beside.table toggled.middle,?_,places⟩
  rw [generation,changes_succ (toggled.space room),toggled.generation]

theorem Toggled.links (toggled : Toggled count [] graph) (linked : Linked graph) (room : count < 2 ^ 64 - 1) :
    Toggled (count + 1) [(0x4000,0)] (updateParent willing 0x4000 0 0x8000 graph).2 := by
  obtain ⟨parent,parentIn,parentHere,parentLevel⟩ := toggled.root
  obtain ⟨child,childIn,childHere,childLevel⟩ := toggled.middle
  have noEdges : graph.parents = [] := map_eq_nil_iff.mp toggled.edges
  have missing : findEdge graph.parents 0x4000 0 = none := by rw [noEdges]; rfl
  have inside : 0 < entryCount parent.level := by
    rw [parentLevel]
    decide
  have links := (updateParent_links willing_acknowledges linked toggled.created toggled.certain toggled.noJob (toggled.space room) parentIn childIn
    (childLevel.trans (by rw [parentLevel])) inside).2
  rw [parentHere,childHere] at links
  obtain ⟨left,update,beside,_,_,edge,parents,under,atIndex,generation⟩ := (links missing).2 rfl
  rw [update]
  exact toggled.beside beside room generation (by rw [parents,noEdges,map_cons,map_nil,under,atIndex])

theorem Toggled.unlinks (toggled : Toggled count [(0x4000,0)] graph) (linked : Linked graph) (room : count < 2 ^ 64 - 1) :
    Toggled (count + 1) [] (updateParent willing 0x4000 0 0 graph).2 := by
  have edges := toggled.edges
  obtain ⟨edge,isEdge,same⟩ : ∃ edge, graph.parents = [edge] ∧ (edge.ipa,edge.index) = ((0x4000 : U64),0) := by
    cases isList : graph.parents with
    | nil => simp [isList] at edges
    | cons edge rest =>
    rw [isList,map_cons,List.cons.injEq,map_eq_nil_iff] at edges
    exact ⟨edge,by rw [edges.2],edges.1⟩
  have mem : edge ∈ graph.parents := by rw [isEdge]; exact mem_cons_self
  obtain ⟨left,update,beside,parents,_,_,generation⟩ :=
    updateParent_unlinks willing_acknowledges linked toggled.created toggled.certain toggled.noJob (toggled.space room) mem
  rw [Prod.mk.injEq] at same
  rw [same.1,same.2] at update
  rw [update]
  refine toggled.beside beside room generation ?_
  rw [parents,isEdge]
  simp [without]

local instance onlyProcess : NeZero 1 := ⟨Nat.one_ne_zero⟩

/-- A process whose edge is linked and unlinked a number of times, and then linked. -/
def toggleEdge (times : Nat) : List (Fin 1 × Call) :=
  [(0,.create 0x4000 false),(0,.registerTable 0x8000 1)] ++
    (List.replicate times [(0,.updateParent 0x4000 0 0x8000),(0,.updateParent 0x4000 0 0)]).flatten ++
    [(0,.updateParent 0x4000 0 0x8000)]

private theorem fits_of (env : Fin n → GpuvaEnv) (world : World n) {script : List (Fin n × Call)}
    (plain : ∀ entry ∈ script, ∀ graph, ¬ entry.2.Wraps graph) : Fits env world script := by
  induction script generalizing world with
  | nil => trivial
  | cons entry rest ih =>
  exact ⟨plain entry mem_cons_self _,ih _ (fun other later => plain other (mem_cons_of_mem _ later))⟩

private theorem toggleEdge_plain (times : Nat) : ∀ entry ∈ toggleEdge times, ∀ graph, ¬ entry.2.Wraps graph := by
  intro entry mem graph
  simp only [toggleEdge,mem_append,mem_cons,not_mem_nil,or_false,mem_flatten,mem_replicate] at mem
  rcases mem with ((rfl | rfl) | ⟨_,⟨_,rfl⟩,inside⟩) | rfl
  · exact id
  · exact id
  · rcases mem_cons.mp inside with rfl | last
    · exact id
    rw [mem_singleton.mp last]
    exact id
  exact id

private theorem toggle_run (times : Nat) {world : World 1} (linked : WorldLinked world)
    (toggled : Toggled count [] (world.graphs 0)) (room : count + 2 * times ≤ 2 ^ 64 - 1) :
    WorldLinked (run (fun _ => willing) world
      (List.replicate times [(0,.updateParent 0x4000 0 0x8000),(0,.updateParent 0x4000 0 0)]).flatten) ∧
    Toggled (count + 2 * times) [] ((run (fun _ => willing) world
      (List.replicate times [(0,.updateParent 0x4000 0 0x8000),(0,.updateParent 0x4000 0 0)]).flatten).graphs 0) := by
  induction times generalizing world count with
  | zero => exact ⟨linked,toggled⟩
  | succ times ih =>
  have linked' := step_linked (fun _ => willing) linked (0,.updateParent 0x4000 0 0x8000)
  have toggled' := toggled.links (linked.graphs 0) (by omega)
  have linked'' := step_linked (fun _ => willing) linked' (0,.updateParent 0x4000 0 0)
  have toggled'' := toggled'.unlinks (linked'.graphs 0) (by omega)
  have rest := ih linked'' toggled'' (by omega)
  rw [show count + 2 * (times + 1) = count + 1 + 1 + 2 * times by omega]
  exact rest

theorem Toggled.refused {world : World 1} {edges : List (U64 × Nat)} (toggled : Toggled count edges (world.graphs 0))
    (linked : ∀ who, Linked (world.graphs who)) (accounts : Accounts none (world.graphs 0)) (owing : Owing (world.graphs 0))
    (full : 2 ^ 64 - 1 < count + edges.length) : (destroy willing (world.at 0)).1 = false := by
  have ready : Ready (world.at 0).graph :=
    ⟨linked 0,{ toggled with },toggled.certain,accounts,owing⟩
  have isLength := congrArg length toggled.edges
  have generation := toggled.generation
  rw [length_map] at isLength
  refine Bool.eq_false_iff.mpr (fun done => ?_)
  have room : changes (world.graphs 0) ≤ 2 ^ 64 - 1 := (destroy_reaches willing_acknowledges ready).1.mp done
  simp only [changes] at room
  omega

/-- With a full count of changes a process that is idle is not torn down. -/
private theorem toggleEdge_refused {times : Nat} (isFull : 2 * times = 2 ^ 64 - 2) :
    ((willingRun (toggleEdge times)).graphs 0).created = true ∧
    ((willingRun (toggleEdge times)).graphs 0).uncertain = false ∧
    ((willingRun (toggleEdge times)).graphs 0).leaseToken = 0 ∧
    ((willingRun (toggleEdge times)).graphs 0).jobInFlight = false ∧
    Acknowledging willing ∧
    (destroy willing ((willingRun (toggleEdge times)).at 0)).1 = false := by
  have start := run_linked (fun _ => willing) (worldInit_linked oneOwner) [(0,.create 0x4000 false),(0,.registerTable 0x8000 1)]
  have fresh : Toggled 0 [] ((willingRun [(0,.create 0x4000 false),(0,.registerTable 0x8000 1)]).graphs 0) := by
    refine ⟨?_,?_,?_,?_,?_,?_,?_,?_⟩
    all_goals decide +kernel
  obtain ⟨linked,toggled⟩ := toggle_run times start fresh (by omega)
  have linked' := step_linked (fun _ => willing) linked (0,.updateParent 0x4000 0 0x8000)
  have full := toggled.links (linked.graphs 0) (by omega)
  rw [willingRun,toggleEdge,run_append,run_append]
  refine ⟨full.created,full.certain,full.noLease,full.noJob,willing_acknowledges,?_⟩
  obtain ⟨l,accounts,same⟩ := run_accounted (fun _ => willing) (worldInit_linked oneOwner)
    (fun who => graphInit_accounted (oneOwner who)) (toggleEdge times) (fits_of _ _ (toggleEdge_plain _)) 0
  have owing := run_owing (fun _ => willing) oneOwner (toggleEdge times) 0
  rw [toggleEdge,run_append,run_append] at accounts same owing
  rw [same full.certain] at accounts
  exact full.refused linked'.graphs accounts owing (by rw [length_singleton]; omega)

theorem teardown_refused : ((willingRun (toggleEdge (2 ^ 63 - 1))).graphs 0).created = true ∧
    ((willingRun (toggleEdge (2 ^ 63 - 1))).graphs 0).uncertain = false ∧
    ((willingRun (toggleEdge (2 ^ 63 - 1))).graphs 0).leaseToken = 0 ∧
    ((willingRun (toggleEdge (2 ^ 63 - 1))).graphs 0).jobInFlight = false ∧
    Acknowledging willing ∧
    (destroy willing ((willingRun (toggleEdge (2 ^ 63 - 1))).at 0)).1 = false :=
  toggleEdge_refused (by omega)

end WindowsOnM1.GpuvaTeardown
