import WindowsOnM1.GpuvaGenerations

/-!
A run in which a count of references wraps. Leaf tables are registered one after the other
and all their entries are stored with one system page, whose backing counts its leaves in
32 bits.
-/
namespace WindowsOnM1.GpuvaWrapped
open HashChains GpuvaModel GpuvaLists GpuvaMoves GpuvaLinked
open List hiding after
open GpuvaSteps GpuvaBackings GpuvaFrames GpuvaWorld GpuvaAccounts
open GpuvaGenerations
open BitVec (ofNat ofNat_add toNat)

def noted (graph : GpuvaGraph) (calls : List (Request × Option Response)) (lastStatus : U32) (allocations : Nat)
    (tableHint : Option Nat) : GpuvaGraph :=
  { graph with calls := calls, lastStatus := lastStatus, allocations := allocations, tableHint := tableHint }
theorem willing_node (graph : GpuvaGraph) : node willing graph = (true,{ graph with allocations := graph.allocations + 1 }) := rfl
theorem willing_allocate (graph : GpuvaGraph) :
    allocate willing graph = (true,{ graph with allocations := graph.allocations + 1 }) := rfl

theorem willing_call (request : Request) {graph : GpuvaGraph} (certain : graph.uncertain = false) :
    ∃ calls, call willing request graph = (true,{ graph with calls := calls, lastStatus := 0 }) := by
  refine ⟨(sent graph request (some ⟨0,0,7⟩)).calls,?_⟩
  have answered : call willing request graph = (true,{ graph with
      calls := (sent graph request (some ⟨0,0,7⟩)).calls, lastStatus := 0, uncertain := false }) := by
    simp only [call,callWithResponse,certain]
    rfl
  rw [answered]
  simp only [certain]

variable {state : GpuvaState}

private theorem willing_store (linked : Linked state.graph) (present : state.graph.created = true)
    (certain : state.graph.uncertain = false) (idle : state.graph.jobInFlight = false)
    (room : state.graph.mappingGeneration ≠ maxU64) {table backing : GpuvaNode} (tableIn : table ∈ state.graph.tables)
    (level : table.level = 2) {index : Nat} (inside : index < 2048) {target : LeafTarget} (nonzero : target.guestIpa ≠ 0)
    (aligned : target.guestIpa &&& pageMask = 0) (isSystem : target.kind = .System)
    (free : ∀ leaf ∈ state.graph.leaves, ¬ (leaf.ipa = table.ipa ∧ leaf.index = index))
    (backingIn : backing ∈ state.graph.backings) (names : backing.ipa = target.guestIpa) (kind : backing.kind = target.kind) :
    ∃ calls lastStatus allocations tableHint, (tryLeafBacking willing table.ipa index target state).2 =
      countMappingOf { state with graph := addReference backing (linkLeaf table backing index target
        (noted state.graph calls lastStatus allocations tableHint)) } := by
  obtain ⟨tableHint,search⟩ := findTable_hint linked tableIn rfl level
  have open' : ¬ (¬ state.graph.created ∨ state.graph.uncertain ∨ state.graph.jobInFlight ∨
      state.graph.mappingGeneration = maxU64 ∨ (target.kind ≠ .Local ∧ target.kind ≠ .System ∧ target.kind ≠ .Private)) := by
    simp [present,certain,idle,room,isSystem]
  have fine : ¬ (2048 ≤ index ∨ target.guestIpa &&& pageMask ≠ 0) := by
    rw [aligned]
    simp [inside]
  have noLeaf : (table.slots index).bind (nodeAt state.graph.leaves) = none := by
    rw [leafSlot linked tableIn level]
    cases found : findEdge state.graph.leaves table.ipa index with
    | none => rfl
    | some leaf =>
    obtain ⟨there,ipa,atIndex⟩ := findEdge_some found
    exact absurd ⟨ipa,atIndex⟩ (free leaf there)
  let asked : GpuvaGraph := { state.graph with tableHint := tableHint, allocations := state.graph.allocations + 1 }
  have isBacking : findBacking asked target.guestIpa = some backing :=
    linked.backings.findBacking_iff.mpr ⟨backingIn,names⟩
  have pointer : nodeAt asked.backings backing.id = some backing := nodeAt_mem linked.backings.ids backingIn
  have sure : asked.uncertain = false := certain
  obtain ⟨calls,answered⟩ := willing_call (leafRequest table.ipa index (some (target,backing.generation))) sure
  refine ⟨calls,0,state.graph.allocations + 1,tableHint,?_⟩
  unfold tryLeafBacking
  rw [if_neg open',search]
  dsimp only
  rw [if_neg fine,noLeaf]
  rw [if_neg nonzero,willing_node]
  dsimp only [obtainBacking]
  rw [isBacking]
  dsimp only
  rw [if_neg (not_not.mpr kind)]
  dsimp only [storeNewLeaf]
  rw [pointer]
  dsimp only
  rw [answered]
  rfl

private theorem willing_register (present : state.graph.created = true) (certain : state.graph.uncertain = false)
    {ipa : U64} (nonzero : ipa ≠ 0) (aligned : ipa &&& pageMask = 0) (free : ∀ table ∈ state.graph.tables, table.ipa ≠ ipa) :
    ∃ calls lastStatus allocations, (registerTable willing ipa 2 state).2 =
      { state with graph := linkTable ipa 2 (noted state.graph calls lastStatus allocations state.graph.tableHint) } := by
  have open' : ¬ (¬ state.graph.created ∨ state.graph.uncertain ∨ ipa = 0 ∨ ipa &&& pageMask ≠ 0 ∨ 2 < 2) := by
    rintro (absent | uncertain | zero | misaligned | above)
    · exact absent present
    · exact absurd (certain.symm.trans uncertain) (by decide)
    · exact nonzero zero
    · exact misaligned aligned
    exact absurd above (Nat.lt_irrefl 2)
  have none : state.graph.tables.find? (fun table => table.ipa == ipa) = none := by
    rw [find?_eq_none]
    exact fun table mem same => free table mem (eq_of_beq same)
  let asked : GpuvaGraph := { state.graph with allocations := state.graph.allocations + 1 + 1 }
  have sure : asked.uncertain = false := certain
  obtain ⟨calls,answered⟩ := willing_call { command := .RegisterTable, auxIpa := ipa, index := 2 } sure
  refine ⟨calls,0,state.graph.allocations + 1 + 1,?_⟩
  unfold registerTable
  rw [if_neg open']
  rw [none,if_neg (by simp),willing_node]
  dsimp only
  rw [willing_allocate]
  dsimp only [onGraph,registerNewTable]
  rw [answered]
  rfl

def tableAddress (t : Nat) : U64 := ofNat 64 ((t + 2) * 0x4000)

/-- The system page that all leaves name. -/
def sharedPage : U64 := 0x100000000000

local instance onlyProcess : NeZero 1 := ⟨Nat.one_ne_zero⟩

/-- The store of one more leaf, before which its table is registered when it is new. -/
def storeOne (k : Nat) : List (Fin 1 × Call) :=
  (if k % 2048 = 0 then [(0,.registerTable (tableAddress (k / 2048)) 2)] else []) ++
    [(0,.tryLeafBacking (tableAddress (k / 2048)) (k % 2048) ⟨sharedPage,true,.System⟩)]

/-- A process that stores a number of leaves. -/
def storeMany : Nat → List (Fin 1 × Call)
  | 0 => [(0,.create 0x4000 false),(0,.mappingAcquire sharedPage)]
  | k+1 => storeMany k ++ storeOne k

variable {t : Nat}

theorem tableAddress_toNat (small : t < 2 ^ 32) : (tableAddress t).toNat = (t + 2) * 0x4000 := by
  rw [tableAddress,BitVec.toNat_ofNat]
  omega
theorem tableAddress_eq {u : Nat} (small : t < 2 ^ 32) (small' : u < 2 ^ 32) (same : tableAddress t = tableAddress u) : t = u := by
  have numbers := congrArg toNat same
  rw [tableAddress_toNat small,tableAddress_toNat small'] at numbers
  omega

private theorem tableAddress_fine (small : t < 2 ^ 32) :
    tableAddress t ≠ 0x4000 ∧ tableAddress t ≠ 0 ∧ tableAddress t &&& pageMask = 0 := by
  have number := tableAddress_toNat small
  refine ⟨fun same => ?_,fun same => ?_,BitVec.eq_of_toNat_eq ?_⟩
  · rw [same] at number
    simp at number
  · rw [same] at number
    simp at number
  rw [BitVec.toNat_and,number,show (pageMask : U64).toNat = 2 ^ 14 - 1 from rfl,Nat.and_two_pow_sub_one_eq_mod]
  simp

def leafData (leaf : GpuvaNode) : U64 × Nat × U64 × BackingKind × U64 :=
  (leaf.ipa,leaf.index,leaf.auxIpa,leaf.kind,leaf.generation)

/-- The process after a number of stores into a number of tables. -/
structure Stores (stores tables : Nat) (state : GpuvaState) : Prop where
  present : state.graph.created = true
  certain : state.graph.uncertain = false
  idle : state.graph.jobInFlight = false
  isRegistered : state.graph.registered = true
  counted : state.graph.mappingGeneration = ofNat 64 stores
  known : ∀ table ∈ state.graph.tables, table.ipa = 0x4000 ∨ ∃ t < tables, table.ipa = tableAddress t
  registered : ∀ t < tables, ∃ table ∈ state.graph.tables, table.ipa = tableAddress t ∧ table.level = 2
  leaves : state.graph.leaves.map leafData =
    (List.range stores).reverse.map (fun j => (tableAddress (j / 2048),j % 2048,sharedPage,.System,1))
  backing : ∃ backing, state.graph.backings = [backing] ∧ backing.ipa = sharedPage ∧ backing.kind = .System ∧
    backing.references = ofNat 32 stores ∧ backing.retained = false ∧ backing.frame = some 0 ∧ backing.generation = 1
  frames : state.registry.frames = [⟨0,sharedPage,1,1,1⟩]
  next : state.registry.nextGeneration = 1

/-- The run after a number of stores. -/
def afterStores (k : Nat) : World 1 := run (fun _ => willing) (worldInit oneOwner) (storeMany k)
theorem afterStores_linked (k : Nat) : WorldLinked (afterStores k) := run_linked _ (worldInit_linked oneOwner) _

private theorem stores_one : Stores 1 1 ((afterStores 1).at 0) := by
  have one : ((afterStores 1).at 0).graph.backings.length = 1 := by decide +kernel
  obtain ⟨backing,isBacking⟩ := length_eq_one_iff.mp one
  have page : ((afterStores 1).at 0).graph.backings.map (fun backing => (backing.ipa,backing.kind,backing.references)) =
      [(sharedPage,.System,1)] := by decide +kernel
  have grant : ((afterStores 1).at 0).graph.backings.map (fun backing => (backing.retained,backing.frame,backing.generation)) =
      [(false,some 0,1)] := by decide +kernel
  have tables : ((afterStores 1).at 0).graph.tables.map (fun table => (table.ipa,table.level)) =
      [(tableAddress 0,2),(0x4000,0)] := by decide +kernel
  rw [isBacking] at page grant
  simp only [map_cons,map_nil,cons.injEq,and_true,Prod.mk.injEq] at page grant
  refine ⟨by decide +kernel,by decide +kernel,by decide +kernel,by decide +kernel,by decide +kernel,fun table mem => ?_,
    fun t small => ?_,by decide +kernel,⟨backing,isBacking,page.1,page.2.1,page.2.2,grant⟩,by decide +kernel,
    by decide +kernel⟩
  · have there := mem_map_of_mem (f := fun table : GpuvaNode => (table.ipa,table.level)) mem
    rw [tables] at there
    simp only [mem_cons,Prod.mk.injEq,not_mem_nil,or_false] at there
    rcases there with ⟨ipa,_⟩ | ⟨ipa,_⟩
    · exact .inr ⟨0,Nat.zero_lt_one,ipa⟩
    exact .inl ipa
  have there : (tableAddress t,2) ∈ ((afterStores 1).at 0).graph.tables.map (fun table => (table.ipa,table.level)) := by
    rw [tables,Nat.lt_one_iff.mp small]
    exact mem_cons_self
  obtain ⟨table,mem,same⟩ := mem_map.mp there
  exact ⟨table,mem,congrArg Prod.fst same,congrArg Prod.snd same⟩

variable {k : Nat}

theorem Stores.register (stores : Stores k t state) (small : t < 2 ^ 32) :
    Stores k (t + 1) (apply willing (.registerTable (tableAddress t) 2) state) := by
  obtain ⟨notRoot,nonzero,aligned⟩ := tableAddress_fine small
  have free : ∀ table ∈ state.graph.tables, table.ipa ≠ tableAddress t := by
    intro table mem same
    rcases stores.known table mem with isRoot | ⟨u,below,ipa⟩
    · exact notRoot (same.symm.trans isRoot)
    exact Nat.ne_of_lt below (tableAddress_eq (below.trans small) small (ipa.symm.trans same))
  obtain ⟨calls,lastStatus,allocations,after⟩ := willing_register stores.present stores.certain nonzero aligned free
  rw [apply,after]
  refine { stores with known := fun table mem => ?_, registered := fun u below => ?_ }
  · rcases mem_cons.mp mem with rfl | old
    · exact .inr ⟨t,Nat.lt_succ_self t,rfl⟩
    rcases stores.known table old with isRoot | ⟨u,below,ipa⟩
    · exact .inl isRoot
    exact .inr ⟨u,below.trans (Nat.lt_succ_self t),ipa⟩
  rcases Nat.lt_succ_iff_lt_or_eq.mp below with below | rfl
  · obtain ⟨table,mem,rest⟩ := stores.registered u below
    exact ⟨table,mem_cons_of_mem _ mem,rest⟩
  exact ⟨_,mem_cons_self,rfl,rfl⟩

theorem Stores.leaf (stores : Stores k t state) {leaf : GpuvaNode}
    (mem : leaf ∈ state.graph.leaves) : ∃ j < k, leafData leaf = (tableAddress (j / 2048),j % 2048,sharedPage,.System,1) := by
  have there : leafData leaf ∈ state.graph.leaves.map leafData := mem_map_of_mem mem
  rw [stores.leaves] at there
  obtain ⟨j,inside,same⟩ := mem_map.mp there
  exact ⟨j,mem_range.mp (mem_reverse.mp inside),same.symm⟩

theorem Stores.store (stores : Stores k t state) (linked : Linked state.graph)
    (small : k < 2 ^ 40) (there : k / 2048 < t) :
    Stores (k + 1) t (apply willing (.tryLeafBacking (tableAddress (k / 2048)) (k % 2048) ⟨sharedPage,true,.System⟩) state) := by
  obtain ⟨table,tableIn,isTable,level⟩ := stores.registered (k / 2048) there
  obtain ⟨backing,backings,page,kind,references,unkept,frame,generation⟩ := stores.backing
  have backingIn : backing ∈ state.graph.backings := backings ▸ mem_cons_self
  have free : ∀ leaf ∈ state.graph.leaves, ¬ (leaf.ipa = table.ipa ∧ leaf.index = k % 2048) := by
    rintro leaf mem ⟨ipa,index⟩
    obtain ⟨j,below,data⟩ := stores.leaf mem
    simp only [leafData,Prod.mk.injEq] at data
    have sameTable := tableAddress_eq (by omega) (by omega) (data.1.symm.trans (ipa.trans isTable))
    omega
  have room : state.graph.mappingGeneration ≠ maxU64 := by
    rw [stores.counted]
    intro full
    have numbers := congrArg toNat full
    simp at numbers
    omega
  let target : LeafTarget := ⟨sharedPage,true,.System⟩
  have nonzero : target.guestIpa ≠ 0 := by decide
  obtain ⟨calls,lastStatus,allocations,tableHint,after⟩ := willing_store linked stores.present stores.certain stores.idle room
    tableIn level (Nat.mod_lt k (by decide)) nonzero (by decide) rfl free backingIn page kind
  rw [apply,← isTable,after]
  refine { stores with counted := ?_, known := fun other mem => ?_, registered := fun u below => ?_, leaves := ?_, backing := ?_ }
  · change state.graph.mappingGeneration + 1 = _
    rw [stores.counted,ofNat_add]
    rfl
  · obtain ⟨old,inside,_,ipa,_⟩ := setSlot_old mem
    rw [ipa]
    exact stores.known old inside
  · obtain ⟨old,inside,ipa,isLevel⟩ := stores.registered u below
    obtain ⟨other,mem,_,ipa',level'⟩ := setSlot_exists table.id (k % 2048) (some state.graph.linked) inside
    exact ⟨other,mem,ipa'.trans ipa,level'.trans isLevel⟩
  · rw [range_succ,reverse_append,reverse_singleton,singleton_append,map_cons,← stores.leaves]
    change leafData _ :: state.graph.leaves.map leafData = _
    rw [leafData,isTable,generation]
  refine ⟨{ backing with retained := false, references := backing.references + 1 },?_,page,kind,?_,rfl,frame,generation⟩
  · change modifyNode state.graph.backings backing.id _ = _
    rw [backings,modifyNode,map_cons,if_pos rfl]
    rfl
  rw [references,ofNat_add]
  rfl

theorem at_step (world : World 1) (call : Call) :
    (step (fun _ => willing) world (0,call)).at 0 = apply willing call (world.at 0) := by
  simp only [step,World.set,World.at,Function.update_self]

private theorem stores_succ (k : Nat) (small : k < 2 ^ 40) : Stores (k + 1) (k / 2048 + 1) ((afterStores (k + 1)).at 0) := by
  induction k with
  | zero => exact stores_one
  | succ k ih =>
  have before := ih (by omega)
  have linked := afterStores_linked (k + 1)
  rw [afterStores,storeMany,run_append,← afterStores]
  by_cases new : (k + 1) % 2048 = 0
  · have tables : k / 2048 + 1 = (k + 1) / 2048 := by omega
    rw [tables] at before
    rw [storeOne,if_pos new]
    have registered := before.register (by omega)
    rw [← at_step] at registered
    have links := step_linked (fun _ => willing) linked (0,.registerTable (tableAddress ((k + 1) / 2048)) 2)
    have stored := registered.store (links.graphs 0) small (Nat.lt_succ_self _)
    exact stored
  have tables : k / 2048 + 1 = (k + 1) / 2048 + 1 := by omega
  rw [tables] at before
  rw [storeOne,if_neg new]
  exact before.store (linked.graphs 0) small (Nat.lt_succ_self _)

variable {n : Nat}

theorem stores_after (some : 0 < n) (small : n ≤ 2 ^ 40) : Stores n ((n - 1) / 2048 + 1) ((afterStores n).at 0) := by
  obtain ⟨k,rfl⟩ := Nat.exists_eq_add_of_lt some
  rw [Nat.zero_add,Nat.add_sub_cancel]
  exact stores_succ k (by omega)

theorem Stores.naming (stores : Stores n t state) : naming state.graph.leaves sharedPage = n := by
  have count : ∀ leaves : List GpuvaNode,
      GpuvaAccounts.naming leaves sharedPage = (leaves.map leafData).countP (fun data => data.2.2.1 == sharedPage) := by
    intro leaves
    rw [countP_map]
    rfl
  rw [count,stores.leaves,countP_map]
  refine (countP_eq_length.mpr (fun _ _ => beq_self_eq_true _)).trans ?_
  rw [length_reverse,length_range]

private theorem afterStores_run (n : Nat) :
    (willingRun (storeMany n)).graphs 0 = ((afterStores n).at 0).graph := rfl

/-- The count of references of a page that 2 ^ 32 leaves name is 0. -/
theorem wrapped_books : ((willingRun (storeMany 4294967296)).graphs 0).uncertain = false ∧
    ¬ GraphBooks ((willingRun (storeMany 4294967296)).graphs 0) := by
  rw [afterStores_run]
  have stores : Stores 4294967296 _ _ := stores_after (by decide) (by decide)
  refine ⟨stores.certain,fun books => ?_⟩
  obtain ⟨backing,backings,page,_,references,_⟩ := stores.backing
  have mem : backing ∈ ((afterStores 4294967296).at 0).graph.backings := backings ▸ mem_cons_self
  have count := books.references backing mem
  rw [references,page] at count
  have all := stores.naming
  have none : (ofNat 32 4294967296).toNat = 0 := by decide
  exact absurd (none.symm.trans (count.trans all)) (by decide)

/-- The clearing of a leaf whose system backing has one reference: the backing is revoked. -/
private theorem willing_clear (linked : Linked state.graph) (present : state.graph.created = true)
    (certain : state.graph.uncertain = false) (idle : state.graph.jobInFlight = false)
    (room : state.graph.mappingGeneration ≠ maxU64) {table leaf backing : GpuvaNode} (tableIn : table ∈ state.graph.tables)
    (level : table.level = 2) (leafIn : leaf ∈ state.graph.leaves) (under : leaf.ipa = table.ipa) (inside : leaf.index < 2048)
    (backings : state.graph.backings = [backing]) (names : backing.ipa = leaf.auxIpa) (kind : backing.kind = .System)
    (once : backing.references = 1) :
    ∃ graph, graph.leaves = without state.graph.leaves leaf.id ∧ graph.uncertain = false ∧
      graph.registered = state.graph.registered ∧
      (tryLeafBacking willing table.ipa leaf.index ⟨0,false,.Local⟩ state).2 =
        { graph := graph, registry := (releaseGrant backing state).registry } := by
  obtain ⟨tableHint,search⟩ := findTable_hint linked tableIn rfl level
  have open' : ¬ (¬ state.graph.created ∨ state.graph.uncertain ∨ state.graph.jobInFlight ∨
      state.graph.mappingGeneration = maxU64 ∨ (BackingKind.Local ≠ .Local ∧ BackingKind.Local ≠ .System ∧ BackingKind.Local ≠ .Private)) := by
    simp [present,certain,idle,room]
  have fine : ¬ (2048 ≤ leaf.index ∨ (0 : U64) &&& pageMask ≠ 0) := by
    simp [inside]
  have isLeaf : (table.slots leaf.index).bind (nodeAt state.graph.leaves) = some leaf := by
    rw [leafSlot linked tableIn level,← under]
    exact findEdge_mem linked.tree.leafKeys leafIn
  let hinted : GpuvaGraph := { state.graph with tableHint := tableHint }
  have isBacking : findBacking hinted leaf.auxIpa = some backing :=
    linked.backings.findBacking_iff.mpr ⟨backings ▸ mem_cons_self,names⟩
  have used : backing.references ≠ 0 := by
    rw [once]
    decide
  have sure : hinted.uncertain = false := certain
  obtain ⟨calls,cleared⟩ := willing_call (leafRequest table.ipa leaf.index none) sure
  let dropped : GpuvaNode := { backing with references := backing.references - 1 }
  let left : GpuvaGraph := dropReference backing (unlinkLeaf table leaf leaf.index { hinted with calls := calls, lastStatus := 0 })
  have pointer : nodeAt left.backings backing.id = some dropped := by
    simp only [left,dropReference,unlinkLeaf,hinted,backings,modifyNode,map_cons,if_true,map_nil]
    exact find?_cons_of_pos (beq_self_eq_true _)
  have sure' : left.uncertain = false := certain
  obtain ⟨calls',revoked⟩ := willing_call (revokeRequest dropped) sure'
  have unused : dropped.references = 0 := by
    simp only [dropped,once]
    decide
  have unkept : keepable left dropped = false := by
    simp [keepable,dropped,kind]
  refine ⟨countMapping (releaseGrant dropped ⟨{ left with calls := calls', lastStatus := 0 },state.registry⟩).graph,
    rfl,certain,rfl,?_⟩
  unfold tryLeafBacking
  rw [if_neg open',search]
  dsimp only
  rw [if_neg fine,isLeaf]
  dsimp only
  rw [if_pos rfl]
  dsimp only [clearLeaf]
  rw [isBacking]
  dsimp only
  rw [if_neg used,cleared]
  dsimp only [revokeUnusedBacking]
  rw [pointer]
  dsimp only
  rw [if_neg (not_not.mpr unused),unkept,if_neg (by simp),if_neg (by simp),revoked]
  rfl

private theorem frame_revoked {registry : GpuvaRegistry} (frames : registry.frames = [⟨0,sharedPage,1,1,1⟩]) {backing : GpuvaNode}
    (graph : GpuvaGraph) (frame : backing.frame = some 0) :
    (releaseGrant backing ⟨graph,registry⟩).registry.frames = [⟨0,sharedPage,1,1,0⟩] ∧
      (releaseGrant backing ⟨graph,registry⟩).registry.nextGeneration = registry.nextGeneration := by
  have changed : (modifyFrame registry 0 (fun frame => { frame with grants := frame.grants - 1 })).frames =
      [⟨0,sharedPage,1,1,0⟩] := by
    rw [modifyFrame,frames]
    rfl
  have found : (modifyFrame registry 0 (fun frame => { frame with grants := frame.grants - 1 })).frames.find?
      (fun frame => frame.id == 0) = some ⟨0,sharedPage,1,1,0⟩ := by
    rw [changed]
    decide
  simp only [releaseGrant,frame,releaseFrame]
  rw [found]
  exact ⟨changed,rfl⟩

private theorem frame_unmapped {state : GpuvaState} (linked : FramesLinked state.registry) (registered : state.graph.registered = true)
    (frames : state.registry.frames = [⟨0,sharedPage,1,1,0⟩]) :
    (mappingRelease sharedPage state).graph = state.graph ∧ (mappingRelease sharedPage state).registry.frames = [] ∧
      (mappingRelease sharedPage state).registry.nextGeneration = state.registry.nextGeneration := by
  have isFrame : findFrame state.graph state.registry (sharedPage &&& ~~~pageMask) = some ⟨0,sharedPage,1,1,0⟩ :=
    (linked.findFrame_iff registered).mpr ⟨frames ▸ mem_cons_self,by decide⟩
  have changed : (modifyFrame state.registry 0 (fun frame => { frame with mappings := frame.mappings - 1 })).frames =
      [⟨0,sharedPage,1,0,0⟩] := by
    rw [modifyFrame,frames]
    rfl
  have found : (modifyFrame state.registry 0 (fun frame => { frame with mappings := frame.mappings - 1 })).frames.find?
      (fun frame => frame.id == 0) = some ⟨0,sharedPage,1,0,0⟩ := by
    rw [changed]
    decide
  unfold mappingRelease
  rw [isFrame]
  dsimp only
  rw [if_neg (by decide),releaseFrame,found]
  dsimp only
  rw [if_neg (by decide),changed]
  exact ⟨rfl,rfl,rfl⟩

private theorem frame_mapped (certain : state.graph.uncertain = false) (registered : state.graph.registered = true)
    (frames : state.registry.frames = []) (next : state.registry.nextGeneration = 1) :
    (mappingAcquire willing sharedPage state).2.graph.leaves = state.graph.leaves ∧
      ∀ frame ∈ (mappingAcquire willing sharedPage state).2.registry.frames, frame.generation = 2 := by
  have open' : ¬ (¬ state.graph.registered ∨ sharedPage = 0 ∨ sharedPage &&& 0xfff ≠ 0 ∨ maxU64 - 0xfff < sharedPage ∨
      state.graph.uncertain) := by
    rw [registered,certain]
    decide
  have none : findFrame state.graph state.registry (sharedPage &&& ~~~pageMask) = none := by
    cases found : findFrame state.graph state.registry (sharedPage &&& ~~~pageMask) with
    | none => rfl
    | some frame =>
    have mem := (findFrame_some found).1
    rw [frames] at mem
    exact absurd mem not_mem_nil
  have room : ¬ state.registry.nextGeneration = maxU64 := by
    rw [next]
    decide
  unfold mappingAcquire
  rw [if_neg open']
  dsimp only
  rw [none]
  rw [if_neg room,willing_allocate]
  dsimp only [addMapping]
  refine ⟨rfl,fun frame mem => ?_⟩
  obtain ⟨old,inside,rfl⟩ := mem_modifyFrame.mp mem
  rw [frames,mem_singleton] at inside
  subst inside
  rw [if_pos rfl,next]
  rfl

/-- One leaf of the shared page is cleared, and the page is unmapped and mapped again. -/
def staleCalls : List (Fin 1 × Call) :=
  [(0,.tryLeafBacking (tableAddress 0) 0 ⟨0,false,.Local⟩),(0,.mappingRelease sharedPage),(0,.mappingAcquire sharedPage)]

theorem stores_leaf (stores : Stores n t state) {j : Nat} (below : j < n) :
    ∃ leaf ∈ state.graph.leaves, leafData leaf = (tableAddress (j / 2048),j % 2048,sharedPage,.System,1) := by
  have there : (tableAddress (j / 2048),j % 2048,sharedPage,BackingKind.System,1) ∈ state.graph.leaves.map leafData := by
    rw [stores.leaves]
    exact mem_map.mpr ⟨j,mem_reverse.mpr (mem_range.mpr below),rfl⟩
  exact mem_map.mp there

/-- Leaves of the first life of a page are left when it has its second. -/
private theorem stale_leaves (some : 1 < n) (small : n ≤ 2 ^ 40) (wrapped : ofNat 32 n = 1) :
    ¬ Generations (fun _ => willing) oneOwner (storeMany n ++ staleCalls) := by
  intro generations
  have stores := stores_after (Nat.zero_lt_of_lt some) small
  have linked := afterStores_linked n
  obtain ⟨table,tableIn,isTable,level⟩ := stores.registered 0 (Nat.succ_pos _)
  obtain ⟨backing,backings,page,kind,references,_,frame,_⟩ := stores.backing
  obtain ⟨first,firstIn,firstData⟩ := stores_leaf stores (Nat.zero_lt_of_lt some)
  obtain ⟨second,secondIn,secondData⟩ := stores_leaf stores some
  simp only [leafData,Prod.mk.injEq] at firstData secondData
  have room : ((afterStores n).at 0).graph.mappingGeneration ≠ maxU64 := by
    rw [stores.counted]
    intro full
    have numbers := congrArg toNat full
    simp at numbers
    omega
  obtain ⟨graph,leaves,certain,registered,cleared⟩ := willing_clear (linked.graphs 0) stores.present stores.certain stores.idle
    room tableIn level firstIn (firstData.1.trans isTable.symm) (by rw [firstData.2.1]; decide) backings
    (page.trans firstData.2.2.1.symm) kind (references.trans wrapped)
  have still : second ∈ graph.leaves := by
    rw [leaves]
    refine mem_without.mpr ⟨secondIn,fun same => ?_⟩
    have isSame := (linked.graphs 0).tree.leafIds.eq secondIn firstIn same
    rw [isSame,firstData.2.1] at secondData
    exact absurd secondData.2.1 (by decide)
  have one := step_linked (fun _ => willing) linked (0,.tryLeafBacking (tableAddress 0) 0 ⟨0,false,.Local⟩)
  have state : (step (fun _ => willing) (afterStores n) (0,.tryLeafBacking (tableAddress 0) 0 ⟨0,false,.Local⟩)).at 0 =
      ⟨graph,(releaseGrant backing ((afterStores n).at 0)).registry⟩ := by
    rw [at_step,apply,← cleared,isTable,firstData.2.1]
  obtain ⟨revoked,next⟩ := frame_revoked stores.frames ((afterStores n).at 0).graph frame
  have frames : FramesLinked (releaseGrant backing ((afterStores n).at 0)).registry :=
    (congrArg GpuvaState.registry state) ▸ one.registry.toFramesLinked
  let cleared' : GpuvaState := ⟨graph,(releaseGrant backing ((afterStores n).at 0)).registry⟩
  have isRegistered : cleared'.graph.registered = true := registered.trans stores.isRegistered
  obtain ⟨sameGraph,unmapped,next'⟩ := @frame_unmapped cleared' frames isRegistered revoked
  obtain ⟨sameLeaves,again⟩ := frame_mapped (by rw [sameGraph]; exact certain)
    (by rw [sameGraph]; exact isRegistered) unmapped (next'.trans (next.trans stores.next))
  have last : (after (fun _ => willing) oneOwner (storeMany n ++ staleCalls)).at 0 = (mappingAcquire willing sharedPage
      (mappingRelease sharedPage ⟨graph,(releaseGrant backing ((afterStores n).at 0)).registry⟩)).2 := by
    rw [after,run_append,← afterStores,staleCalls]
    simp only [run,foldl_cons,foldl_nil]
    rw [at_step,at_step,state]
    rfl
  have here : second ∈ ((after (fun _ => willing) oneOwner (storeMany n ++ staleCalls)).graphs 0).leaves := by
    have lists := congrArg (fun state => state.graph.leaves) last
    have same := lists.trans (sameLeaves.trans (congrArg GpuvaGraph.leaves sameGraph))
    exact same ▸ still
  obtain ⟨life,there,_,generation⟩ := generations.leaves 0 second here secondData.2.2.2.1
  have lists := congrArg (fun state => state.registry.frames) last
  have isTwo := again life (lists ▸ there)
  rw [isTwo,secondData.2.2.2.2] at generation
  exact absurd generation (by decide)

/-- A page that 2 ^ 32 + 1 leaves name loses its life with the first of them. -/
theorem stale_generations : ¬ Generations (fun _ => willing) oneOwner (storeMany 4294967297 ++ staleCalls) :=
  stale_leaves (by decide) (by decide) (by decide)

end WindowsOnM1.GpuvaWrapped
