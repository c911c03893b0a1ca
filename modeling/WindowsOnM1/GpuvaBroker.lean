import WindowsOnM1.GpuvaWorld

/-!
What the broker acknowledged. The requests that it answered with Status 0 and Flags 0 make
up a view of the process, and a graph that is not uncertain holds exactly this view.
-/
namespace WindowsOnM1.GpuvaBroker
open GpuvaModel GpuvaLists GpuvaMoves GpuvaLinked List Function
open GpuvaWorld

variable {κ β : Type*}

/-- A map that has exactly the entries of a list. -/
def Tracks (map : κ → Option β) (entries : List GpuvaNode) (key : GpuvaNode → κ) (value : GpuvaNode → β) : Prop :=
  ∀ k v, map k = some v ↔ ∃ entry ∈ entries, key entry = k ∧ value entry = v

section Tracks

variable {map : κ → Option β} {entries : List GpuvaNode} {key : GpuvaNode → κ} {value : GpuvaNode → β}

theorem Tracks.empty (none : entries = []) : Tracks (fun _ : κ => Option.none) entries key value := by
  intro k v
  simp [none]

theorem Tracks.same (tracks : Tracks map entries key value) {entries' : List GpuvaNode}
    (same : entries'.map (fun entry => (key entry,value entry)) = entries.map (fun entry => (key entry,value entry))) :
    Tracks map entries' key value := by
  have mem : ∀ (nodes : List GpuvaNode) k v, (∃ entry ∈ nodes, key entry = k ∧ value entry = v) ↔
      (k,v) ∈ nodes.map (fun entry => (key entry,value entry)) := by
    intro nodes k v
    simp
  intro k v
  rw [tracks k v,mem,mem,same]

variable [DecidableEq κ]

section
variable (tracks : Tracks map entries key value)
include tracks

theorem Tracks.push (new : GpuvaNode) (free : ∀ entry ∈ entries, key entry ≠ key new) :
    Tracks (Function.update map (key new) (some (value new))) (new :: entries) key value := by
  intro k v
  rw [exists_mem_cons_iff]
  by_cases here : k = key new
  · subst here
    rw [update_self,Option.some.injEq]
    constructor
    · exact fun same => .inl ⟨rfl,same⟩
    rintro (⟨_,same⟩ | ⟨entry,there,same,_⟩)
    · exact same
    exact absurd same (free entry there)
  rw [update_of_ne here,tracks k v]
  constructor
  · exact .inr
  rintro (⟨same,_⟩ | there)
  · exact absurd same.symm here
  exact there

theorem Tracks.remove (ids : Ids entries) {gone : GpuvaNode} (mem : gone ∈ entries)
    (once : ∀ entry ∈ entries, key entry = key gone → entry.id = gone.id) :
    Tracks (Function.update map (key gone) none) (without entries gone.id) key value := by
  intro k v
  by_cases here : k = key gone
  · subst here
    rw [update_self]
    constructor
    · rintro ⟨⟩
    rintro ⟨entry,there,same,_⟩
    obtain ⟨there,apart⟩ := mem_without.mp there
    exact absurd (once entry there same) apart
  rw [update_of_ne here,tracks k v]
  constructor
  · rintro ⟨entry,there,isKey,isValue⟩
    refine ⟨entry,mem_without.mpr ⟨there,fun same => here ?_⟩,isKey,isValue⟩
    rw [← isKey,ids.eq there mem same]
  rintro ⟨entry,there,rest⟩
  exact ⟨entry,(mem_without.mp there).1,rest⟩

theorem Tracks.modify (ids : Ids entries) {old : GpuvaNode} (mem : old ∈ entries)
    (once : ∀ entry ∈ entries, key entry = key old → entry.id = old.id) (change : GpuvaNode → GpuvaNode)
    (keeps : ∀ entry, key (change entry) = key entry) :
    Tracks (Function.update map (key old) (some (value (change old)))) (modifyNode entries old.id change) key value := by
  intro k v
  by_cases here : k = key old
  · subst here
    rw [update_self,Option.some.injEq]
    constructor
    · exact fun same => ⟨change old,mem_modifyNode_self mem,keeps old,same⟩
    rintro ⟨_,there,isKey,isValue⟩
    obtain ⟨entry,inside,rfl⟩ := mem_modifyNode.mp there
    split_ifs at isKey isValue with same
    · rw [← ids.eq inside mem same]
      exact isValue
    exact absurd (once entry inside isKey) same
  rw [update_of_ne here,tracks k v]
  constructor
  · rintro ⟨entry,there,isKey,isValue⟩
    refine ⟨entry,mem_modifyNode_other there (fun same => here ?_),isKey,isValue⟩
    rw [← isKey,ids.eq there mem same]
  rintro ⟨_,there,isKey,isValue⟩
  obtain ⟨entry,inside,rfl⟩ := mem_modifyNode.mp there
  split_ifs at isKey isValue with same
  · rw [keeps,ids.eq inside mem same] at isKey
    exact absurd isKey.symm here
  exact ⟨entry,inside,isKey,isValue⟩

end

end Tracks

/-- What the broker knows of a process. -/
structure View where
  tables : U64 → Option Nat
  parents : U64 × Nat → Option U64
  leaves : U64 × Nat → Option (U64 × Bool)
  backings : U64 → Option U64
  rootIpa : U64
  leaseToken : U64
  jobInFlight : Bool

def View.empty : View :=
  { tables := fun _ => none, parents := fun _ => none, leaves := fun _ => none, backings := fun _ => none
    rootIpa := 0, leaseToken := 0, jobInFlight := false }

local instance fourPages : NeZero 4 := ⟨by decide⟩

/-- What an acknowledged request does to the view. -/
def View.receive (view : View) (request : Request) (response : Response) : View :=
  match request.command with
  | .Create => { View.empty with tables := Function.update (fun _ => none) request.tableIpa (some 0), rootIpa := request.tableIpa }
  | .RegisterTable => { view with tables := Function.update view.tables request.auxIpa (some request.index) }
  | .RevokeTable => { view with tables := Function.update view.tables request.tableIpa none }
  | .UpdateParent => { view with
      parents := Function.update view.parents (request.tableIpa,request.index)
        (if request.auxIpa = 0 then none else some request.auxIpa) }
  | .RegisterBacking => { view with backings := Function.update view.backings request.auxIpa (some request.allocationGeneration) }
  | .RegisterSharedBacking => { view with
      backings := Function.update view.backings request.auxIpa (some request.allocationGeneration) }
  | .RevokeBacking => { view with backings := Function.update view.backings request.auxIpa none }
  | .UpdateLeaf => { view with
      leaves := Function.update view.leaves (request.tableIpa,request.index)
        (if request.validMask = 0 then none else some (request.logicalIpa 0,request.writableMask != 0)) }
  | .RelocateRoot => { view with rootIpa := request.tableIpa }
  | .Lease => { view with leaseToken := response.token }
  | .JobBegin => { view with jobInFlight := true }
  | .JobEnd => { view with jobInFlight := false }
  | .Release => { view with leaseToken := 0 }
  | .Destroy => View.empty
  | .FlushTlb => view

/-- What a request with its answer does to the view. -/
def View.answer (view : View) (call : Request × Option Response) : View :=
  match call.2 with
  | none => view
  | some response => if response.status = 0 ∧ response.flags = 0 then view.receive call.1 response else view

/-- The acknowledged view of the requests that were sent. -/
def acknowledged (calls : List (Request × Option Response)) : View := calls.foldl View.answer View.empty

/-- A graph that holds exactly a view. -/
structure Agrees (graph : GpuvaGraph) (view : View) : Prop where
  tables : Tracks view.tables graph.tables (fun table => table.ipa) (fun table => table.level)
  parents : Tracks view.parents graph.parents (fun edge => (edge.ipa,edge.index)) (fun edge => edge.auxIpa)
  leaves : Tracks view.leaves graph.leaves (fun leaf => (leaf.ipa,leaf.index)) (fun leaf => (leaf.auxIpa,leaf.writable))
  backings : Tracks view.backings graph.backings (fun backing => backing.ipa) (fun backing => backing.generation)
  rootIpa : graph.rootIpa = view.rootIpa
  leaseToken : graph.leaseToken = view.leaseToken
  jobInFlight : graph.jobInFlight = view.jobInFlight

variable (view : View) (request : Request)

theorem answer_refused {answer : Option Response}
    (refused : ∀ response, answer = some response → ¬ Acknowledges response) : view.answer (request,answer) = view := by
  cases answer with
  | none => rfl
  | some response => exact if_neg (refused response rfl)

variable {response : Response}

theorem answer_acknowledged (acknowledges : Acknowledges response) :
    view.answer (request,some response) = view.receive request response := if_pos acknowledges
def addressed (graph : GpuvaGraph) (request : Request) : Request :=
  { request with processId := graph.processId, processGeneration := graph.processGeneration }

variable (graph : GpuvaGraph)

theorem acknowledged_sent (request : Request) (answer : Option Response) :
    acknowledged (sent graph request answer).calls = (acknowledged graph.calls).answer (addressed graph request,answer) := by
  simp only [acknowledged,sent,foldl_append,foldl_cons,foldl_nil]
  rfl

theorem Agrees.received {graph graph' : GpuvaGraph} {request : Request}
    (acknowledges : Acknowledges response) (calls : graph'.calls = (sent graph request (some response)).calls)
    (agrees : Agrees graph' ((acknowledged graph.calls).receive (addressed graph request) response)) :
    Agrees graph' (acknowledged graph'.calls) := by
  rw [calls,acknowledged_sent,answer_acknowledged _ _ acknowledges]
  exact agrees

theorem Agrees.of_same {graph graph' : GpuvaGraph} {view : View} (agrees : Agrees graph view)
    (tables : graph'.tables = graph.tables) (parents : graph'.parents = graph.parents) (leaves : graph'.leaves = graph.leaves)
    (backings : graph'.backings = graph.backings) (rootIpa : graph'.rootIpa = graph.rootIpa)
    (leaseToken : graph'.leaseToken = graph.leaseToken) (jobInFlight : graph'.jobInFlight = graph.jobInFlight) :
    Agrees graph' view where
  tables := tables ▸ agrees.tables
  parents := parents ▸ agrees.parents
  leaves := leaves ▸ agrees.leaves
  backings := backings ▸ agrees.backings
  rootIpa := rootIpa.trans agrees.rootIpa
  leaseToken := leaseToken.trans agrees.leaseToken
  jobInFlight := jobInFlight.trans agrees.jobInFlight

theorem tracks_setSlot {map : U64 → Option Nat} {tables : List GpuvaNode}
    (tracks : Tracks map tables (fun table => table.ipa) (fun table => table.level)) (id index : Nat) (target : Option Nat) :
    Tracks map (setSlot tables id index target) (fun table => table.ipa) (fun table => table.level) :=
  tracks.same (map_setSlot _ _ _ _ _ (fun _ _ => rfl))

theorem tracks_backings {map : U64 → Option U64} {backings : List GpuvaNode} {id : Nat} {change : GpuvaNode → GpuvaNode}
    (tracks : Tracks map backings (fun backing => backing.ipa) (fun backing => backing.generation))
    (keeps : ∀ backing, (change backing).ipa = backing.ipa ∧ (change backing).generation = backing.generation) :
    Tracks map (modifyNode backings id change) (fun backing => backing.ipa) (fun backing => backing.generation) :=
  tracks.same (map_modifyNode _ _ _ _ (fun backing _ _ => by rw [(keeps backing).1,(keeps backing).2]))

theorem key_id {entries : List GpuvaNode} (keys : Keys entries) {entry : GpuvaNode} (mem : entry ∈ entries) :
    ∀ other ∈ entries, (other.ipa,other.index) = (entry.ipa,entry.index) → other.id = entry.id := by
  intro other there same
  rw [keys.eq there mem (congrArg Prod.fst same) (congrArg Prod.snd same)]

theorem receive_leaf (tableIpa : U64) (index : Nat) (target : LeafTarget) (generation : U64)
    (response : Response) : view.receive (addressed graph (leafRequest tableIpa index (some (target,generation)))) response =
      { view with
        leaves := Function.update view.leaves (tableIpa,index) (some (target.guestIpa,target.writable)) } := by
  have first : target.guestIpa + BitVec.ofNat 64 (((0 : Fin 4).val) * 0x1000) = target.guestIpa := by simp
  have right : ((if target.writable then (15 : U32) else 0) != 0) = target.writable := by
    cases target.writable <;> decide
  simp only [View.receive,addressed,leafRequest,first,right]
  rfl

theorem tracks_relinked {map : U64 × Nat → Option (U64 × Bool)} {graph : GpuvaGraph} {leaf : GpuvaNode}
    (tracks : Tracks map graph.leaves (fun leaf => (leaf.ipa,leaf.index)) (fun leaf => (leaf.auxIpa,leaf.writable)))
    (tree : TreeLinked graph) (leafIn : leaf ∈ graph.leaves) (backing : GpuvaNode) (target : LeafTarget) :
    Tracks (Function.update map (leaf.ipa,leaf.index) (some (target.guestIpa,target.writable)))
      (relinkLeaf leaf backing target graph).leaves (fun leaf => (leaf.ipa,leaf.index))
      (fun leaf => (leaf.auxIpa,leaf.writable)) :=
  tracks.modify tree.leafIds leafIn (key_id tree.leafKeys leafIn) (fun item => { item with
    auxIpa := target.guestIpa, kind := target.kind, generation := backing.generation, writable := target.writable })
    (fun _ => rfl)

/-- A process that is not there has no lease and no job. -/
def IdleAbsent (graph : GpuvaGraph) : Prop := graph.created = false → graph.leaseToken = 0 ∧ graph.jobInFlight = false

variable {allows : Allows}

private theorem idle_change {before after : Option Nat × GpuvaState} (change : Change allows before after)
    (idle : IdleAbsent before.2.graph) : IdleAbsent after.2.graph := by
  cases change with
  | created => exact nofun
  | leased slot _ present | jobBegun request _ _ present => exact fun absent => absurd (present.symm.trans absent) (by decide)
  | jobEnded _ request => exact fun absent => ⟨(idle absent).1,rfl⟩
  | leaseReleased request => exact fun absent => ⟨rfl,(idle absent).2⟩
  | destroyed _ _ _ _ _ noLease noJob => exact fun _ => ⟨noLease,noJob⟩
  | _ => exact idle

private theorem agrees_change {before after : Option Nat × GpuvaState} (change : Change allows before after)
    (linked : Linked before.2.graph) (idle : IdleAbsent before.2.graph)
    (agrees : Agrees before.2.graph (acknowledged before.2.graph.calls)) :
    Agrees after.2.graph (acknowledged after.2.graph.calls) := by
  have tree := linked.tree
  cases change with
  | refused request answer unanswered =>
    rw [acknowledged_sent,answer_refused _ _ unanswered]
    exact agrees.of_same rfl rfl rfl rfl rfl rfl rfl
  | @created _ graph _ _ ipa flags acknowledges absent nonzero =>
    obtain ⟨noTables,noParents,noLeaves⟩ : graph.tables = [] ∧ _ := tree.gone absent
    have nothing : Tracks (fun _ : U64 => none) [] (fun table => table.ipa) (fun table => table.level) := .empty rfl
    have root := nothing.push ⟨graph.linked,ipa,0,0,0,0,0,false,false,none,.Local,fun _ => none,none⟩ (fun _ bad => absurd bad not_mem_nil)
    refine .received acknowledges rfl ⟨?_,.empty noParents,.empty noLeaves,.empty (linked.backings.gone absent),rfl,(idle absent).1,(idle absent).2⟩
    simp only [linkRoot,sent,noTables]
    exact root
  | tableLinked ipa level acknowledges present nonzero small free =>
    exact .received acknowledges rfl { agrees with
      tables := agrees.tables.push ⟨_,ipa,0,0,0,level,0,false,false,none,.Local,fun _ => none,none⟩ free }
  | @tableRemoved _ _ _ _ table acknowledges present mem =>
    exact .received acknowledges rfl { agrees with
      tables := agrees.tables.remove tree.tableIds mem
        (fun other there same => congrArg GpuvaNode.id (tree.addresses.eq there mem same)) }
  | rootMoved _ acknowledges present mem isRoot => exact .received acknowledges rfl { agrees with rootIpa := rfl }
  | @childLinked _ graph _ _ parent child index acknowledges present _ parentIn childIn level inside free =>
    have nonzero := (tree.real child childIn).1
    refine .received acknowledges rfl { agrees with
      tables := tracks_setSlot agrees.tables _ _ _
      parents := ?_ }
    have pushed := agrees.parents.push
      ⟨graph.linked,parent.ipa,child.ipa,0,index,0,0,false,false,none,.Local,fun _ => none,some child.id⟩
      (fun edge there same => free edge there ⟨congrArg Prod.fst same,congrArg Prod.snd same⟩)
    simpa only [View.receive,addressed,parentRequest,linkChild,sent,nonzero,if_false] using pushed
  | @childRelinked _ graph _ _ parent child edge acknowledges present _ parentIn childIn level edgeIn under =>
    have nonzero := (tree.real child childIn).1
    refine .received acknowledges rfl { agrees with parents := ?_ }
    have modified := agrees.parents.modify tree.parentIds edgeIn (key_id tree.parentKeys edgeIn)
      (fun item => { item with auxIpa := child.ipa, childTable := some child.id }) (fun _ => rfl)
    simpa only [View.receive,addressed,parentRequest,relinkChild,sent,nonzero,if_false,← under] using modified
  | @childUnlinked _ graph _ _ parent edge acknowledges present _ parentIn edgeIn under =>
    refine .received acknowledges rfl { agrees with
      tables := tracks_setSlot agrees.tables _ _ _
      parents := ?_ }
    have removed := agrees.parents.remove tree.parentIds edgeIn (key_id tree.parentKeys edgeIn)
    simpa only [View.receive,addressed,parentRequest,unlinkChild,sent,if_true,← under] using removed
  | @granted graph _ _ backing request acknowledges present isGrant free =>
    subst isGrant
    have pushed := agrees.backings.push { backing with id := graph.linked } free
    unfold grantRequest at *
    split_ifs
    all_goals exact .received acknowledges rfl { agrees with backings := pushed }
  | @leafLinked _ graph _ _ table backing index target acknowledges present _ tableIn level inside backingIn _ _ nonzero free =>
    have pushed := agrees.leaves.push ⟨graph.linked,table.ipa,target.guestIpa,backing.generation,index,0,0,target.writable,
      false,none,target.kind,fun _ => none,none⟩
      (fun leaf there same => free leaf there ⟨congrArg Prod.fst same,congrArg Prod.snd same⟩)
    refine .received acknowledges rfl ?_
    rw [receive_leaf]
    exact { agrees with
      tables := tracks_setSlot agrees.tables _ _ _
      backings := tracks_backings agrees.backings (fun _ => ⟨rfl,rfl⟩)
      leaves := pushed }
  | @leafRewritten graph _ _ leaf backing target acknowledges present _ leafIn _ _ _ nonzero =>
    refine .received acknowledges rfl ?_
    rw [receive_leaf]
    exact { agrees with leaves := tracks_relinked agrees.leaves tree leafIn backing target }
  | @leafMoved _ graph _ _ leaf backing old target acknowledges present _ leafIn _ _ _ _ nonzero =>
    refine .received acknowledges rfl ?_
    rw [receive_leaf]
    exact { agrees with
      backings := tracks_backings (tracks_backings agrees.backings (fun _ => ⟨rfl,rfl⟩)) (fun _ => ⟨rfl,rfl⟩)
      leaves := tracks_relinked agrees.leaves tree leafIn backing target }
  | @leafUnlinked graph _ _ table leaf old acknowledges present _ tableIn level leafIn under =>
    have removed := agrees.leaves.remove tree.leafIds leafIn (key_id tree.leafKeys leafIn)
    refine .received acknowledges rfl { agrees with
      tables := tracks_setSlot agrees.tables _ _ _
      backings := tracks_backings agrees.backings (fun _ => ⟨rfl,rfl⟩)
      leaves := ?_ }
    simpa only [View.receive,addressed,leafRequest,unlinkLeaf,dropReference,sent,if_true,← under] using removed
  | @revoked _ graph _ _ backing acknowledges present mem =>
    exact .received acknowledges rfl { agrees with
      backings := agrees.backings.remove linked.backings.ids mem
        (fun other there same => congrArg GpuvaNode.id (linked.backings.chains.eq_of_key there mem same)) }
  | retained =>
    exact { agrees with backings := tracks_backings agrees.backings (fun _ => ⟨rfl,rfl⟩) }
  | leased slot acknowledges => exact .received acknowledges rfl { agrees with leaseToken := rfl }
  | jobBegun request isBegin acknowledges =>
    refine .received acknowledges rfl ?_
    simp only [View.receive,addressed,isBegin]
    exact { agrees with jobInFlight := rfl }
  | jobEnded _ request isEnd acknowledges =>
    refine .received acknowledges rfl ?_
    simp only [View.receive,addressed,isEnd]
    exact { agrees with jobInFlight := rfl }
  | leaseReleased request isRelease acknowledges =>
    refine .received acknowledges rfl ?_
    simp only [View.receive,addressed,isRelease]
    exact { agrees with leaseToken := rfl }
  | flushed request isFlush acknowledges =>
    refine .received acknowledges rfl ?_
    simp only [View.receive,addressed,isFlush]
    exact agrees.of_same rfl rfl rfl rfl rfl rfl rfl
  | @destroyed graph _ _ acknowledges _ noLeaves noBackings noParents noLease noJob =>
    exact .received acknowledges rfl ⟨.empty rfl,.empty noParents,.empty noLeaves,.empty noBackings,rfl,noLease,noJob⟩
  | _ => exact agrees

private theorem acknowledges_harmless (acknowledges : Acknowledges response) : ¬ Poisons (some response) := by
  intro poisons
  rcases poisons response rfl with flags | status | status
  · exact flags acknowledges.2
  all_goals
    rw [acknowledges.1] at status
    exact absurd status (by decide)

private theorem change_calls {before after : Option Nat × GpuvaState} (change : Change allows before after) :
    after.2.graph.calls = before.2.graph.calls ∨
      ∃ call, ¬ Poisons call.2 ∧ after.2.graph.calls = before.2.graph.calls ++ [call] := by
  cases change with
  | refused request answer _ harmless => exact .inr ⟨(addressed _ request,answer),harmless,rfl⟩
  | retained | settled | frameLinked | frameMapped => exact .inl rfl
  | _ => exact .inr ⟨(_,some _),acknowledges_harmless (by assumption),rfl⟩

/-- Only the last request can have made the graph uncertain. -/
structure PoisonedLast (graph : GpuvaGraph) : Prop where
  certain : graph.uncertain = false → ∀ call ∈ graph.calls, ¬ Poisons call.2
  last : ∀ earlier call later, graph.calls = earlier ++ call :: later → Poisons call.2 → later = []

theorem poisoned_append {calls : List (Request × Option Response)} {call : Request × Option Response}
    (harmless : ∀ call ∈ calls, ¬ Poisons call.2) :
    ∀ earlier other later, calls ++ [call] = earlier ++ other :: later → Poisons other.2 → later = [] := by
  intro earlier other later same poisons
  rcases eq_nil_or_concat later with none | ⟨rest,last,isLast⟩
  · exact none
  subst isLast
  rw [concat_eq_append,← cons_append,← append_assoc] at same
  have inside : other ∈ calls := by
    rw [append_inj_left' same rfl]
    simp
  exact absurd poisons (harmless other inside)

private theorem poisonedLast_move {before after : Option Nat × GpuvaState} (move : Move allows before after)
    (poisoned : PoisonedLast before.2.graph) : PoisonedLast after.2.graph := by
  cases move with
  | quiet quiet =>
    obtain ⟨_,_,_,_,_,_,_,_,rfl,_⟩ := quiet
    exact { poisoned with }
  | unmapped => exact poisoned
  | poisoned certain => exact ⟨nofun,poisoned_append (poisoned.certain certain)⟩
  | lost => exact ⟨nofun,poisoned.last⟩
  | change certain change =>
  have harmless := poisoned.certain certain
  rcases change_calls change with same | ⟨call,fine,appended⟩
  · exact ⟨fun _ => same ▸ harmless,same ▸ poisoned.last⟩
  refine ⟨fun _ other mem => ?_,appended ▸ poisoned_append harmless⟩
  rw [appended,mem_append,mem_singleton] at mem
  rcases mem with old | rfl
  · exact harmless other old
  exact fine

/-- What the graph holds when it is not uncertain. -/
structure Broker (graph : GpuvaGraph) : Prop where
  idle : IdleAbsent graph
  poisoned : PoisonedLast graph
  agrees : graph.uncertain = false → Agrees graph (acknowledged graph.calls)

theorem broker_move (allows : Allows) (before after : Option Nat × GpuvaState) (move : Move allows before after)
    (linked : Linked before.2.graph) (broker : Broker before.2.graph) : Broker after.2.graph := by
  have poisoned := poisonedLast_move move broker.poisoned
  cases move with
  | quiet quiet =>
    obtain ⟨_,_,_,_,_,_,_,_,rfl,_⟩ := quiet
    exact ⟨broker.idle,poisoned,fun certain => (broker.agrees certain).of_same rfl rfl rfl rfl rfl rfl rfl⟩
  | unmapped => exact broker
  | change certain change =>
    exact ⟨idle_change change broker.idle,poisoned, fun _ => agrees_change change linked broker.idle (broker.agrees certain)⟩
  | _ => exact ⟨broker.idle,poisoned,nofun⟩

theorem graphInit_broker (owner : Owner) : Broker (graphInit owner) :=
  ⟨fun _ => ⟨rfl,rfl⟩,⟨fun _ _ bad => absurd bad not_mem_nil,fun earlier _ _ same => by simp [graphInit] at same⟩,
    fun _ => ⟨.empty rfl,.empty rfl,.empty rfl,.empty rfl,rfl,rfl,rfl⟩⟩

/-- No address and no place is listed twice. -/
def ListedOnce (graph : GpuvaGraph) : Prop :=
  Addresses graph.tables ∧ Keys graph.parents ∧ Keys graph.leaves ∧ Addresses graph.backings

/-- A graph that is created and not uncertain holds exactly what the broker acknowledged. An uncertain graph stays uncertain
    and sends nothing more, and a request whose answer makes a graph uncertain is the last one that it sends. -/
theorem run_broker {n : Nat} (env : Fin n → GpuvaEnv) (owners : Fin n → Owner) (script later : List (Fin n × Call))
    (who : Fin n) : (((run env (worldInit owners) script).graphs who).uncertain = false →
      ((run env (worldInit owners) script).graphs who).created = true →
      Agrees ((run env (worldInit owners) script).graphs who)
        (acknowledged ((run env (worldInit owners) script).graphs who).calls) ∧
      ListedOnce ((run env (worldInit owners) script).graphs who)) ∧
    (((run env (worldInit owners) script).graphs who).uncertain = true →
      ((run env (worldInit owners) (script ++ later)).graphs who).uncertain = true ∧
      ((run env (worldInit owners) (script ++ later)).graphs who).calls =
        ((run env (worldInit owners) script).graphs who).calls) ∧
    PoisonedLast ((run env (worldInit owners) script).graphs who) := by
  have linked := run_linked env (worldInit_linked owners) script
  have broker := run_graph env broker_move (worldInit_linked owners) (fun who => graphInit_broker (owners who)) script who
  refine ⟨fun certain _ => ?_,fun uncertain => ?_,broker.poisoned⟩
  · have tree := (linked.graphs who).tree
    exact ⟨broker.agrees certain,tree.addresses,tree.parentKeys,tree.leafKeys,(linked.graphs who).backings.chains.keys⟩
  · rw [run_append]
    exact run_uncertain env linked uncertain later

theorem run_broker_onePage : ((willingRun mapOnePage).graphs 0).leaves.length = 1 ∧
      Agrees ((willingRun mapOnePage).graphs 0)
        (acknowledged ((willingRun mapOnePage).graphs 0).calls) :=
  ⟨by decide +kernel,((run_broker (fun _ => willing) oneOwner mapOnePage [] 0).1 (by decide +kernel) (by decide +kernel)).1⟩

end WindowsOnM1.GpuvaBroker
