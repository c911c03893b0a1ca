import WindowsOnM1.GpuvaFrames

/-!
Any number of graphs that share one registry, with calls in any order. The allocator and
the broker of every graph answer what its environment says.
-/
namespace WindowsOnM1.GpuvaWorld
open GpuvaModel GpuvaMoves GpuvaLinked List Function
open GpuvaSteps GpuvaBackings GpuvaOperations GpuvaFrames

/-- The public operations on a graph. -/
inductive Call
  | create (rootIpa : U64) (paging : Bool)
  | registerTable (ipa : U64) (level : Nat)
  | bindRoot (ipa : U64)
  | updateParent (tableIpa : U64) (index : Nat) (childIpa : U64)
  | tryLeafBacking (tableIpa : U64) (index : Nat) (target : LeafTarget)
  | attachPrivate (va middle leaf : U64)
  | detachPrivateRoot (va root leaf : U64)
  | beginJob (slot : Nat)
  | endJob
  | flush (startVa endVa : U64)
  | leaf (tableIpa : U64) (index : Nat)
  | reserveNode
  | destroy
  | mappingAcquire (ipa : U64)
  | mappingRelease (ipa : U64)

def apply (env : GpuvaEnv) (call : Call) (state : GpuvaState) : GpuvaState :=
  match call with
  | .create rootIpa paging => (onGraph (create env rootIpa paging) state).2
  | .registerTable ipa level => (registerTable env ipa level state).2
  | .bindRoot ipa => (onGraph (bindRoot env ipa) state).2
  | .updateParent tableIpa index childIpa => (onGraph (updateParent env tableIpa index childIpa) state).2
  | .tryLeafBacking tableIpa index target => (tryLeafBacking env tableIpa index target state).2
  | .attachPrivate va middle leaf => (onGraph (attachPrivate env va middle leaf) state).2
  | .detachPrivateRoot va root leaf => (onGraph (detachPrivateRoot env va root leaf) state).2
  | .beginJob slot => (onGraph (beginJob env slot) state).2
  | .endJob => (onGraph (endJob env) state).2
  | .flush startVa endVa => (onGraph (flush env startVa endVa) state).2
  | .leaf tableIpa index => { state with graph := (leaf tableIpa index state.graph).2 }
  | .reserveNode => (onGraph (reserveNode env) state).2
  | .destroy => (destroy env state).2
  | .mappingAcquire ipa => (mappingAcquire env ipa state).2
  | .mappingRelease ipa => mappingRelease ipa state

/-- A store with which a full count of references would wrap. -/
def Call.Wraps (call : Call) (graph : GpuvaGraph) : Prop :=
  match call with
  | .tryLeafBacking tableIpa index target => GpuvaBackings.Wraps tableIpa index target graph
  | _ => False
instance (graph : GpuvaGraph) : (call : Call) → Decidable (call.Wraps graph)
  | .tryLeafBacking tableIpa index target => inferInstanceAs (Decidable (GpuvaBackings.Wraps tableIpa index target graph))
  | .create _ _ | .registerTable _ _ | .bindRoot _ | .updateParent _ _ _ | .attachPrivate _ _ _ | .detachPrivateRoot _ _ _
  | .beginJob _ | .endJob | .flush _ _ | .leaf _ _ | .reserveNode | .destroy | .mappingAcquire _ | .mappingRelease _ => .isFalse id

/-- A call that maps or unmaps a frame. -/
def Call.Maps (call : Call) : Prop :=
  match call with
  | .mappingAcquire _ => True
  | .mappingRelease _ => True
  | _ => False

/-- A call that moves the root to another one. -/
def Call.Rebinds (call : Call) (graph : GpuvaGraph) : Prop :=
  match call with
  | .bindRoot ipa => GpuvaOperations.Rebinds ipa graph
  | _ => False

def Call.allows (call : Call) (graph : GpuvaGraph) : Allows :=
  { wraps := call.Wraps graph, maps := call.Maps, rebinds := call.Rebinds graph, ends := call = .endJob }

private theorem apply_moves {env : GpuvaEnv} (call : Call) {state : GpuvaState} (linked : Linked state.graph)
    (registry : RegistryLinked state.registry) :
    Moves (call.allows state.graph) (none,state) (none,apply env call state) := by
  cases call with
  | create rootIpa paging => exact create_steps rootIpa paging state.graph _ none state.registry
  | registerTable ipa level => exact registerTable_moves ipa level linked
  | bindRoot ipa => exact bindRoot_moves ipa state.graph none state.registry id
  | updateParent tableIpa index childIpa => exact updateParent_steps env tableIpa index childIpa _ _ none state.registry
  | tryLeafBacking tableIpa index target => exact (tryLeafBacking_spec tableIpa index target linked id).moves
  | attachPrivate va middle leaf => exact attachPrivate_steps va middle leaf _ _ none state.registry
  | detachPrivateRoot va root leaf => exact detachPrivateRoot_steps va root leaf _ _ none state.registry
  | beginJob slot => exact beginJob_steps slot state.graph _ none state.registry
  | endJob => exact endJob_moves state.graph none state.registry rfl
  | flush startVa endVa => exact flush_steps startVa endVa state.graph _ none state.registry
  | leaf tableIpa index => exact moves_quiet (leaf_quiet tableIpa index state.graph)
  | reserveNode => exact moves_quiet (reserveNode_quiet env state.graph)
  | destroy => exact destroy_moves linked
  | mappingAcquire ipa => exact mappingAcquire_moves trivial ipa registry
  | mappingRelease ipa => exact mappingRelease_moves trivial ipa state

structure World (n : Nat) where
  graphs : Fin n → GpuvaGraph
  registry : GpuvaRegistry

variable {n : Nat}

/-- A graph with the shared registry. -/
def World.at (world : World n) (who : Fin n) : GpuvaState := ⟨world.graphs who,world.registry⟩

/-- What a world is when one of its graphs and the registry changed. -/
def World.set (world : World n) (who : Fin n) (state : GpuvaState) : World n :=
  { graphs := Function.update world.graphs who state.graph, registry := state.registry }
def step (env : Fin n → GpuvaEnv) (world : World n) (entry : Fin n × Call) : World n :=
  world.set entry.1 (apply (env entry.1) entry.2 (world.at entry.1))
def run (env : Fin n → GpuvaEnv) (world : World n) (script : List (Fin n × Call)) : World n :=
  script.foldl (step env) world

/-- What `AppleAgxGpuvaG3GraphInit` is given and what the owner of the graph sets then. -/
structure Owner where
  processId : U64
  processGeneration : U64
  sharedBackingGeneration : U64
  registered : Bool

/-- `AppleAgxGpuvaG3GraphInit`. -/
def graphInit (owner : Owner) : GpuvaGraph :=
  { processId := owner.processId, processGeneration := owner.processGeneration
    sharedBackingGeneration := owner.sharedBackingGeneration, registered := owner.registered
    rootIpa := 0, nextGeneration := 0, mappingGeneration := 0, leaseToken := 0, tables := [], parents := [], leaves := []
    backings := [], rootTable := none, lastStatus := 0, created := false, uncertain := false, jobInFlight := false
    slot := 0, tableHint := none, attachFailure := 0, retainedLocal := 0, spareNode := false
    backingBuckets := fun _ => [], linked := 0, allocations := 0, calls := [] }

def registryInit : GpuvaRegistry := { frames := [], nextGeneration := 0, frameBuckets := fun _ => [], linked := 0 }
def worldInit (owners : Fin n → Owner) : World n := { graphs := fun who => graphInit (owners who), registry := registryInit }

/-- The graphs and the registry of a world are linked. -/
structure WorldLinked (world : World n) : Prop where
  graphs : ∀ who, Linked (world.graphs who)
  registry : RegistryLinked world.registry
private theorem graphInit_linked (owner : Owner) : Linked (graphInit owner) := by
  refine ⟨.destroyed rfl rfl rfl rfl rfl rfl,⟨nodup_nil,nodup_nil,?_,fun _ => nodup_nil⟩,?_,fun _ => rfl⟩
  · simp [graphInit]
  exact fun _ bad => absurd bad not_mem_nil
private theorem registryInit_linked : RegistryLinked registryInit := by
  refine ⟨⟨⟨nodup_nil,nodup_nil,by simp [registryInit],fun _ => nodup_nil⟩,?_⟩,?_⟩
  all_goals exact fun _ bad => absurd bad not_mem_nil
theorem worldInit_linked (owners : Fin n → Owner) : WorldLinked (worldInit owners) :=
  ⟨fun who => graphInit_linked (owners who),registryInit_linked⟩

variable {world : World n}

variable (env : Fin n → GpuvaEnv)

theorem step_moves (linked : WorldLinked world) (entry : Fin n × Call) :
    Moves (entry.2.allows (world.graphs entry.1)) (none,world.at entry.1)
      (none,apply (env entry.1) entry.2 (world.at entry.1)) := by
  have graph : Linked (world.at entry.1).graph := linked.graphs entry.1
  exact apply_moves entry.2 graph linked.registry

variable {P : GpuvaGraph → Prop}

theorem step_graph {env : Fin n → GpuvaEnv} {entry : Fin n × Call}
    (holds : ∀ who, P (world.graphs who)) (kept : P (apply (env entry.1) entry.2 (world.at entry.1)).graph) (who : Fin n) :
    P ((step env world entry).graphs who) := by
  simp only [step,World.set]
  by_cases same : who = entry.1
  · subst same
    rw [update_self]
    exact kept
  rw [update_of_ne same]
  exact holds who

theorem step_linked (linked : WorldLinked world) (entry : Fin n × Call) : WorldLinked (step env world entry) := by
  have moves := step_moves env linked entry
  refine ⟨step_graph linked.graphs (moves_linked moves (linked.graphs entry.1)),?_⟩
  exact registry_moves moves linked.registry
theorem run_linked (linked : WorldLinked world) (script : List (Fin n × Call)) : WorldLinked (run env world script) := by
  induction script generalizing world with
  | nil => exact linked
  | cons entry rest ih => exact ih (step_linked env linked entry)

theorem run_graph
    (kept : ∀ allows before after, Move allows before after → Linked before.2.graph → P before.2.graph → P after.2.graph)
    (linked : WorldLinked world) (holds : ∀ who, P (world.graphs who))
    (script : List (Fin n × Call)) : ∀ who, P ((run env world script).graphs who) := by
  have keeps : ∀ {allows before after}, Moves allows before after → Linked before.2.graph → P before.2.graph →
      P after.2.graph := by
    intro allows before after moves isLinked isP
    induction moves with
    | refl => exact isP
    | tail earlier move ih => exact kept _ _ _ move (moves_linked earlier isLinked) ih
  induction script generalizing world with
  | nil => exact holds
  | cons entry rest ih =>
  exact ih (step_linked env linked entry)
    (step_graph holds (keeps (step_moves env linked entry) (linked.graphs entry.1) (holds entry.1)))

theorem run_append (world : World n) (script later : List (Fin n × Call)) :
    run env world (script ++ later) = run env (run env world script) later := foldl_append

theorem run_uncertain (linked : WorldLinked world) {who : Fin n}
    (uncertain : (world.graphs who).uncertain = true) (script : List (Fin n × Call)) :
    ((run env world script).graphs who).uncertain = true ∧
      ((run env world script).graphs who).calls = (world.graphs who).calls := by
  induction script generalizing world with
  | nil => exact ⟨uncertain,rfl⟩
  | cons entry rest ih =>
  have next : ((step env world entry).graphs who).uncertain = true ∧
      ((step env world entry).graphs who).calls = (world.graphs who).calls := by
    simp only [step,World.set]
    by_cases same : who = entry.1
    · subst same
      rw [update_self]
      exact moves_uncertain (step_moves env linked entry) uncertain
    rw [update_of_ne same]
    exact ⟨uncertain,rfl⟩
  obtain ⟨still,calls⟩ := ih (step_linked env linked entry) next.1
  exact ⟨still,calls.trans next.2⟩

/-- An allocator that never fails and a broker that acknowledges everything. -/
def willing : GpuvaEnv := { allocate := fun _ => true, clientCall := fun _ => some ⟨0,0,7⟩ }

/-- A process with a root at 0x4000, a middle table at 0x8000, a leaf table at 0xc000 and a page of its own at 0x10000. -/
def mapOnePage : List (Fin 1 × Call) :=
  [(0,.create 0x4000 false),(0,.registerTable 0x8000 1),(0,.registerTable 0xc000 2),(0,.updateParent 0x4000 0 0x8000),
    (0,.updateParent 0x8000 1 0xc000),(0,.tryLeafBacking 0xc000 3 ⟨0x10000,true,.Local⟩)]

/-- The same process with a system page instead, which is cleared, unmapped, mapped again and stored again. -/
def remapPage : List (Fin 1 × Call) :=
  mapOnePage.take 5 ++ [(0,.mappingAcquire 0x20000),(0,.tryLeafBacking 0xc000 3 ⟨0x20000,true,.System⟩),
    (0,.tryLeafBacking 0xc000 3 ⟨0,false,.Local⟩),(0,.mappingRelease 0x20000),(0,.mappingAcquire 0x20000),
    (0,.tryLeafBacking 0xc000 3 ⟨0x20000,true,.System⟩)]

def oneOwner : Fin 1 → Owner := fun _ => ⟨1,1,0,true⟩

/-- A run of the process that allocator and broker answer so. -/
abbrev willingRun : List (Fin 1 × Call) → World 1 := run (fun _ => willing) (worldInit oneOwner)

example : translateVa ((willingRun mapOnePage).graphs 0) 0x200c005 = some 0x10005 := by
  decide +kernel

end WindowsOnM1.GpuvaWorld
