import WindowsOnM1.GpuvaBroker
import WindowsOnM1.GpuvaWalk

/-!
What a running job reads. From the begin of a job to its end no edge and no leaf changes,
so that translations change only with the root.
-/
namespace WindowsOnM1.GpuvaFrozen
open GpuvaModel GpuvaMoves GpuvaLinked GpuvaSteps GpuvaWorld Function
open GpuvaWalk GpuvaBroker

variable {allows : Allows}

structure SameTree (graph graph' : GpuvaGraph) : Prop where
  parents : graph'.parents = graph.parents
  leaves : graph'.leaves = graph.leaves
  rootIpa : graph'.rootIpa = graph.rootIpa
  created : graph'.created = graph.created

theorem SameTree.refl (graph : GpuvaGraph) : SameTree graph graph := ⟨rfl,rfl,rfl,rfl⟩
theorem SameTree.trans {a b c : GpuvaGraph} (first : SameTree a b) (second : SameTree b c) : SameTree a c :=
  ⟨second.parents.trans first.parents,second.leaves.trans first.leaves,second.rootIpa.trans first.rootIpa,
    second.created.trans first.created⟩
theorem listTranslate_same {graph left : GpuvaGraph} (same : SameTree graph left) (va : U64) :
    listTranslate left va = listTranslate graph va := by
  simp only [listTranslate,listLeaf,listMiddle,same.parents,same.leaves,same.rootIpa]

private theorem frozen_change {before after : Option Nat × GpuvaState} (change : Change allows before after)
    (keepsRoot : ¬ allows.rebinds) (keepsJob : ¬ allows.ends) (idle : IdleAbsent before.2.graph)
    (busy : before.2.graph.jobInFlight = true) : SameTree before.2.graph after.2.graph ∧ after.2.graph.jobInFlight = true := by
  have same : SameTree before.2.graph before.2.graph := .refl _
  have bad : before.2.graph.jobInFlight = false → False := fun other => absurd (busy.symm.trans other) (by decide)
  cases change with
  | created ipa flags _ absent => exact (bad (idle absent).2).elim
  | rootMoved rebinds => exact absurd rebinds keepsRoot
  | jobEnded ends => exact absurd ends keepsJob
  | childLinked _ _ other | childRelinked _ _ other | childUnlinked _ _ other
  | leafLinked _ _ other | leafRewritten _ _ other
  | leafMoved _ _ other | leafUnlinked _ _ other | destroyed _ _ _ _ _ _ other => exact (bad other).elim
  | jobBegun => exact ⟨{ same with },rfl⟩
  | _ => exact ⟨{ same with },busy⟩

private theorem frozen_move {before after : Option Nat × GpuvaState} (move : Move allows before after)
    (keepsRoot : ¬ allows.rebinds) (keepsJob : ¬ allows.ends) (idle : IdleAbsent before.2.graph)
    (busy : before.2.graph.jobInFlight = true) : SameTree before.2.graph after.2.graph ∧ after.2.graph.jobInFlight = true := by
  have same : SameTree before.2.graph before.2.graph := .refl _
  cases move with
  | quiet quiet =>
    obtain ⟨_,_,_,_,_,_,_,_,rfl,_⟩ := quiet
    exact ⟨{ same with },busy⟩
  | unmapped => exact ⟨same,busy⟩
  | change _ change => exact frozen_change change keepsRoot keepsJob idle busy
  | _ => exact ⟨{ same with },busy⟩

private theorem frozen_moves {before after : Option Nat × GpuvaState} (moves : Moves allows before after)
    (keepsRoot : ¬ allows.rebinds) (keepsJob : ¬ allows.ends) (linked : Linked before.2.graph) (broker : Broker before.2.graph)
    (busy : before.2.graph.jobInFlight = true) :
    SameTree before.2.graph after.2.graph ∧ after.2.graph.jobInFlight = true ∧ Broker after.2.graph := by
  induction moves with
  | refl => exact ⟨.refl _,busy,broker⟩
  | tail earlier move ih =>
  obtain ⟨same,busy,broker⟩ := ih
  obtain ⟨same',busy'⟩ := frozen_move move keepsRoot keepsJob broker.idle busy
  exact ⟨same.trans same',busy',broker_move _ _ _ move (moves_linked earlier linked) broker⟩

variable {n : Nat} {env : Fin n → GpuvaEnv} {who : Fin n}

/-- No call moves the root of a graph to another one. -/
def KeepsRoot (env : Fin n → GpuvaEnv) (who : Fin n) : World n → List (Fin n × Call) → Prop
  | _, [] => True
  | world, entry :: rest =>
    (entry.1 = who → ¬ entry.2.Rebinds (world.graphs who)) ∧ KeepsRoot env who (step env world entry) rest

private theorem frozen_run {world : World n} (linked : WorldLinked world) (broker : Broker (world.graphs who))
    (busy : (world.graphs who).jobInFlight = true) {later : List (Fin n × Call)} (unended : ∀ entry ∈ later, entry ≠ (who,.endJob))
    (keepsRoot : KeepsRoot env who world later) : SameTree (world.graphs who) ((run env world later).graphs who) := by
  induction later generalizing world with
  | nil => exact .refl _
  | cons entry rest ih =>
  have next : SameTree (world.graphs who) ((step env world entry).graphs who) ∧
      ((step env world entry).graphs who).jobInFlight = true ∧ Broker ((step env world entry).graphs who) := by
    by_cases here : entry.1 = who
    · subst here
      have unend : ¬ (entry.2.allows (world.graphs entry.1)).ends :=
        fun ends => unended entry List.mem_cons_self (Prod.ext rfl ends)
      have moves := frozen_moves (step_moves env linked entry) (keepsRoot.1 rfl) unend (linked.graphs entry.1) broker busy
      simp only [step,World.set,update_self]
      exact moves
    simp only [step,World.set,update_of_ne (Ne.symm here)]
    exact ⟨.refl _,busy,broker⟩
  obtain ⟨same,busy',broker'⟩ := next
  exact same.trans (ih (step_linked env linked entry) broker' busy'
    (fun other mem => unended other (List.mem_cons_of_mem _ mem)) keepsRoot.2)

theorem beginJob_spec {env : GpuvaEnv} {slot : Nat} {graph left : GpuvaGraph} (begun : beginJob env slot graph = (true,left)) :
    SameTree graph left ∧ left.jobInFlight = true ∧ graph.uncertain = false := by
  unfold beginJob at begun
  by_cases refused : ¬ graph.created ∨ graph.uncertain ∨ graph.leaseToken ≠ 0 ∨ graph.jobInFlight ∨ slot = 0 ∨ 63 ≤ slot
  · rw [if_pos refused] at begun
    cases begun
  rw [if_neg refused] at begun
  rcases callWithResponse_cases env { command := .Lease, slot := slot } graph with
    ⟨lost,isLost,_⟩ | ⟨response,certain,_,answered⟩
  · rw [isLost] at begun
    cases begun
  rw [answered] at begun
  dsimp only at begun
  by_cases none : response.token = 0
  · rw [if_pos none] at begun
    cases begun
  rw [if_neg none] at begun
  rcases call_cases env { command := .JobBegin, slot := slot, token := response.token }
      { sent graph { command := .Lease, slot := slot } (some response) with
        lastStatus := response.status, leaseToken := response.token, slot := slot } with
    ⟨lost,isLost,_⟩ | ⟨response',_,_,answered'⟩
  · rw [isLost] at begun
    cases begun
  rw [answered'] at begun
  cases begun
  exact ⟨⟨rfl,rfl,rfl,rfl⟩,rfl,certain⟩

/-- From the begin of a job to its end every address keeps its translation, as long as the
    graph is not uncertain and no call moves its root. -/
theorem run_frozen (env : Fin n → GpuvaEnv) (owners : Fin n → Owner) (script later : List (Fin n × Call)) (who : Fin n)
    (slot : Nat) (begun : (beginJob (env who) slot ((run env (worldInit owners) script).graphs who)).1 = true)
    (unended : ∀ entry ∈ later, entry ≠ (who,.endJob))
    (keepsRoot : KeepsRoot env who (run env (worldInit owners) (script ++ [(who,.beginJob slot)])) later)
    (certain : ((run env (worldInit owners) (script ++ (who,.beginJob slot) :: later)).graphs who).uncertain = false) (va : U64) :
    translateVa ((run env (worldInit owners) (script ++ (who,.beginJob slot) :: later)).graphs who) va =
      translateVa ((run env (worldInit owners) script).graphs who) va := by
  have runs : script ++ (who,.beginJob slot) :: later = (script ++ [(who,.beginJob slot)]) ++ later := by simp
  have isBegun : (run env (worldInit owners) (script ++ [(who,.beginJob slot)])).graphs who =
      (beginJob (env who) slot ((run env (worldInit owners) script).graphs who)).2 := by
    rw [run_append]
    simp only [run,List.foldl_cons,List.foldl_nil,step,World.set,apply,World.at,onGraph,update_self]
  cases job : beginJob (env who) slot ((run env (worldInit owners) script).graphs who) with | mk done left =>
  rw [job] at begun isBegun
  simp only at begun isBegun
  subst begun
  obtain ⟨same,busy,certain'⟩ := beginJob_spec job
  have linked := run_linked env (worldInit_linked owners) script
  have linked' := run_linked env (worldInit_linked owners) (script ++ [(who,.beginJob slot)])
  have last := run_linked env (worldInit_linked owners) (script ++ (who,.beginJob slot) :: later)
  have broker := run_graph env broker_move (worldInit_linked owners) (fun who => graphInit_broker (owners who))
    (script ++ [(who,.beginJob slot)]) who
  have frozen := frozen_run linked' broker (isBegun ▸ busy) unended keepsRoot
  rw [← run_append,← runs,isBegun] at frozen
  exact translate_of_walks (linked.graphs who) (last.graphs who) certain' certain (listTranslate_same (same.trans frozen)) va

/-- A job with a flush and the registration of another root. -/
theorem run_frozen_flush :
    translateVa ((willingRun (mapOnePage ++ (0,.beginJob 1) :: [(0,.registerTable 0x14000 0),(0,.flush 0 0x4000)])).graphs 0) 0x200c005 =
      translateVa ((willingRun mapOnePage).graphs 0) 0x200c005 :=
  run_frozen (fun _ => willing) oneOwner mapOnePage [(0,.registerTable 0x14000 0),(0,.flush 0 0x4000)] 0 1
    (by decide +kernel) (by simp) ⟨fun _ => id,fun _ => id,trivial⟩ (by decide +kernel) 0x200c005

/-- The root moves under a running job. -/
theorem root_moves_in_job :
    (beginJob willing 1 ((willingRun (mapOnePage ++ [(0,.registerTable 0x14000 0)])).graphs 0)).1 = true ∧
    ((willingRun (mapOnePage ++ [(0,.registerTable 0x14000 0),(0,.beginJob 1),(0,.bindRoot 0x14000)])).graphs 0).uncertain = false ∧
    translateVa ((willingRun (mapOnePage ++ [(0,.registerTable 0x14000 0),(0,.beginJob 1),(0,.bindRoot 0x14000)])).graphs 0) 0x200c005 ≠
      translateVa ((willingRun (mapOnePage ++ [(0,.registerTable 0x14000 0)])).graphs 0) 0x200c005 := by
  refine ⟨by decide +kernel,by decide +kernel,by decide +kernel⟩

end WindowsOnM1.GpuvaFrozen
