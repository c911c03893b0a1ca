import WindowsOnM1.GpuvaGrants

/-!
The mappings of the frames. What the calls of MappingAcquire and MappingRelease added and
took away is what the frames count, and no other call maps, unmaps or links a frame.
-/
namespace WindowsOnM1.GpuvaMappings
open GpuvaModel GpuvaMoves List
open GpuvaBackings GpuvaFrames GpuvaWorld GpuvaGrants

variable {allows : Allows}

/-- Every frame counts the mappings of its page, and a page that is mapped has a frame. -/
structure MappingsCounted (total : U64 → Int) (registry : GpuvaRegistry) : Prop where
  mappings : ∀ frame ∈ registry.frames, total frame.ipa = frame.mappings.toNat
  listed : ∀ page, total page ≠ 0 → ∃ frame ∈ registry.frames, frame.ipa = page

/-- Registries between which no frame was linked and no mapping changed. -/
structure MappingsKept (registry registry' : GpuvaRegistry) : Prop where
  linked : registry'.linked = registry.linked
  counted : ∀ total, MappingsCounted total registry → MappingsCounted total registry'
theorem MappingsKept.refl (registry : GpuvaRegistry) : MappingsKept registry registry := ⟨rfl,fun _ => id⟩
theorem MappingsKept.trans {a b c : GpuvaRegistry} (first : MappingsKept a b) (second : MappingsKept b c) : MappingsKept a c :=
  ⟨second.linked.trans first.linked,fun total counted => second.counted total (first.counted total counted)⟩

variable {total : U64 → Int} {registry : GpuvaRegistry} {change : GpuvaFrame → GpuvaFrame}

theorem MappingsCounted.modify {total' : U64 → Int} (counted : MappingsCounted total registry)
    (id : Nat) (keeps : ∀ frame, (change frame).ipa = frame.ipa)
    (here : ∀ frame ∈ registry.frames, frame.id = id → total' frame.ipa = (change frame).mappings.toNat)
    (there : ∀ frame ∈ registry.frames, frame.id ≠ id → total' frame.ipa = total frame.ipa)
    (elsewhere : ∀ page, (∀ frame ∈ registry.frames, frame.ipa ≠ page) → total' page = total page) :
    MappingsCounted total' (modifyFrame registry id change) where
  mappings := by
    intro frame mem
    obtain ⟨old,inside,rfl⟩ := mem_modifyFrame.mp mem
    split_ifs with isId
    · rw [keeps]
      exact here old inside isId
    rw [there old inside isId]
    exact counted.mappings old inside
  listed := by
    intro page some
    have old : ∃ frame ∈ registry.frames, frame.ipa = page := by
      by_contra none
      have absent : ∀ frame ∈ registry.frames, frame.ipa ≠ page := fun frame mem same => none ⟨frame,mem,same⟩
      exact none (counted.listed page (elsewhere page absent ▸ some))
    obtain ⟨frame,mem,rfl⟩ := old
    refine ⟨_,mem_modifyFrame.mpr ⟨frame,mem,rfl⟩,?_⟩
    split_ifs
    · exact keeps frame
    rfl

theorem MappingsCounted.release (counted : MappingsCounted total registry)
    (linked : FramesLinked registry) (id : Nat) : MappingsCounted total (releaseFrame id registry) where
  mappings := fun frame mem => counted.mappings frame (releaseFrame_mem.1 mem)
  listed := by
    intro page some
    obtain ⟨frame,mem,rfl⟩ := counted.listed page some
    refine ⟨frame,releaseFrame_mem.2 linked mem (.inl (fun zero => some ?_)),rfl⟩
    rw [counted.mappings frame mem,zero]
    rfl

theorem mappings_grants (id : Nat)
    (keeps : ∀ frame, (change frame).ipa = frame.ipa ∧ (change frame).mappings = frame.mappings) :
    MappingsKept registry (modifyFrame registry id change) := by
  refine ⟨rfl,fun total counted => counted.modify id (fun frame => (keeps frame).1) (fun frame mem _ => ?_)
    (fun _ _ _ => rfl) (fun _ _ => rfl)⟩
  rw [(keeps frame).2]
  exact counted.mappings frame mem

private theorem mappings_release (linked : FramesLinked registry) (id : Nat) :
    MappingsKept registry (releaseFrame id registry) :=
  ⟨(releaseFrame_counts id registry).1,fun _ counted => counted.release linked id⟩

private theorem mappings_change (idle : ¬ allows.maps) {before after : Option Nat × GpuvaState} (change : Change allows before after)
    (registry : RegistryLinked before.2.registry) : MappingsKept before.2.registry after.2.registry := by
  cases change with
  | @granted _ registry' _ backing =>
    cases isFrame : backing.frame with
    | none =>
      simp only [linkBacking,isFrame]
      exact .refl _
    | some id =>
    simp only [linkBacking,isFrame]
    exact mappings_grants id (fun _ => ⟨rfl,rfl⟩)
  | @revoked _ _ registry' _ backing =>
    cases isFrame : backing.frame with
    | none =>
      simp only [releaseGrant,isFrame]
      exact .refl _
    | some id =>
    simp only [releaseGrant,isFrame]
    have changed : FramesLinked (modifyFrame registry' id (fun frame => { frame with grants := frame.grants - 1 })) :=
      registry.toFramesLinked.modify (fun _ => ⟨rfl,rfl⟩)
    have grants : MappingsKept registry' (modifyFrame registry' id (fun frame => { frame with grants := frame.grants - 1 })) :=
      mappings_grants id (fun _ => ⟨rfl,rfl⟩)
    exact grants.trans (mappings_release changed id)
  | frameLinked maps | frameMapped maps => exact absurd maps idle
  | _ => exact .refl _

private theorem mappings_moves (idle : ¬ allows.maps) {before after : Option Nat × GpuvaState} (moves : Moves allows before after)
    (registry : RegistryLinked before.2.registry) : MappingsKept before.2.registry after.2.registry := by
  induction moves with
  | refl => exact .refl _
  | tail earlier move ih =>
  refine ih.trans ?_
  cases move with
  | unmapped maps => exact absurd maps idle
  | change _ change => exact mappings_change idle change (registry_moves earlier registry)
  | _ => exact .refl _

/-- A frame that stays on its page keeps its generation. -/
def SameLives (registry registry' : GpuvaRegistry) : Prop :=
  ∀ frame ∈ registry.frames, ∀ frame' ∈ registry'.frames, frame'.ipa = frame.ipa → frame'.generation = frame.generation

private theorem later_sameLives {registry' : GpuvaRegistry} (later : Later registry registry') (linked : RegistryLinked registry)
    (linked' : FramesLinked registry') (count : registry'.linked = registry.linked) : SameLives registry registry' := by
  intro frame mem frame' mem' same
  obtain ⟨old,there,_,ipa,generation⟩ := later.old frame' mem' (count ▸ linked'.old frame' mem')
  rw [← generation,linked.chains.eq_of_key there mem (ipa.trans same)]

def oneAt (page : U64) (change : Int) (other : U64) : Int := if page = other then change else 0
private theorem oneAt_self (page : U64) (change : Int) : oneAt page change page = change := if_pos rfl
theorem oneAt_ne {page other : U64} (change : Int) (apart : other ≠ page) : oneAt page change other = 0 :=
  if_neg (Ne.symm apart)

theorem MappingsCounted.count (counted : MappingsCounted total registry)
    (linked : FramesLinked registry) {frame : GpuvaFrame} (mem : frame ∈ registry.frames) (change : U64 → U64) (more : Int)
    (counts : ((change frame.mappings).toNat : Int) = frame.mappings.toNat + more) :
    MappingsCounted (fun page => total page + oneAt frame.ipa more page)
      (modifyFrame registry frame.id (fun frame => { frame with mappings := change frame.mappings })) := by
  refine counted.modify frame.id (fun _ => rfl) (fun other there same => ?_) (fun other there apart => ?_) (fun page absent => ?_)
  · rw [linked.chains.eq_of_serial there mem same,oneAt_self,counted.mappings frame mem,counts]
  · rw [oneAt_ne _ (fun same => apart (congrArg GpuvaFrame.id (linked.chains.eq_of_key there mem same))),add_zero]
  rw [oneAt_ne _ (Ne.symm (absent frame mem)),add_zero]

theorem addMapping_counts {total : U64 → Int} {frame : GpuvaFrame} {state left : GpuvaState} {done : Bool}
    (counted : MappingsCounted total state.registry) (linked : FramesLinked state.registry)
    (mem : frame ∈ state.registry.frames) (add : addMapping frame state = (done,left)) :
    MappingsCounted (fun page => total page + oneAt frame.ipa (if done then 1 else 0) page) left.registry ∧
      SameLives state.registry left.registry := by
  unfold addMapping at add
  split_ifs at add with full
  · cases add
    refine ⟨?_,fun one there other there' same => by rw [linked.chains.eq_of_key there there' same.symm]⟩
    have totals : (fun page => total page + oneAt frame.ipa (if false = true then 1 else 0) page) = total :=
      funext (fun page => by simp [oneAt])
    rw [totals]
    exact counted
  cases add
  refine ⟨counted.count linked mem (fun mappings => mappings + 1) 1 ?_,fun one there other there' same => ?_⟩
  · rw [toNat_succ full]
    rfl
  obtain ⟨old,inside,rfl⟩ := mem_modifyFrame.mp there'
  split_ifs at same ⊢ <;> rw [linked.chains.eq_of_key there inside same.symm]

private theorem mappingAcquire_counts {env : GpuvaEnv} {ipa : U64} {state left : GpuvaState} {done : Bool}
    (counted : MappingsCounted total state.registry) (linked : FramesLinked state.registry)
    (acquire : mappingAcquire env ipa state = (done,left)) :
    MappingsCounted (fun page => total page + oneAt (ipa &&& ~~~pageMask) (if done then 1 else 0) page) left.registry ∧
      SameLives state.registry left.registry := by
  have same : MappingsCounted (fun page => total page + oneAt (ipa &&& ~~~pageMask) (if false = true then 1 else 0) page)
      state.registry ∧ SameLives state.registry state.registry := by
    refine ⟨?_,fun one there other there' same => by rw [linked.chains.eq_of_key there there' same.symm]⟩
    have totals : (fun page => total page + oneAt (ipa &&& ~~~pageMask) (if false = true then 1 else 0) page) = total :=
      funext (fun page => by simp [oneAt])
    rw [totals]
    exact counted
  unfold mappingAcquire at acquire
  by_cases absent : ¬ state.graph.registered ∨ ipa = 0 ∨ ipa &&& 0xfff ≠ 0 ∨ maxU64 - 0xfff < ipa ∨ state.graph.uncertain
  · rw [if_pos absent] at acquire
    cases acquire
    exact same
  rw [if_neg absent] at acquire
  simp only [not_or,Bool.not_eq_true,Bool.not_eq_false] at absent
  obtain ⟨registered,_⟩ := absent
  dsimp only at acquire
  split at acquire
  · rename_i frame found
    obtain ⟨mem,here⟩ := (linked.findFrame_iff registered).mp found
    rw [← here]
    exact addMapping_counts counted linked mem acquire
  rename_i missing
  have free := linked.findFrame_none registered missing
  split_ifs at acquire
  · cases acquire
    exact same
  split at acquire
  · cases acquire
    exact same
  rename_i asked _
  let frame : GpuvaFrame := ⟨state.registry.linked,ipa &&& ~~~pageMask,state.registry.nextGeneration + 1,0,0⟩
  have links : FramesLinked (linkFrame frame state.registry) := linked.link rfl free
  have unmapped : total frame.ipa = 0 := by
    by_contra some
    obtain ⟨other,there,same⟩ := counted.listed _ some
    exact free other there same
  have more : MappingsCounted total (linkFrame frame state.registry) := by
    refine ⟨fun other there => ?_,fun page some => ?_⟩
    · rcases mem_cons.mp there with rfl | old
      · exact unmapped
      exact counted.mappings other old
    obtain ⟨other,there,same⟩ := counted.listed page some
    exact ⟨other,mem_cons_of_mem _ there,same⟩
  obtain ⟨now,lives⟩ := @addMapping_counts total frame ⟨asked,linkFrame frame state.registry⟩ left done more links
    mem_cons_self acquire
  exact ⟨now,fun one there other there' same => lives one (mem_cons_of_mem _ there) other there' same⟩

/-- The release of a page that has a mapping. -/
def Releases (ipa : U64) (state : GpuvaState) : Bool :=
  (findFrame state.graph state.registry (ipa &&& ~~~pageMask)).any (fun frame => frame.mappings != 0)

private theorem mappingRelease_counts (ipa : U64) {state : GpuvaState} (counted : MappingsCounted total state.registry)
    (linked : FramesLinked state.registry) :
    MappingsCounted (fun page => total page + oneAt (ipa &&& ~~~pageMask) (if Releases ipa state then -1 else 0) page)
      (mappingRelease ipa state).registry ∧ SameLives state.registry (mappingRelease ipa state).registry := by
  have same : Releases ipa state = false →
      MappingsCounted (fun page => total page + oneAt (ipa &&& ~~~pageMask) (if Releases ipa state then -1 else 0) page)
      state.registry ∧ SameLives state.registry state.registry := by
    intro refused
    refine ⟨?_,fun one there other there' same => by rw [linked.chains.eq_of_key there there' same.symm]⟩
    have totals : (fun page => total page + oneAt (ipa &&& ~~~pageMask) (if Releases ipa state then -1 else 0) page) = total :=
      funext (fun page => by simp [oneAt,refused])
    rw [totals]
    exact counted
  unfold mappingRelease
  cases found : findFrame state.graph state.registry (ipa &&& ~~~pageMask) with
  | none => exact same (by rw [Releases,found]; rfl)
  | some frame =>
  obtain ⟨mem,here⟩ := findFrame_some found
  have isRelease : Releases ipa state = (frame.mappings != 0) := by
    rw [Releases,found]
    rfl
  dsimp only
  by_cases unmapped : frame.mappings = 0
  · rw [if_pos unmapped]
    exact same (by rw [isRelease,unmapped]; rfl)
  have releases : Releases ipa state = true := by
    rw [isRelease]
    exact bne_iff_ne.mpr unmapped
  have changed : FramesLinked (modifyFrame state.registry frame.id (fun frame => { frame with mappings := frame.mappings - 1 })) :=
    linked.modify (fun _ => ⟨rfl,rfl⟩)
  rw [if_neg unmapped,releases,if_pos rfl,← here]
  refine ⟨(counted.count linked mem (fun mappings => mappings - 1) (-1) ?_).release changed frame.id,
    fun one there other there' same => ?_⟩
  · have pred : (frame.mappings - 1).toNat + 1 = frame.mappings.toNat := toNat_pred (fun zero => unmapped (BitVec.eq_of_toNat_eq zero))
    omega
  obtain ⟨old,inside,rfl⟩ := mem_modifyFrame.mp (releaseFrame_mem.1 there')
  split_ifs at same ⊢ <;> rw [linked.chains.eq_of_key there inside same.symm]

variable {n : Nat}

/-- The mappings of a page that a call adds. -/
def callMapped (env : GpuvaEnv) (call : Call) (state : GpuvaState) : U64 → Int :=
  match call with
  | .mappingAcquire ipa => oneAt (ipa &&& ~~~pageMask) (if (mappingAcquire env ipa state).1 then 1 else 0)
  | .mappingRelease ipa => oneAt (ipa &&& ~~~pageMask) (if Releases ipa state then -1 else 0)
  | _ => fun _ => 0

/-- The mappings of a page that the calls of a run added. -/
def mapped (env : Fin n → GpuvaEnv) : World n → List (Fin n × Call) → U64 → Int
  | _, [], _ => 0
  | world, entry :: rest, page =>
    callMapped (env entry.1) entry.2 (world.at entry.1) page + mapped env (step env world entry) rest page

variable {world : World n}

variable (env : Fin n → GpuvaEnv)

theorem step_mapped (linked : WorldLinked world) (frames : WorldFrames world)
    (entry : Fin n × Call) (counted : MappingsCounted total world.registry) :
    MappingsCounted (fun page => total page + callMapped (env entry.1) entry.2 (world.at entry.1) page)
        (step env world entry).registry ∧ SameLives world.registry (step env world entry).registry := by
  obtain ⟨who,call⟩ := entry
  have links := linked.registry.toFramesLinked
  have counted' : MappingsCounted total (world.at who).registry := counted
  have links' : FramesLinked (world.at who).registry := links
  have other : ¬ call.Maps → MappingsCounted (fun page => total page + 0) (step env world (who,call)).registry ∧
      SameLives world.registry (step env world (who,call)).registry := by
    intro idle
    obtain ⟨_,later⟩ := step_frames env linked frames (who,call)
    have kept : MappingsKept world.registry (step env world (who,call)).registry :=
      mappings_moves idle (step_moves env linked (who,call)) linked.registry
    refine ⟨?_,later_sameLives later linked.registry (step_linked env linked (who,call)).registry.toFramesLinked kept.linked⟩
    simp only [add_zero]
    exact kept.counted total counted
  cases call with
  | mappingAcquire ipa =>
    cases acquire : mappingAcquire (env who) ipa (world.at who) with | mk done left =>
    have counts := mappingAcquire_counts counted' links' acquire
    simp only [step,World.set,apply,callMapped,acquire]
    exact counts
  | mappingRelease ipa => exact mappingRelease_counts ipa counted' links'
  | _ => exact other id

private theorem run_mapped (linked : WorldLinked world) (frames : WorldFrames world)
    (counted : MappingsCounted total world.registry) (script : List (Fin n × Call)) :
    MappingsCounted (fun page => total page + mapped env world script page) (run env world script).registry := by
  induction script generalizing world total with
  | nil =>
    simp only [mapped,add_zero]
    exact counted
  | cons entry rest ih =>
  have next := ih (step_linked env linked entry) (step_frames env linked frames entry).1
    (step_mapped env linked frames entry counted).1
  simp only [mapped,← add_assoc]
  exact next

theorem runs_mapped (owners : Fin n → Owner) (script : List (Fin n × Call)) :
    MappingsCounted (mapped env (worldInit owners) script) (run env (worldInit owners) script).registry := by
  have empty : MappingsCounted (fun _ => 0) (worldInit owners).registry :=
    ⟨fun _ bad => absurd bad not_mem_nil,fun _ some => absurd rfl some⟩
  have counted := run_mapped env (worldInit_linked owners) (worldInit_frames owners) empty script
  simp only [zero_add] at counted
  exact counted

end WindowsOnM1.GpuvaMappings
