import WindowsOnM1.GpuvaOperations

/-!
The frames that graphs share. The index of the registry holds exactly its frames, and a
frame is there as long as something counts in it.
-/
namespace WindowsOnM1.GpuvaFrames
open HashChains GpuvaModel GpuvaMoves GpuvaSteps GpuvaBackings

variable {env : GpuvaEnv} {allows : Allows}

def Used (frame : GpuvaFrame) : Prop := frame.mappings ≠ 0 ∨ frame.grants ≠ 0

/-- The index holds exactly the listed frames. -/
structure FramesLinked (registry : GpuvaRegistry) : Prop where
  chains : Chained (fun frame : GpuvaFrame => frame.id) (fun frame => frame.ipa) bucket registry.frames registry.frameBuckets
  old : ∀ frame ∈ registry.frames, frame.id < registry.linked
structure RegistryLinked (registry : GpuvaRegistry) : Prop extends FramesLinked registry where
  used : ∀ frame ∈ registry.frames, Used frame
theorem succ_ne_zero {x : U64} (room : x ≠ maxU64) : x + 1 ≠ 0 := by
  intro wrapped
  refine room ?_
  bv_omega
theorem mem_modifyFrame {registry : GpuvaRegistry} {id : Nat} {change : GpuvaFrame → GpuvaFrame} {frame : GpuvaFrame} :
    frame ∈ (modifyFrame registry id change).frames ↔
      ∃ old ∈ registry.frames, (if old.id = id then change old else old) = frame := by
  simp [modifyFrame]

namespace FramesLinked

variable {registry : GpuvaRegistry} (linked : FramesLinked registry)
include linked

variable {graph : GpuvaGraph} {ipa : U64} {frame : GpuvaFrame}

theorem findFrame_iff (registered : graph.registered = true) :
    findFrame graph registry ipa = some frame ↔ frame ∈ registry.frames ∧ frame.ipa = ipa := by
  unfold findFrame
  rw [if_neg (not_not.mpr registered)]
  exact linked.chains.search_iff

theorem findFrame_none (registered : graph.registered = true)
    (missing : findFrame graph registry ipa = none) : ∀ frame ∈ registry.frames, frame.ipa ≠ ipa := by
  unfold findFrame at missing
  rw [if_neg (not_not.mpr registered)] at missing
  exact linked.chains.search_none missing

variable {id : Nat}

theorem modify {change : GpuvaFrame → GpuvaFrame}
    (keeps : ∀ frame, (change frame).id = frame.id ∧ (change frame).ipa = frame.ipa) :
    FramesLinked (modifyFrame registry id change) := by
  have place : ∀ frame : GpuvaFrame, (if frame.id = id then change frame else frame).id = frame.id ∧
      (if frame.id = id then change frame else frame).ipa = frame.ipa := by
    intro frame
    split_ifs
    · exact keeps frame
    exact ⟨rfl,rfl⟩
  refine ⟨linked.chains.map place,fun frame mem => ?_⟩
  obtain ⟨old,there,rfl⟩ := mem_modifyFrame.mp mem
  rw [(place old).1]
  exact linked.old old there

theorem link (isNew : frame.id = registry.linked)
    (free : ∀ other ∈ registry.frames, other.ipa ≠ frame.ipa) : FramesLinked (linkFrame frame registry) := by
  refine ⟨linked.chains.push frame (fun other mem => ?_) free,fun other mem => ?_⟩
  · rw [isNew]
    exact Nat.ne_of_lt (linked.old other mem)
  rcases List.mem_cons.mp mem with rfl | old
  · exact isNew ▸ Nat.lt_succ_self _
  exact (linked.old other old).trans (Nat.lt_succ_self _)

theorem release (id : Nat) : FramesLinked (releaseFrame id registry) := by
  unfold releaseFrame
  split
  · exact linked
  rename_i frame found
  split_ifs
  · exact linked
  obtain ⟨mem,rfl⟩ := itemAt_some found
  exact ⟨linked.chains.remove mem,fun other there => linked.old other (List.mem_filter.mp there).1⟩

private theorem release_used (others : ∀ frame ∈ registry.frames, frame.id ≠ id → Used frame) :
    ∀ frame ∈ (releaseFrame id registry).frames, Used frame := by
  intro frame mem
  unfold releaseFrame at mem
  split at mem
  · rename_i missing
    exact others frame mem (itemAt_none missing frame mem)
  rename_i isFrame found
  obtain ⟨there,rfl⟩ := itemAt_some found
  split_ifs at mem with counts
  · by_cases same : frame.id = isFrame.id
    · rw [linked.chains.eq_of_serial mem there same]
      exact counts
    exact others frame mem same
  obtain ⟨mem,apart⟩ := List.mem_filter.mp mem
  exact others frame mem (bne_iff_ne.mp apart)

end FramesLinked

namespace RegistryLinked

variable {registry : GpuvaRegistry} (linked : RegistryLinked registry)
include linked

variable {id : Nat} {change : GpuvaFrame → GpuvaFrame}

section
variable (keeps : ∀ frame, (change frame).id = frame.id ∧ (change frame).ipa = frame.ipa)
include keeps

theorem count (counts : ∀ frame ∈ registry.frames, frame.id = id → Used (change frame)) :
    RegistryLinked (modifyFrame registry id change) := by
  refine ⟨linked.toFramesLinked.modify keeps,fun frame mem => ?_⟩
  obtain ⟨old,there,rfl⟩ := mem_modifyFrame.mp mem
  split_ifs with here
  · exact counts old there here
  exact linked.used old there

theorem discount : RegistryLinked (releaseFrame id (modifyFrame registry id change)) := by
  have changed : FramesLinked (modifyFrame registry id change) := linked.toFramesLinked.modify keeps
  refine ⟨changed.release id,changed.release_used (fun frame mem apart => ?_)⟩
  obtain ⟨old,there,rfl⟩ := mem_modifyFrame.mp mem
  split_ifs at apart ⊢ with here
  · exact absurd ((keeps old).1.trans here) apart
  exact linked.used old there

end

end RegistryLinked

variable {registry : GpuvaRegistry} {frame : GpuvaFrame}

private theorem linkFrame_linked (linked : RegistryLinked registry)
    (isNew : frame.id = registry.linked) (free : ∀ other ∈ registry.frames, other.ipa ≠ frame.ipa)
    (unmapped : frame.mappings = 0) : RegistryLinked (modifyFrame (linkFrame frame registry) frame.id
      (fun frame => { frame with mappings := frame.mappings + 1 })) := by
  refine ⟨(linked.toFramesLinked.link isNew free).modify (fun _ => ⟨rfl,rfl⟩),fun other mem => ?_⟩
  obtain ⟨old,there,rfl⟩ := mem_modifyFrame.mp mem
  rcases List.mem_cons.mp there with rfl | there
  · rw [if_pos rfl]
    refine .inl (succ_ne_zero ?_)
    rw [unmapped]
    decide
  rw [if_neg (fun same => Nat.ne_of_lt (linked.old old there) (same.trans isNew))]
  exact linked.used old there

private theorem releaseGrant_linked {graph : GpuvaGraph} (linked : RegistryLinked registry)
    (backing : GpuvaNode) : RegistryLinked (releaseGrant backing ⟨graph,registry⟩).registry := by
  cases isFrame : backing.frame with
  | none =>
    simp only [releaseGrant,isFrame]
    exact linked
  | some frame =>
  simp only [releaseGrant,isFrame]
  exact linked.discount (fun _ => ⟨rfl,rfl⟩)

private theorem registry_change {before after : Option Nat × GpuvaState} (change : Change allows before after)
    (linked : RegistryLinked before.2.registry) : RegistryLinked after.2.registry := by
  cases change with
  | @granted _ registry _ backing _ _ _ _ _ _ _ _ framed =>
    cases isFrame : backing.frame with
    | none =>
      simp only [linkBacking,isFrame]
      exact linked
    | some id =>
    simp only [linkBacking,isFrame]
    refine linked.count (fun _ => ⟨rfl,rfl⟩) (fun frame mem here => .inr (succ_ne_zero ?_))
    obtain ⟨frame',there,here',_,_,room⟩ := framed id isFrame
    rw [linked.chains.eq_of_serial mem there (here.trans here'.symm)]
    exact room
  | @revoked _ graph _ _ backing => exact releaseGrant_linked linked backing
  | frameLinked _ frame isNew _ _ free unmapped => exact linkFrame_linked linked isNew free unmapped
  | @frameMapped _ _ _ frame _ mem room =>
    refine linked.count (fun _ => ⟨rfl,rfl⟩) (fun other there here => .inl (succ_ne_zero ?_))
    rw [linked.chains.eq_of_serial there mem here]
    exact room
  | _ => exact linked

private theorem registry_move {before after : Option Nat × GpuvaState} (move : Move allows before after)
    (linked : RegistryLinked before.2.registry) : RegistryLinked after.2.registry := by
  cases move with
  | unmapped => exact linked.discount (fun _ => ⟨rfl,rfl⟩)
  | change _ change => exact registry_change change linked
  | _ => exact linked

theorem registry_moves {before after : Option Nat × GpuvaState} (moves : Moves allows before after)
    (linked : RegistryLinked before.2.registry) : RegistryLinked after.2.registry := by
  induction moves with
  | refl => exact linked
  | tail _ move ih => exact registry_move move ih

variable {state : GpuvaState}

private theorem addMapping_moves (maps : allows.maps) (certain : state.graph.uncertain = false)
    (mem : frame ∈ state.registry.frames) : Moves allows (none,state) (none,(addMapping frame state).2) := by
  unfold addMapping
  split_ifs with full
  · exact .refl
  exact .single (.change certain (.frameMapped maps mem full))

theorem mappingAcquire_moves (maps : allows.maps) (ipa : U64) (linked : RegistryLinked state.registry) :
    Moves allows (none,state) (none,(mappingAcquire env ipa state).2) := by
  unfold mappingAcquire
  by_cases absent : ¬ state.graph.registered ∨ ipa = 0 ∨ ipa &&& 0xfff ≠ 0 ∨ maxU64 - 0xfff < ipa ∨ state.graph.uncertain
  · rw [if_pos absent]
  rw [if_neg absent]
  simp only [not_or,Bool.not_eq_true,Bool.not_eq_false] at absent
  obtain ⟨registered,_,_,_,certain⟩ := absent
  dsimp only
  split
  · rename_i frame found
    exact addMapping_moves maps certain (((linked.findFrame_iff registered).mp found).1)
  rename_i missing
  have free := linked.findFrame_none registered missing
  split_ifs with exhausted
  · exact .refl
  have memory := allocate_quiet env state.graph
  cases isMemory : allocate env state.graph with | mk enough asked =>
  rw [isMemory] at memory
  have asking : Moves allows (none,state) (none,{ state with graph := asked }) := moves_quiet memory
  cases enough with
  | false => exact asking
  | true =>
  refine asking.trans ?_
  obtain ⟨_,_,_,_,_,_,_,uncertain⟩ := quiet_fields memory
  exact .single (.change (uncertain.trans certain) (.frameLinked maps ⟨state.registry.linked,ipa &&& ~~~pageMask,
    state.registry.nextGeneration + 1,0,0⟩ rfl rfl exhausted free rfl rfl))

theorem mappingRelease_moves (maps : allows.maps) (ipa : U64) (state : GpuvaState) :
    Moves allows (none,state) (none,mappingRelease ipa state) := by
  unfold mappingRelease
  split
  · exact .single .lost
  rename_i frame found
  split_ifs with unmapped
  · exact .single .lost
  exact .single (.unmapped maps (findFrame_some found).1 unmapped)

end WindowsOnM1.GpuvaFrames
