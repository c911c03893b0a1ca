import Mathlib.Algebra.BigOperators.Group.Finset.Basic
import WindowsOnM1.SerialCounts
import WindowsOnM1.GpuvaWorld

/-!
The frames and the backings that were granted on them. A frame counts the backings of all
graphs that hold it, a backing carries the page and the generation of its frame, and a
frame that is linked gets a generation that was never given out.
-/
namespace WindowsOnM1.GpuvaGrants
open SerialCounts HashChains GpuvaModel GpuvaLists GpuvaMoves List BitVec Function
open GpuvaLinked GpuvaSteps GpuvaFrames GpuvaWorld

variable {allows : Allows}

def grantsOf (backings : List GpuvaNode) (id : Nat) : Nat := backings.countP (fun backing => backing.frame == some id)

/-- Every frame counts its grants, and what is granted is there. -/
structure GrantsCounted (total : Nat → Nat) (registry : GpuvaRegistry) : Prop where
  grants : ∀ frame ∈ registry.frames, frame.grants.toNat = total frame.id
  listed : ∀ id, total id ≠ 0 → ∃ frame ∈ registry.frames, frame.id = id

/-- Every backing carries the page and the generation of its frame. -/
def Framed (backings : List GpuvaNode) (registry : GpuvaRegistry) : Prop :=
  ∀ backing ∈ backings, ∀ id, backing.frame = some id →
    ∃ frame ∈ registry.frames, frame.id = id ∧ frame.ipa = backing.ipa ∧ frame.generation = backing.generation

/-- The system backings are those with a frame. -/
def SystemFramed (backings : List GpuvaNode) : Prop :=
  ∀ backing ∈ backings, backing.kind = .System ↔ backing.frame.isSome = true

/-- No generation is above the last one that was given out. -/
def Given (registry : GpuvaRegistry) : Prop := ∀ frame ∈ registry.frames, frame.generation ≤ registry.nextGeneration

/-- A later registry: a frame that is older keeps its page and its generation, and the
    generation of a newer one is above all that were given out. -/
structure Later (registry registry' : GpuvaRegistry) : Prop where
  linked : registry.linked ≤ registry'.linked
  given : registry.nextGeneration ≤ registry'.nextGeneration
  old : ∀ frame' ∈ registry'.frames, frame'.id < registry.linked →
    ∃ frame ∈ registry.frames, frame.id = frame'.id ∧ frame.ipa = frame'.ipa ∧ frame.generation = frame'.generation
  new : ∀ frame' ∈ registry'.frames, registry.linked ≤ frame'.id →
    registry.nextGeneration < frame'.generation ∧ frame'.generation ≤ registry'.nextGeneration

variable {registry : GpuvaRegistry}

theorem Later.refl (linked : FramesLinked registry) : Later registry registry where
  linked := le_refl _
  given := BitVec.le_refl _
  old := fun frame mem _ => ⟨frame,mem,rfl,rfl,rfl⟩
  new := fun frame mem above => absurd above (Nat.not_le_of_lt (linked.old frame mem))

theorem Later.trans {a b c : GpuvaRegistry} (first : Later a b) (second : Later b c) : Later a c where
  linked := first.linked.trans second.linked
  given := BitVec.le_trans first.given second.given
  old := by
    intro frame mem below
    obtain ⟨middle,there,id,ipa,generation⟩ := second.old frame mem (below.trans_le first.linked)
    obtain ⟨old,inside,id',ipa',generation'⟩ := first.old middle there (id ▸ below)
    exact ⟨old,inside,id'.trans id,ipa'.trans ipa,generation'.trans generation⟩
  new := by
    intro frame mem above
    rcases Nat.lt_or_ge frame.id b.linked with below | above'
    · obtain ⟨middle,there,id,_,generation⟩ := second.old frame mem below
      obtain ⟨more,atMost⟩ := first.new middle there (id ▸ above)
      exact generation ▸ ⟨more,BitVec.le_trans atMost second.given⟩
    obtain ⟨more,atMost⟩ := second.new frame mem above'
    exact ⟨lt_def.mpr (Nat.lt_of_le_of_lt (le_def.mp first.given) (lt_def.mp more)),atMost⟩

theorem Later.of_old {registry' : GpuvaRegistry} (linked : FramesLinked registry)
    (count : registry'.linked = registry.linked) (given : registry'.nextGeneration = registry.nextGeneration)
    (old : ∀ frame' ∈ registry'.frames,
      ∃ frame ∈ registry.frames, frame.id = frame'.id ∧ frame.ipa = frame'.ipa ∧ frame.generation = frame'.generation) :
    Later registry registry' where
  linked := Nat.le_of_eq count.symm
  given := given ▸ BitVec.le_refl _
  old := fun frame mem _ => old frame mem
  new := by
    intro frame mem above
    obtain ⟨frame',there,id,_⟩ := old frame mem
    exact absurd (id ▸ linked.old frame' there) (Nat.not_lt_of_le above)

/-- A change of a frame that keeps what it is. -/
def KeepsFrame (change : GpuvaFrame → GpuvaFrame) : Prop :=
  ∀ frame, (change frame).id = frame.id ∧ (change frame).ipa = frame.ipa ∧ (change frame).generation = frame.generation

variable {change : GpuvaFrame → GpuvaFrame}

theorem later_modify (linked : FramesLinked registry) (id : Nat)
    (keeps : KeepsFrame change) : Later registry (modifyFrame registry id change) := by
  refine .of_old linked rfl rfl (fun frame mem => ?_)
  obtain ⟨old,there,rfl⟩ := mem_modifyFrame.mp mem
  refine ⟨old,there,?_⟩
  obtain ⟨isId,ipa,generation⟩ := keeps old
  split_ifs
  · exact ⟨isId.symm,ipa.symm,generation.symm⟩
  exact ⟨rfl,rfl,rfl⟩

theorem releaseFrame_counts (id : Nat) (registry : GpuvaRegistry) : (releaseFrame id registry).linked = registry.linked ∧
    (releaseFrame id registry).nextGeneration = registry.nextGeneration := by
  unfold releaseFrame
  split
  · exact ⟨rfl,rfl⟩
  split_ifs <;> exact ⟨rfl,rfl⟩

variable {id : Nat} {frame : GpuvaFrame}

theorem releaseFrame_mem : (frame ∈ (releaseFrame id registry).frames → frame ∈ registry.frames) ∧
    (FramesLinked registry → frame ∈ registry.frames → Used frame → frame ∈ (releaseFrame id registry).frames) := by
  unfold releaseFrame
  split
  · exact ⟨fun mem => mem,fun _ mem _ => mem⟩
  rename_i found isFound
  obtain ⟨there,rfl⟩ := itemAt_some isFound
  split_ifs with counts
  · exact ⟨fun mem => mem,fun _ mem _ => mem⟩
  refine ⟨fun mem => (mem_filter.mp mem).1,fun linked mem used => ?_⟩
  refine mem_filter.mpr ⟨mem,bne_iff_ne.mpr (fun same => counts ?_)⟩
  rw [← linked.chains.eq_of_serial mem there same]
  exact used

theorem later_release (id : Nat) (linked : FramesLinked registry) : Later registry (releaseFrame id registry) :=
  .of_old linked (releaseFrame_counts id registry).1 (releaseFrame_counts id registry).2
    (fun frame mem => ⟨frame,releaseFrame_mem.1 mem,rfl,rfl,rfl⟩)

variable {total : Nat → Nat}

section
variable (counted : GrantsCounted total registry)
include counted

theorem GrantsCounted.release
    (linked : FramesLinked registry) (id : Nat) : GrantsCounted total (releaseFrame id registry) where
  grants := fun frame mem => counted.grants frame (releaseFrame_mem.1 mem)
  listed := by
    intro other some
    obtain ⟨frame,mem,rfl⟩ := counted.listed other some
    refine ⟨frame,releaseFrame_mem.2 linked mem (.inr (fun zero => some ?_)),rfl⟩
    rw [← counted.grants frame mem,zero]
    rfl

theorem GrantsCounted.modify {total' : Nat → Nat} (id : Nat) (keeps : KeepsFrame change)
    (here : ∀ frame ∈ registry.frames, frame.id = id → (change frame).grants.toNat = total' id)
    (there : ∀ other, other ≠ id → total' other = total other)
    (listed : total' id ≠ 0 → ∃ frame ∈ registry.frames, frame.id = id) :
    GrantsCounted total' (modifyFrame registry id change) where
  grants := by
    intro frame mem
    obtain ⟨old,inside,rfl⟩ := mem_modifyFrame.mp mem
    split_ifs with isId
    · rw [(keeps old).1,isId]
      exact here old inside isId
    rw [there old.id isId]
    exact counted.grants old inside
  listed := by
    intro other some
    have old : ∃ frame ∈ registry.frames, frame.id = other := by
      by_cases isId : other = id
      · subst isId
        exact listed some
      exact counted.listed other (there other isId ▸ some)
    obtain ⟨frame,mem,rfl⟩ := old
    refine ⟨_,mem_modifyFrame.mpr ⟨frame,mem,rfl⟩,?_⟩
    split_ifs
    · exact (keeps frame).1
    rfl

theorem GrantsCounted.mapping (id : Nat) (keeps : KeepsFrame change)
    (grants : ∀ frame, (change frame).grants = frame.grants) : GrantsCounted total (modifyFrame registry id change) := by
  refine counted.modify id keeps (fun frame mem isId => ?_) (fun _ _ => rfl) (counted.listed id)
  rw [grants,counted.grants frame mem,isId]

end

/-- What is counted for a graph among others. -/
abbrev withOthers (backings : List GpuvaNode) (others : Nat → Nat) (id : Nat) : Nat := grantsOf backings id + others id
private theorem grantsOf_push (new : GpuvaNode) (backings : List GpuvaNode) (id : Nat) :
    grantsOf (new :: backings) id = grantsOf backings id + one (new.frame == some id) := countP_push _ new backings

variable {backings : List GpuvaNode} {backing : GpuvaNode}

private theorem grantsOf_without (ids : Ids backings) (mem : backing ∈ backings)
    (id : Nat) : grantsOf (without backings backing.id) id + one (backing.frame == some id) = grantsOf backings id :=
  countP_remove _ ids mem

/-- What a change of the backings keeps of each. -/
def frameOf (backing : GpuvaNode) : Option Nat × U64 × U64 × BackingKind :=
  (backing.frame,backing.ipa,backing.generation,backing.kind)

private theorem grantsOf_map {backings' : List GpuvaNode} (same : backings'.map frameOf = backings.map frameOf) (id : Nat) :
    grantsOf backings' id = grantsOf backings id := by
  have counts : ∀ backings, grantsOf backings id = (backings.map frameOf).countP (fun place => place.1 == some id) := by
    intro backings
    rw [countP_map]
    rfl
  rw [counts,counts,same]

theorem modify_frameOf (backings : List GpuvaNode) (id : Nat) {change : GpuvaNode → GpuvaNode}
    (keeps : ∀ item, frameOf (change item) = frameOf item) :
    (modifyNode backings id change).map frameOf = backings.map frameOf :=
  map_modifyNode _ _ _ _ (fun item _ _ => keeps item)

variable {others : Nat → Nat}

theorem GrantsCounted.same {backings' : List GpuvaNode}
    (counted : GrantsCounted (withOthers backings others) registry) (same : backings'.map frameOf = backings.map frameOf) :
    GrantsCounted (withOthers backings' others) registry := by
  have totals : withOthers backings' others = withOthers backings others :=
    funext (fun id => by rw [withOthers,withOthers,grantsOf_map same])
  rw [totals]
  exact counted

variable {x : U64}

theorem toNat_succ (room : x ≠ maxU64) : (x + 1).toNat = x.toNat + 1 := by
  bv_omega
theorem toNat_pred (used : x.toNat ≠ 0) : (x - 1).toNat + 1 = x.toNat := by bv_omega

variable {graph : GpuvaGraph}

section
variable (counted : GrantsCounted (withOthers graph.backings others) registry) (linked : RegistryLinked registry)
include counted linked

theorem GrantsCounted.grant
    (framed : ∀ id, backing.frame = some id → ∃ frame ∈ registry.frames, frame.id = id ∧ frame.ipa = backing.ipa ∧
      frame.generation = backing.generation ∧ frame.grants ≠ maxU64) :
    GrantsCounted (withOthers (linkBacking backing ⟨graph,registry⟩).graph.backings others)
      (linkBacking backing ⟨graph,registry⟩).registry ∧ Later registry (linkBacking backing ⟨graph,registry⟩).registry := by
  have push : ∀ id, withOthers (linkBacking backing ⟨graph,registry⟩).graph.backings others id =
      withOthers graph.backings others id + one (backing.frame == some id) := by
    intro id
    have more : grantsOf (linkBacking backing ⟨graph,registry⟩).graph.backings id =
        grantsOf graph.backings id + one (backing.frame == some id) := grantsOf_push _ _ id
    simp only [withOthers]
    omega
  cases isFrame : backing.frame with
  | none =>
    have totals : withOthers (linkBacking backing ⟨graph,registry⟩).graph.backings others = withOthers graph.backings others := by
      funext id
      rw [push,isFrame]
      rfl
    simp only [linkBacking,isFrame]
    exact ⟨counted,.refl linked.toFramesLinked⟩
  | some id =>
  obtain ⟨frame,mem,rfl,_,_,room⟩ := framed id isFrame
  simp only [isFrame] at push
  have registry' : (linkBacking backing ⟨graph,registry⟩).registry =
      modifyFrame registry frame.id (fun frame => { frame with grants := frame.grants + 1 }) := by
    simp only [linkBacking,isFrame]
  rw [registry']
  refine ⟨counted.modify frame.id (fun _ => ⟨rfl,rfl,rfl⟩) (fun other there same => ?_) (fun other apart => ?_)
    (fun _ => ⟨frame,mem,rfl⟩),later_modify linked.toFramesLinked _ (fun _ => ⟨rfl,rfl,rfl⟩)⟩
  · rw [linked.chains.eq_of_serial there mem same,toNat_succ room,counted.grants frame mem,push,beq_self_eq_true]
    rfl
  have none : (some frame.id == some other) = false := by simpa using Ne.symm apart
  rw [push,none]
  rfl

theorem GrantsCounted.revoke (chains : BackingsLinked graph) (mem : backing ∈ graph.backings) :
    GrantsCounted (withOthers (releaseGrant backing ⟨graph,registry⟩).graph.backings others)
      (releaseGrant backing ⟨graph,registry⟩).registry ∧ Later registry (releaseGrant backing ⟨graph,registry⟩).registry := by
  have pop : ∀ id, withOthers (releaseGrant backing ⟨graph,registry⟩).graph.backings others id + one (backing.frame == some id) =
      withOthers graph.backings others id := by
    intro id
    have less := grantsOf_without chains.ids mem id
    simp only [withOthers,releaseGrant]
    omega
  cases isFrame : backing.frame with
  | none =>
    have totals : withOthers (releaseGrant backing ⟨graph,registry⟩).graph.backings others = withOthers graph.backings others := by
      funext id
      rw [← pop,isFrame]
      rfl
    rw [totals]
    simp only [releaseGrant,isFrame]
    exact ⟨counted,.refl linked.toFramesLinked⟩
  | some id =>
  simp only [isFrame] at pop
  have registry' : (releaseGrant backing ⟨graph,registry⟩).registry =
      releaseFrame id (modifyFrame registry id (fun frame => { frame with grants := frame.grants - 1 })) := by
    simp only [releaseGrant,isFrame]
  have here := pop id
  rw [beq_self_eq_true,one_true] at here
  have keeps : KeepsFrame (fun frame => { frame with grants := frame.grants - 1 }) := fun _ => ⟨rfl,rfl,rfl⟩
  have changed : FramesLinked (modifyFrame registry id (fun frame => { frame with grants := frame.grants - 1 })) :=
    linked.toFramesLinked.modify (fun _ => ⟨rfl,rfl⟩)
  rw [registry']
  refine ⟨(counted.modify id keeps (fun frame there same => ?_) (fun other apart => ?_)
    (fun _ => counted.listed id (by omega))).release changed id,
    (later_modify linked.toFramesLinked id keeps).trans (later_release id changed)⟩
  · have grants := counted.grants frame there
    rw [same] at grants
    have pred : (frame.grants - 1).toNat + 1 = frame.grants.toNat := toNat_pred (by omega)
    exact Nat.add_right_cancel (pred.trans (grants.trans here.symm))
  have none : (some id == some other) = false := by simpa using Ne.symm apart
  rw [← pop other,none]
  rfl

end

theorem GrantsCounted.link
    (counted : GrantsCounted total registry) (linked : RegistryLinked registry) (isNew : frame.id = registry.linked)
    (next : frame.generation = registry.nextGeneration + 1) (room : registry.nextGeneration ≠ maxU64)
    (free : ∀ other ∈ registry.frames, other.ipa ≠ frame.ipa) (ungranted : frame.grants = 0) :
    GrantsCounted total (modifyFrame (linkFrame frame registry) frame.id (fun frame => { frame with mappings := frame.mappings + 1 })) ∧
      Later registry (modifyFrame (linkFrame frame registry) frame.id (fun frame => { frame with mappings := frame.mappings + 1 })) := by
  have above : registry.nextGeneration < frame.generation := by
    rw [next,lt_def,toNat_succ room]
    exact Nat.lt_succ_self _
  have links : FramesLinked (linkFrame frame registry) := linked.toFramesLinked.link isNew free
  refine ⟨.mapping ⟨fun other mem => ?_,fun id some => ?_⟩ _ (fun _ => ⟨rfl,rfl,rfl⟩) (fun _ => rfl),
    .trans ⟨?_,?_,?_,?_⟩ (later_modify links frame.id (fun _ => ⟨rfl,rfl,rfl⟩))⟩
  · rcases mem_cons.mp mem with rfl | old
    · rw [ungranted]
      by_contra some
      obtain ⟨old,there,same⟩ := counted.listed other.id (Ne.symm some)
      exact absurd (linked.old old there) (by rw [same,isNew]; exact Nat.lt_irrefl _)
    exact counted.grants other old
  · obtain ⟨old,there,same⟩ := counted.listed id some
    exact ⟨old,mem_cons_of_mem _ there,same⟩
  · exact Nat.le_succ _
  · exact le_def.mpr (Nat.le_of_lt (lt_def.mp above))
  · intro other mem below
    rcases mem_cons.mp mem with rfl | old
    · exact absurd below (by rw [isNew]; exact Nat.lt_irrefl _)
    exact ⟨other,old,rfl,rfl,rfl⟩
  intro other mem isAbove
  rcases mem_cons.mp mem with rfl | old
  · exact ⟨above,BitVec.le_refl _⟩
  exact absurd isAbove (Nat.not_le_of_lt (linked.old other old))

private theorem grants_change {before after : Option Nat × GpuvaState} (change : Change allows before after)
    (counted : GrantsCounted (withOthers before.2.graph.backings others) before.2.registry)
    (registry : RegistryLinked before.2.registry) (chains : BackingsLinked before.2.graph) :
    GrantsCounted (withOthers after.2.graph.backings others) after.2.registry ∧ Later before.2.registry after.2.registry := by
  have same := Later.refl registry.toFramesLinked
  have grants : ∀ request answer,
      GrantsCounted (withOthers (sent before.2.graph request answer).backings others) before.2.registry :=
    fun request answer => counted.same rfl
  cases change with
  | granted request acked present isGrant free unused unkept system framed => exact (grants _ _).grant registry framed
  | revoked acked present mem unused loose =>
    exact (grants _ _).revoke registry { chains with } mem
  | frameLinked _ frame isNew next room free new ungranted => exact counted.link registry isNew next room free ungranted
  | frameMapped _ mem room =>
    exact ⟨counted.mapping _ (fun _ => ⟨rfl,rfl,rfl⟩) (fun _ => rfl),later_modify registry.toFramesLinked _ (fun _ => ⟨rfl,rfl,rfl⟩)⟩
  | leafLinked | leafUnlinked | retained => exact ⟨counted.same (modify_frameOf _ _ (fun _ => rfl)),same⟩
  | @leafMoved _ graph _ response leaf backing old target =>
    have dropped : (dropReference old graph).backings.map frameOf = graph.backings.map frameOf :=
      modify_frameOf _ _ (fun _ => rfl)
    exact ⟨(counted.same dropped).same (modify_frameOf _ _ (fun _ => rfl)),same⟩
  | _ => exact ⟨counted,same⟩

private theorem grants_move {before after : Option Nat × GpuvaState} (move : Move allows before after)
    (counted : GrantsCounted (withOthers before.2.graph.backings others) before.2.registry)
    (registry : RegistryLinked before.2.registry) (chains : BackingsLinked before.2.graph) :
    GrantsCounted (withOthers after.2.graph.backings others) after.2.registry ∧ Later before.2.registry after.2.registry := by
  have same := Later.refl registry.toFramesLinked
  cases move with
  | quiet quiet =>
    obtain ⟨_,_,_,backings,_⟩ := quiet_fields quiet
    exact ⟨counted.same (by rw [backings]),same⟩
  | @unmapped _ graph registry' frame mem mapped =>
    have keeps : KeepsFrame (fun frame => { frame with mappings := frame.mappings - 1 }) := fun _ => ⟨rfl,rfl,rfl⟩
    have changed : FramesLinked (modifyFrame registry' frame.id (fun frame => { frame with mappings := frame.mappings - 1 })) :=
      registry.toFramesLinked.modify (fun _ => ⟨rfl,rfl⟩)
    exact ⟨(counted.mapping frame.id keeps (fun _ => rfl)).release changed frame.id,
      (later_modify registry.toFramesLinked frame.id keeps).trans (later_release frame.id changed)⟩
  | change _ change => exact grants_change change counted registry chains
  | _ => exact ⟨counted,same⟩

/-- A backing is an old one, or a new one with what its frame has. -/
def OldOrFramed (before : GpuvaState) (backing : GpuvaNode) : Prop :=
  (∃ old ∈ before.graph.backings, frameOf old = frameOf backing) ∨
    (backing.kind = .System ↔ backing.frame.isSome = true) ∧ ∀ id, backing.frame = some id →
      ∃ frame ∈ before.registry.frames, frame.id = id ∧ frame.ipa = backing.ipa ∧ frame.generation = backing.generation

theorem oldOrFramed_same {before : GpuvaState} {backings' : List GpuvaNode}
    (same : backings'.map frameOf = before.graph.backings.map frameOf) : ∀ backing ∈ backings', OldOrFramed before backing := by
  intro backing mem
  have there : frameOf backing ∈ before.graph.backings.map frameOf := same ▸ mem_map_of_mem mem
  exact .inl (mem_map.mp there)

private theorem change_backings {before after : Option Nat × GpuvaState} (change : Change allows before after) :
    ∀ backing ∈ after.2.graph.backings, OldOrFramed before.2 backing := by
  cases change with
  | granted request acked present isGrant free unused unkept system framed =>
    intro other mem
    rcases mem_cons.mp mem with rfl | old
    · refine .inr ⟨system,fun id isFrame => ?_⟩
      obtain ⟨frame,there,isId,ipa,generation,_⟩ := framed id isFrame
      exact ⟨frame,there,isId,ipa,generation⟩
    exact .inl ⟨other,old,rfl⟩
  | revoked => exact fun other mem => .inl ⟨other,(mem_without.mp mem).1,rfl⟩
  | leafLinked | leafUnlinked | retained => exact oldOrFramed_same (modify_frameOf _ _ (fun _ => rfl))
  | @leafMoved _ graph _ response leaf backing old target =>
    have dropped : (dropReference old graph).backings.map frameOf = graph.backings.map frameOf :=
      modify_frameOf _ _ (fun _ => rfl)
    have added : (addReference backing (dropReference old graph)).backings.map frameOf = (dropReference old graph).backings.map frameOf :=
      modify_frameOf _ _ (fun _ => rfl)
    exact oldOrFramed_same (added.trans dropped)
  | _ => exact oldOrFramed_same rfl

theorem move_backings {before after : Option Nat × GpuvaState} (move : Move allows before after) :
    ∀ backing ∈ after.2.graph.backings, OldOrFramed before.2 backing := by
  cases move with
  | quiet quiet =>
    obtain ⟨_,_,_,backings,_⟩ := quiet_fields quiet
    exact oldOrFramed_same (by rw [backings])
  | change _ change => exact change_backings change
  | _ => exact oldOrFramed_same rfl

theorem Framed.later {registry' : GpuvaRegistry}
    (framed : Framed backings registry) (linked : FramesLinked registry) (later : Later registry registry')
    (counted : GrantsCounted total registry') (holds : ∀ backing ∈ backings, ∀ id, backing.frame = some id → total id ≠ 0) :
    Framed backings registry' := by
  intro backing mem id isFrame
  obtain ⟨frame,there,isId,ipa,generation⟩ := framed backing mem id isFrame
  obtain ⟨frame',there',isId'⟩ := counted.listed id (holds backing mem id isFrame)
  obtain ⟨old,inside,oldId,oldIpa,oldGeneration⟩ := later.old frame' there'
    (by rw [isId',← isId]; exact linked.old frame there)
  have same := linked.chains.eq_of_serial inside there (oldId.trans (isId'.trans isId.symm))
  subst same
  exact ⟨frame',there',isId',oldIpa.symm.trans ipa,oldGeneration.symm.trans generation⟩

theorem grantsOf_pos (mem : backing ∈ backings) (isFrame : backing.frame = some id) : grantsOf backings id ≠ 0 :=
  Nat.ne_of_gt (countP_pos_iff.mpr ⟨backing,mem,beq_iff_eq.mpr isFrame⟩)

/-- What the frames of one graph among others keep. -/
structure FramesKept (others : Nat → Nat) (state : GpuvaState) : Prop where
  counted : GrantsCounted (withOthers state.graph.backings others) state.registry
  framed : Framed state.graph.backings state.registry
  system : SystemFramed state.graph.backings
  given : Given state.registry

theorem Given.later {registry' : GpuvaRegistry} (given : Given registry) (later : Later registry registry') :
    Given registry' := by
  intro frame mem
  rcases Nat.lt_or_ge frame.id registry.linked with below | above
  · obtain ⟨old,there,_,_,generation⟩ := later.old frame mem below
    exact generation ▸ BitVec.le_trans (given old there) later.given
  exact (later.new frame mem above).2

private theorem frames_move {before after : Option Nat × GpuvaState} (move : Move allows before after)
    (linked : Linked before.2.graph) (registry : RegistryLinked before.2.registry) (kept : FramesKept others before.2) :
    FramesKept others after.2 ∧ Later before.2.registry after.2.registry := by
  obtain ⟨counted,later⟩ := grants_move move kept.counted registry linked.backings
  refine ⟨⟨counted,fun backing mem id isFrame => ?_,fun backing mem => ?_,kept.given.later later⟩,later⟩
  · have holds : Framed [backing] before.2.registry := by
      intro same isSame id isFrame
      rw [mem_singleton.mp isSame] at isFrame ⊢
      rcases move_backings move backing mem with ⟨old,there,same⟩ | ⟨_,framed⟩
      · simp only [frameOf,Prod.mk.injEq] at same
        obtain ⟨frame,ipa,generation,_⟩ := same
        rw [← frame] at isFrame
        rw [← ipa,← generation]
        exact kept.framed old there id isFrame
      exact framed id isFrame
    refine holds.later registry.toFramesLinked later counted (fun same isSame id isFrame => ?_) backing
      (mem_singleton.mpr rfl) id isFrame
    rw [mem_singleton.mp isSame] at isFrame
    have some := grantsOf_pos mem isFrame
    simp only [withOthers]
    omega
  rcases move_backings move backing mem with ⟨old,there,same⟩ | ⟨system,_⟩
  · simp only [frameOf,Prod.mk.injEq] at same
    rw [← same.1,← same.2.2.2]
    exact kept.system old there
  exact system

private theorem frames_moves {before after : Option Nat × GpuvaState} (moves : Moves allows before after)
    (linked : Linked before.2.graph) (registry : RegistryLinked before.2.registry) (kept : FramesKept others before.2) :
    FramesKept others after.2 ∧ Later before.2.registry after.2.registry := by
  induction moves with
  | refl => exact ⟨kept,.refl registry.toFramesLinked⟩
  | tail earlier move ih =>
  obtain ⟨kept,later⟩ := ih
  obtain ⟨kept',later'⟩ := frames_move move (moves_linked earlier linked) (registry_moves earlier registry) kept
  exact ⟨kept',later.trans later'⟩

variable {n : Nat}

/-- The backings of all graphs that hold a frame. -/
def totalGrants (world : World n) (id : Nat) : Nat := ∑ who, grantsOf (world.graphs who).backings id
def otherGrants (world : World n) (who : Fin n) (id : Nat) : Nat :=
  ∑ other ∈ Finset.univ.erase who, grantsOf (world.graphs other).backings id
theorem totalGrants_split (world : World n) (who : Fin n) :
    totalGrants world = withOthers (world.graphs who).backings (otherGrants world who) :=
  funext (fun _ => (Finset.add_sum_erase _ _ (Finset.mem_univ who)).symm)

private theorem otherGrants_set (world : World n) (who : Fin n) (state : GpuvaState) :
    otherGrants (world.set who state) who = otherGrants world who := by
  funext id
  refine Finset.sum_congr rfl (fun other mem => ?_)
  simp only [World.set,update_of_ne (Finset.ne_of_mem_erase mem)]

structure WorldFrames (world : World n) : Prop where
  counted : GrantsCounted (totalGrants world) world.registry
  framed : ∀ who, Framed (world.graphs who).backings world.registry
  system : ∀ who, SystemFramed (world.graphs who).backings
  given : Given world.registry

theorem worldInit_frames (owners : Fin n → Owner) : WorldFrames (worldInit owners) := by
  refine ⟨⟨fun _ bad => absurd bad not_mem_nil,fun id some => absurd ?_ some⟩,
    fun _ _ bad => absurd bad not_mem_nil,fun _ _ bad => absurd bad not_mem_nil,
    fun _ bad => absurd bad not_mem_nil⟩
  exact Finset.sum_eq_zero (fun _ _ => rfl)

variable {world : World n}

section
variable (env : Fin n → GpuvaEnv) (linked : WorldLinked world) (frames : WorldFrames world)
include env linked frames

theorem step_frames
    (entry : Fin n × Call) : WorldFrames (step env world entry) ∧ Later world.registry (step env world entry).registry := by
  have before : FramesKept (otherGrants world entry.1) (world.at entry.1) :=
    ⟨(totalGrants_split world entry.1) ▸ frames.counted,frames.framed entry.1,frames.system entry.1,frames.given⟩
  have graph : Linked (world.at entry.1).graph := linked.graphs entry.1
  obtain ⟨kept,later⟩ := frames_moves (step_moves env linked entry) graph linked.registry before
  have total : totalGrants (step env world entry) =
      withOthers (apply (env entry.1) entry.2 (world.at entry.1)).graph.backings (otherGrants world entry.1) := by
    rw [totalGrants_split _ entry.1,step,otherGrants_set]
    simp only [World.set,update_self]
  have counted : GrantsCounted (totalGrants (step env world entry)) (step env world entry).registry := total ▸ kept.counted
  refine ⟨⟨counted,fun who => ?_,
    step_graph (P := fun graph => SystemFramed graph.backings) frames.system kept.system,kept.given⟩,later⟩
  by_cases same : who = entry.1
  · subst same
    simp only [step,World.set,update_self]
    exact kept.framed
  have graph : ((step env world entry).graphs who) = world.graphs who := update_of_ne same _ _
  rw [graph]
  refine (frames.framed who).later linked.registry.toFramesLinked later counted (fun backing mem id isFrame => ?_)
  have some := grantsOf_pos mem isFrame
  rw [totalGrants_split _ who,graph]
  simp only [withOthers]
  omega

theorem run_frames
    (script : List (Fin n × Call)) : WorldFrames (run env world script) ∧ Later world.registry (run env world script).registry := by
  induction script generalizing world with
  | nil => exact ⟨frames,.refl linked.registry.toFramesLinked⟩
  | cons entry rest ih =>
  obtain ⟨next,later⟩ := step_frames env linked frames entry
  obtain ⟨last,later'⟩ := ih (step_linked env linked entry) next
  exact ⟨last,later.trans later'⟩

end

end WindowsOnM1.GpuvaGrants
