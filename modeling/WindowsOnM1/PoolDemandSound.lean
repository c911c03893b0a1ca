import WindowsOnM1.PoolDemandSteps
import WindowsOnM1.ArrayCells
import WindowsOnM1.Tallies

/-!
The candidates and the counts of the demand pool: what can be released is on the list, apart
from the granules that a piece of a step still works on.
-/
namespace WindowsOnM1.PoolDemandSound
open ArrayCells Actions CountedLoop Tallies PoolDemandModel List Function
open BitVec hiding append_assoc cast not_or
open PoolDemandSteps

def listed (pool : Pool) : List Nat := cells pool.candidateList pool.candidates

/-- The candidates are those of `list`, and what can be released is one of them unless it is exempt. -/
structure Sound (list : List Nat) (exempt : Nat → Prop) (pool : Pool) : Prop where
  small : pool.count.toNat < 2 ^ 48
  nodup : list.Nodup
  flagged : ∀ index, (pool.granules index).candidate = true ↔ index ∈ list
  inside : ∀ index, (pool.granules index).candidate = true → index < pool.count.toNat
  bounded : ∀ index, (pool.granules index).committed = true → index < pool.count.toNat
  held : ∀ index, (pool.granules index).owner ≠ none ∨ (pool.granules index).pinned = true → (pool.granules index).committed = true
  waiting : ∀ index, releasable (pool.granules index) = true → (pool.granules index).candidate = true ∨ exempt index
  committed : pool.committedGranules.toNat = tally (fun index => (pool.granules index).committed) pool.count.toNat
  pinned : pool.pinnedGranules.toNat = tally (fun index => (pool.granules index).pinned) pool.count.toNat

variable {list list' : List Nat} {exempt exempt' : Nat → Prop} {pool left : Pool}

theorem releasable_iff (granule : Granule) : releasable granule = true ↔
    granule.committed = true ∧ granule.pinned = false ∧ granule.owner = none ∧ granule.pagingRefs = 0 := by
  simp [releasable]
theorem Sound.weaken (sound : Sound list exempt pool) (more : ∀ index, exempt index → exempt' index) :
    Sound list exempt' pool :=
  { sound with waiting := fun index free => (sound.waiting index free).imp_right (more index) }

/-- The counts are as before, and so are the flags that they and the list are about. -/
structure ListKept (pool left : Pool) : Prop where
  count : left.count = pool.count
  committedGranules : left.committedGranules = pool.committedGranules
  pinnedGranules : left.pinnedGranules = pool.pinnedGranules
  granules : ∀ index, (left.granules index).candidate = (pool.granules index).candidate ∧
    (left.granules index).committed = (pool.granules index).committed ∧
    (left.granules index).pinned = (pool.granules index).pinned

theorem Sound.kept (sound : Sound list exempt pool) (kept : ListKept pool left)
    (owned : ∀ index, (left.granules index).owner ≠ none → (pool.granules index).committed = true)
    (waiting : ∀ index, releasable (left.granules index) = true → (pool.granules index).candidate = true ∨ exempt' index) :
    Sound list exempt' left := by
  obtain ⟨count,committedGranules,pinnedGranules,granules⟩ := kept
  refine ⟨?_,sound.nodup,fun index => ?_,fun index => ?_,fun index => ?_,fun index holds => ?_,fun index free => ?_,?_,?_⟩
  · rw [count]
    exact sound.small
  · rw [(granules index).1]
    exact sound.flagged index
  · rw [count,(granules index).1]
    exact sound.inside index
  · rw [count,(granules index).2.1]
    exact sound.bounded index
  · rw [(granules index).2.1]
    rcases holds with owner | pinned
    · exact owned index owner
    rw [(granules index).2.2] at pinned
    exact sound.held index (.inr pinned)
  · rw [(granules index).1]
    exact waiting index free
  · rw [committedGranules,count,sound.committed]
    exact (tally_congr (fun index _ => (granules index).2.1)).symm
  rw [pinnedGranules,count,sound.pinned]
  exact (tally_congr (fun index _ => (granules index).2.2)).symm

private theorem listKept_change (index : Nat) (change : Granule → Granule) (pool : Pool)
    (keeps : (change (pool.granules index)).candidate = (pool.granules index).candidate ∧
      (change (pool.granules index)).committed = (pool.granules index).committed ∧
      (change (pool.granules index)).pinned = (pool.granules index).pinned) : ListKept pool (changeGranule index change pool) := by
  refine ⟨rfl,rfl,rfl,fun other => ?_⟩
  by_cases same : other = index
  · subst same
    rw [changeGranule_same]
    exact keeps
  rw [changeGranule_other same]
  exact ⟨rfl,rfl,rfl⟩

variable {index : Nat}

theorem Sound.change (sound : Sound list exempt pool) {change : Granule → Granule}
    (keeps : (change (pool.granules index)).candidate = (pool.granules index).candidate ∧
      (change (pool.granules index)).committed = (pool.granules index).committed ∧
      (change (pool.granules index)).pinned = (pool.granules index).pinned)
    (owned : (change (pool.granules index)).owner ≠ none → (pool.granules index).committed = true)
    (waiting : releasable (change (pool.granules index)) = true → (pool.granules index).candidate = true ∨ exempt' index)
    (others : ∀ other, other ≠ index → exempt other → exempt' other) : Sound list exempt' (changeGranule index change pool) := by
  refine sound.kept (listKept_change index change pool keeps) (fun other owner => ?_) (fun other free => ?_)
  · by_cases same : other = index
    · subst same
      rw [changeGranule_same] at owner
      exact owned owner
    rw [changeGranule_other same] at owner
    exact sound.held other (.inl owner)
  by_cases same : other = index
  · subst same
    rw [changeGranule_same] at free
    exact waiting free
  rw [changeGranule_other same] at free
  exact (sound.waiting other free).imp_right (others other same)

def SoundPool (exempt : Nat → Prop) (pool : Pool) : Prop := Sound (listed pool) exempt pool

theorem sound_consider (sound : SoundPool exempt pool) (index : Nat) :
    SoundPool (fun other => exempt other ∧ other ≠ index) (consider index pool) := by
  rw [consider_eq]
  split
  · rename_i adds
    obtain ⟨free,fresh⟩ := adds
    have absent : index ∉ listed pool := fun mem => fresh ((sound.flagged index).mpr mem)
    have list : listed (withCandidate index pool) = listed pool ++ [index] := cells_push _ _ _
    have within : index < pool.count.toNat := sound.bounded index ((releasable_iff _).mp free).1
    have flags : ∀ other, (withCandidate index pool).granules other =
        { pool.granules other with candidate := (pool.granules other).candidate || decide (other = index) } := by
      intro other
      by_cases same : other = index
      · subst same
        simp
      rw [withCandidate_other same]
      simp [same]
    refine ⟨sound.small,?_,fun other => ?_,fun other is => ?_,fun other => ?_,fun other => ?_,fun other free' => ?_,?_,?_⟩
    · rw [list]
      exact List.Nodup.append sound.nodup (nodup_singleton _) (by simpa using absent)
    · rw [list,flags,mem_append,mem_singleton,← sound.flagged]
      simp
    · rw [flags] at is
      rcases (Bool.or_eq_true _ _).mp is with already | now
      · exact sound.inside other already
      exact of_decide_eq_true now ▸ within
    · rw [flags]
      exact sound.bounded other
    · rw [flags]
      exact sound.held other
    · rw [flags] at free' ⊢
      have free'' : releasable (pool.granules other) = true := free'
      by_cases same : other = index
      · exact .inl (by simp [same])
      exact (sound.waiting other free'').imp (fun already => by simp [already]) (fun is => ⟨is,same⟩)
    · refine sound.committed.trans (tally_congr (fun other _ => ?_)).symm
      rw [flags]
    refine sound.pinned.trans (tally_congr (fun other _ => ?_)).symm
    rw [flags]
  rename_i idle
  refine { sound with waiting := fun other free => ?_ }
  by_cases same : other = index
  · subst same
    have already := not_and_not_right.mp idle free
    exact .inl already
  exact (sound.waiting other free).imp_right (fun is => ⟨is,same⟩)

variable {first turns : Nat}

private theorem sound_considerRange (sound : SoundPool (fun other => exempt other ∨ first ≤ other ∧ other < first + turns) pool) :
    SoundPool exempt (forRange consider first turns pool) := by
  have done : SoundPool (fun other => exempt other ∨ first + turns ≤ other ∧ other < first + turns) (forRange consider first turns pool) := by
    refine forRange_keeps consider
      (fun next (left : Pool) => SoundPool (fun other => exempt other ∨ next ≤ other ∧ other < first + turns) left) sound
      (fun index left _ _ here => ?_)
    refine (sound_consider here index).weaken (fun other is => ?_)
    obtain ⟨is | between,apart⟩ := is
    · exact .inl is
    exact .inr ⟨by omega,between.2⟩
  exact done.weaken (fun other is => is.elim id (fun between => absurd between.1 (Nat.not_le.mpr between.2)))

section
variable (sound : SoundPool exempt pool)
include sound

private theorem sound_disownOne (owner index : Nat) : SoundPool exempt (disownOne owner index pool) := by
  unfold disownOne
  split
  · have freed : SoundPool (fun other => exempt other ∨ other = index)
        (changeGranule index (fun granule => { granule with owner := none }) pool) :=
      sound.change ⟨rfl,rfl,rfl⟩ (fun owner => absurd rfl owner) (fun _ => .inr (.inr rfl)) (fun _ _ is => .inl is)
    exact (sound_consider freed index).weaken (fun other is => is.1.resolve_right is.2)
  exact sound

theorem sound_setPlacement (owner : Nat) (placement : Placement) :
    SoundPool exempt (setPlacement owner placement pool) :=
  { sound with }
theorem sound_disown (owner : Nat) : SoundPool exempt (disown owner pool) :=
  sound_setPlacement (forRange_keeps (disownOne owner) (fun _ left => SoundPool exempt left) sound
    (fun index _ _ _ here => sound_disownOne here owner index)) owner _

private theorem sound_killOne (index : Nat) : SoundPool exempt (killOne index pool) := by
  unfold killOne
  split
  · exact sound
  exact sound_disown sound _

end

def withRun (first count : Nat) (pool : Pool) : Pool :=
  { forRange (fun index => changeGranule index commitGranule) first count pool with
    committedGranules := pool.committedGranules + BitVec.ofNat 64 count }
theorem withRun_granules (first count : Nat) (pool : Pool) (index : Nat) : (withRun first count pool).granules index =
    if first ≤ index ∧ index < first + count then commitGranule (pool.granules index) else pool.granules index :=
  changeRange_apply commitGranule first count pool index

theorem withRun_pool (first count : Nat) (pool : Pool) : withRun first count pool =
    { pool with granules := (withRun first count pool).granules, committedGranules := (withRun first count pool).committedGranules } := by
  have ranges := changeRange_pool commitGranule first count pool
  unfold withRun
  rw [ranges]

theorem sound_withRun (sound : SoundPool exempt pool) {count : Nat} (within : first + count ≤ pool.count.toNat)
    (off : ∀ index, first ≤ index → index < first + count → (pool.granules index).committed = false) :
    SoundPool (fun other => exempt other ∨ first ≤ other ∧ other < first + count) (withRun first count pool) := by
  have granules := withRun_granules first count pool
  have shape := withRun_pool first count pool
  have countKept : (withRun first count pool).count = pool.count := by rw [shape]
  have listKept : listed (withRun first count pool) = listed pool := by rw [shape]; rfl
  have pinnedKept : (withRun first count pool).pinnedGranules = pool.pinnedGranules := by rw [shape]
  have flags : ∀ index, ((withRun first count pool).granules index).candidate = (pool.granules index).candidate ∧
      ((withRun first count pool).granules index).pinned = (pool.granules index).pinned ∧
      ((withRun first count pool).granules index).owner = (pool.granules index).owner ∧
      ((withRun first count pool).granules index).committed =
        ((pool.granules index).committed || decide (first ≤ index ∧ index < first + count)) := by
    intro index
    rw [granules]
    split
    · rename_i inRange
      exact ⟨rfl,rfl,rfl,by simp [commitGranule,inRange]⟩
    rename_i outside
    exact ⟨rfl,rfl,rfl,by simp [outside]⟩
  have small := sound.small
  refine ⟨?_,?_,fun index => ?_,fun index => ?_,fun index => ?_,fun index holds => ?_,fun index free => ?_,?_,?_⟩
  · rw [countKept]
    exact small
  · rw [listKept]
    exact sound.nodup
  · rw [listKept,(flags index).1]
    exact sound.flagged index
  · rw [countKept,(flags index).1]
    exact sound.inside index
  · rw [countKept,(flags index).2.2.2,Bool.or_eq_true]
    rintro (already | now)
    · exact sound.bounded index already
    have inRange := of_decide_eq_true now
    omega
  · rw [(flags index).2.1,(flags index).2.2.1] at holds
    rw [(flags index).2.2.2,sound.held index holds]
    rfl
  · by_cases inRange : first ≤ index ∧ index < first + count
    · exact .inr (.inr inRange)
    rw [granules,if_neg inRange] at free ⊢
    exact (sound.waiting index free).imp_right .inl
  · have counted : tally (fun index => ((withRun first count pool).granules index).committed) pool.count.toNat =
        tally (fun index => (pool.granules index).committed) pool.count.toNat + count :=
      tally_range within off (fun index => (flags index).2.2.2)
    have bound : tally (fun index => ((withRun first count pool).granules index).committed) pool.count.toNat ≤ pool.count.toNat :=
      tally_le _ _
    rw [countKept,counted]
    have added : (withRun first count pool).committedGranules = pool.committedGranules + BitVec.ofNat 64 count := rfl
    rw [added,toNat_add,toNat_ofNat,sound.committed]
    omega
  rw [pinnedKept,countKept,sound.pinned]
  exact (tally_congr (fun index _ => (flags index).2.1)).symm

/-- The run from `start` on consists of uncommitted granules. -/
theorem runLength_off (pool : Pool) (start turns length : Nat) : length ≤ runLength pool start turns length ∧
    runLength pool start turns length ≤ length + turns ∧
    ∀ index, start + length ≤ index → index < start + runLength pool start turns length → (pool.granules index).committed = false := by
  induction turns generalizing length with
  | zero => exact ⟨Nat.le_refl _,Nat.le_refl _,fun index above below => absurd (Nat.lt_of_le_of_lt above below) (Nat.lt_irrefl _)⟩
  | succ turns ih =>
  unfold runLength
  split
  · rename_i goes
    obtain ⟨low,high,off⟩ := ih (length + 1)
    refine ⟨by omega,by omega,fun index above below => ?_⟩
    by_cases first : index = start + length
    · rw [first]
      exact Bool.eq_false_iff.mpr goes.1
    exact off index (by omega) below
  exact ⟨Nat.le_refl _,by omega,fun index above below => absurd (Nat.lt_of_le_of_lt above below) (Nat.lt_irrefl _)⟩

private theorem runLength_pos {pool : Pool} {start : Nat} (off : (pool.granules start).committed ≠ true) (some : 0 < turns) :
    0 < runLength pool start turns 0 := by
  cases turns with
  | zero => exact absurd some (Nat.lt_irrefl 0)
  | succ turns =>
  have first : ¬ (pool.granules (start + 0)).committed = true ∧ (pool.maxRun = 0 ∨ 0 < pool.maxRun.toNat) := by
    refine ⟨off,?_⟩
    by_cases none : pool.maxRun = 0
    · exact .inl none
    exact .inr (Nat.pos_of_ne_zero (fun zero => none (eq_of_toNat_eq zero)))
  unfold runLength
  rw [if_pos first]
  exact (runLength_off pool start turns 1).1

variable (io : PoolIo)

/-- What `CommitRun` leaves. -/
theorem gives_commitRun (first count : Nat) (world : World) :
    Gives (commitRun io first count) world (fun done left => left.pool = if done then withRun first count world.pool else world.pool) := by
  unfold commitRun
  simp only [gives_bind,gives_call,gives_ite,gives_pure,gives_changePool]
  exact ⟨fun _ => rfl,fun _ => rfl⟩

/-- What the commits of a range leave. -/
structure RunsDone (exempt : Nat → Prop) (first stop : Nat) (pool : Pool) (done : Bool) (left : Pool) : Prop where
  count : left.count = pool.count
  succeeded : done = true → SoundPool (fun other => exempt other ∨ first ≤ other ∧ other < stop) left ∧
    ∀ index, first ≤ index → index < stop → (left.granules index).committed = true
  failed : done = false → SoundPool exempt left

theorem consider_count (index : Nat) (pool : Pool) : (consider index pool).count = pool.count := by
  rw [consider_eq]
  split
  · rfl
  rfl

private theorem considerRange_count (first turns : Nat) (pool : Pool) : (forRange consider first turns pool).count = pool.count :=
  forRange_keeps consider (fun _ (left : Pool) => left.count = pool.count) rfl
    (fun index left _ _ same => (consider_count index left).trans same)

private theorem sound_commitRuns (io : PoolIo) {first stop turns index : Nat} {world : World}
    (sound : SoundPool (fun other => exempt other ∨ first ≤ other ∧ other < stop) world.pool)
    (within : stop ≤ world.pool.count.toNat) (above : first ≤ index)
    (before : ∀ other, first ≤ other → other < index → (world.pool.granules other).committed = true)
    (enough : stop ≤ index + turns) :
    Gives (commitRuns io first stop turns index) world (fun done left => RunsDone exempt first stop world.pool done left.pool) := by
  induction turns generalizing index world with
  | zero => exact ⟨rfl,fun _ => ⟨sound,fun other low high => before other low (by omega)⟩,by rintro ⟨⟩⟩
  | succ turns ih =>
  unfold commitRuns
  rw [gives_bind,gives_get,gives_ite,gives_ite]
  refine ⟨fun ended => ?_,fun here => ⟨fun already => ?_,fun off => ?_⟩⟩
  · exact ⟨rfl,fun _ => ⟨sound,fun other low high => before other low (by omega)⟩,by rintro ⟨⟩⟩
  · refine ih sound within (by omega) (fun other low high => ?_) (by omega)
    by_cases last : other = index
    · exact last ▸ already
    exact before other low (by omega)
  have positive := runLength_pos off (show 0 < stop - index by omega)
  obtain ⟨-,short,run⟩ := runLength_off world.pool index (stop - index) 0
  generalize runLength world.pool index (stop - index) 0 = length at positive short run ⊢
  refine (gives_commitRun io index length world).bind (fun done middle leaves => ?_)
  rw [gives_ite,gives_bind,gives_changePool,gives_pure]
  refine ⟨fun failed => ?_,fun done => ?_⟩
  · rw [if_neg failed] at leaves
    rw [leaves]
    refine ⟨considerRange_count _ _ _,by rintro ⟨⟩,fun _ => sound_considerRange (sound.weaken (fun other is => is.imp_right ?_))⟩
    exact fun inRange => ⟨inRange.1,by omega⟩
  rw [if_pos (not_not.mp done)] at leaves
  have counted : (withRun index length world.pool).count = world.pool.count := by rw [withRun_pool]
  have sound' : SoundPool (fun other => exempt other ∨ first ≤ other ∧ other < stop) middle.pool := by
    rw [leaves]
    refine (sound_withRun sound (by omega) run).weaken (fun other is => is.elim id (fun inRun => .inr ?_))
    exact ⟨by omega,by omega⟩
  have rest := @ih (index + length) middle sound' (by rw [leaves,counted]; exact within) (by omega)
    (fun other low high => ?_) (by omega)
  · refine rest.mono (fun result left ends => ⟨ends.count.trans ?_,ends.succeeded,ends.failed⟩)
    rw [leaves,counted]
  rw [leaves,withRun_granules]
  split
  · rfl
  exact before other low (by omega)

/-- The granules of a range get an owner, which they need no exemption with. -/
private theorem sound_ownRange (sound : SoundPool (fun other => exempt other ∨ first ≤ other ∧ other < first + turns) pool)
    (committed : ∀ index, first ≤ index → index < first + turns → (pool.granules index).committed = true) (owner : Nat) :
    SoundPool exempt (forRange (ownOne owner) first turns pool) := by
  have done : SoundPool (fun other => exempt other ∨ first + turns ≤ other ∧ other < first + turns) (forRange (ownOne owner) first turns pool) ∧
      ∀ index, first ≤ index → index < first + turns → ((forRange (ownOne owner) first turns pool).granules index).committed = true := by
    refine forRange_keeps (ownOne owner) (fun next (left : Pool) =>
      SoundPool (fun other => exempt other ∨ next ≤ other ∧ other < first + turns) left ∧
        ∀ index, first ≤ index → index < first + turns → (left.granules index).committed = true) ⟨sound,committed⟩
      (fun index left above below here => ⟨?_,fun other low high => ?_⟩)
    · refine here.1.change ⟨rfl,rfl,rfl⟩ (fun _ => here.2 index above below) (fun free => ?_) (fun other apart is => ?_)
      · exact absurd ((releasable_iff _).mp free).2.2.1 nofun
      exact is.imp_right (fun inRange => ⟨by omega,inRange.2⟩)
    by_cases same : other = index
    · subst same
      rw [ownOne,changeGranule_same]
      exact here.2 other low high
    rw [ownOne,changeGranule_other same]
    exact here.2 other low high
  exact done.1.weaken (fun other is => is.elim id (fun between => absurd between.1 (Nat.not_le.mpr between.2)))

private theorem sound_pinGranule (sound : SoundPool (fun other => exempt other ∨ other = index) pool)
    (committed : (pool.granules index).committed = true) : SoundPool exempt (pinGranule index pool) := by
  have within := sound.bounded index committed
  unfold pinGranule
  split
  · rename_i already
    refine sound.kept ⟨rfl,rfl,rfl,fun _ => ⟨rfl,rfl,rfl⟩⟩ (fun other owner => sound.held other (.inl owner)) (fun other free => ?_)
    by_cases same : other = index
    · subst same
      exact absurd already (by rw [((releasable_iff _).mp free).2.1]; exact nofun)
    exact (sound.waiting other free).imp_right (fun is => is.resolve_right same)
  rename_i fresh
  have flags : ∀ other, other ≠ index →
      (changeGranule index (fun granule => { granule with pinned := true }) pool).granules other = pool.granules other :=
    fun other apart => changeGranule_other apart _ _
  have same := changeGranule_same index (fun granule => { granule with pinned := true }) pool
  have kept : ∀ other,
      ((changeGranule index (fun granule => { granule with pinned := true }) pool).granules other).candidate =
        (pool.granules other).candidate ∧
      ((changeGranule index (fun granule => { granule with pinned := true }) pool).granules other).committed =
        (pool.granules other).committed ∧
      ((changeGranule index (fun granule => { granule with pinned := true }) pool).granules other).owner =
        (pool.granules other).owner := by
    intro other
    by_cases here : other = index
    · subst here
      rw [same]
      exact ⟨rfl,rfl,rfl⟩
    rw [flags other here]
    exact ⟨rfl,rfl,rfl⟩
  refine ⟨sound.small,sound.nodup,fun other => ?_,fun other => ?_,fun other => ?_,fun other holds => ?_,fun other free => ?_,?_,?_⟩
  · exact (kept other).1 ▸ sound.flagged other
  · exact (kept other).1 ▸ sound.inside other
  · exact (kept other).2.1 ▸ sound.bounded other
  · by_cases here : other = index
    · subst here
      exact (kept other).2.1.trans committed
    simp only [flags other here] at holds ⊢
    exact sound.held other holds
  · by_cases here : other = index
    · subst here
      simp only [same] at free
      exact absurd ((releasable_iff _).mp free).2.1 nofun
    simp only [flags other here] at free ⊢
    exact (sound.waiting other free).imp_right (fun is => is.resolve_right here)
  · refine sound.committed.trans (tally_congr (fun other _ => ?_)).symm
    exact (kept other).2.1
  have small := sound.small
  have counted : tally (fun other => ((changeGranule index (fun granule => { granule with pinned := true }) pool).granules other).pinned)
      pool.count.toNat = tally (fun other => (pool.granules other).pinned) pool.count.toNat + 1 := by
    refine tally_set within (Bool.eq_false_iff.mpr fresh) ?_ (fun other apart => ?_)
    · rw [same]
    rw [flags other apart]
  have bound := tally_le (fun other => (pool.granules other).pinned) pool.count.toNat
  have added : (pool.pinnedGranules + 1).toNat = pool.pinnedGranules.toNat + 1 := by
    rw [toNat_add,sound.pinned]
    exact Nat.mod_eq_of_lt (by rw [show (1 : U64).toNat = 1 from rfl]; omega)
  refine Eq.trans ?_ counted.symm
  rw [← sound.pinned]
  exact added

variable {world : World}

private theorem sound_commitOne (sound : SoundPool exempt world.pool) (within : index < world.pool.count.toNat) :
    Gives (commitOne io index) world (fun done left => left.pool.count = world.pool.count ∧
      if done then SoundPool (fun other => exempt other ∨ other = index) left.pool ∧ (left.pool.granules index).committed = true
      else SoundPool exempt left.pool) := by
  unfold commitOne
  rw [gives_bind,gives_get,gives_ite,gives_pure]
  refine ⟨fun already => ⟨rfl,sound.weaken (fun _ => .inl),already⟩,fun off => ?_⟩
  refine (gives_commitRun io index 1 world).mono (fun done left leaves => ?_)
  cases done with
  | false => exact ⟨by rw [leaves]; rfl,by rw [leaves]; exact sound⟩
  | true =>
  have run : left.pool = withRun index 1 world.pool := leaves
  rw [run]
  refine ⟨by rw [withRun_pool],?_,?_⟩
  · have alone : ∀ other, index ≤ other → other < index + 1 → (world.pool.granules other).committed = false := by
      intro other low high
      have same : other = index := by omega
      rw [same]
      exact Bool.eq_false_iff.mpr off
    refine (sound_withRun sound within alone).weaken (fun other is => is.imp_right (fun here => ?_))
    omega
  rw [withRun_granules,if_pos (by omega)]
  rfl

private theorem sound_pinRange (sound : SoundPool exempt world.pool) (within : first + turns ≤ world.pool.count.toNat) :
    Gives (pinRange io first turns) world (fun _ left => SoundPool exempt left.pool) := by
  induction turns generalizing first world with
  | zero => exact sound
  | succ turns ih =>
  refine (sound_commitOne io sound (by omega)).bind (fun done middle leaves => ?_)
  obtain ⟨counted,ends⟩ := leaves
  rw [gives_ite,gives_bind,gives_changePool,gives_pure]
  cases done with
  | false => exact ⟨fun _ => ends,fun bad => absurd (by rintro ⟨⟩) bad⟩
  | true =>
  refine ⟨fun bad => absurd rfl bad,fun _ => ih ?_ ?_⟩
  · exact sound_pinGranule ends.1 ends.2
  have kept : (pinGranule first middle.pool).count = middle.pool.count := by
    unfold pinGranule
    split
    · rfl
    rfl
  simp only [kept,counted]
  omega

variable {count : U64}

theorem toNat_bytes (small : count.toNat < 2 ^ 48) : (count * granuleBytes).toNat = count.toNat * 65536 := by
  have size : granuleBytes.toNat = 65536 := rfl
  rw [toNat_mul,size]
  exact Nat.mod_eq_of_lt (by omega)

private theorem ceiling_within {offset bytes : U64} (small : count.toNat < 2 ^ 48) (fits : offset ≤ ~~~0 - bytes)
    (within : offset + bytes ≤ count * granuleBytes) :
    (offset / granuleBytes).toNat ≤ count.toNat ∧ ((offset + bytes + granuleBytes - 1) / granuleBytes).toNat ≤ count.toNat := by
  have size : granuleBytes.toNat = 65536 := rfl
  have fits' : offset.toNat + bytes.toNat < 2 ^ 64 := by
    have bound := le_def.mp fits
    rw [toNat_sub,toNat_not,show (0 : U64).toNat = 0 from rfl] at bound
    omega
  have sum : (offset + bytes).toNat = offset.toNat + bytes.toNat := by
    exact Nat.mod_eq_of_lt fits'
  have within' : offset.toNat + bytes.toNat ≤ count.toNat * 65536 := by
    have bound := le_def.mp within
    rwa [sum,toNat_bytes small] at bound
  have top : (offset + bytes + granuleBytes - 1).toNat = offset.toNat + bytes.toNat + 65535 := by
    rw [toNat_sub,toNat_add,sum,size,show (1 : U64).toNat = 1 from rfl]
    omega
  rw [toNat_udiv,toNat_udiv,top,size]
  omega

private theorem sound_pin (sound : SoundPool exempt world.pool) (offset bytes : U64) :
    Gives (pin io offset bytes) world (fun _ left => SoundPool exempt left.pool) := by
  unfold pin
  rw [gives_bind,gives_get,gives_ite,gives_pure]
  refine ⟨fun _ => sound,fun valid => sound_pinRange io sound ?_⟩
  simp only [not_or,BitVec.not_lt] at valid
  have ends := ceiling_within sound.small valid.2.1 valid.2.2
  omega

/-- A counter of paging references comes back to zero for a granule that is no candidate and that nothing else keeps. -/
def RefsWrap (pool : Pool) (offset : U64) (delta : Int) : Prop :=
  0 < delta ∧ offset / granuleBytes < pool.count ∧ (pool.granules (offset / granuleBytes).toNat).candidate = false ∧
    (pool.granules (offset / granuleBytes).toNat).pagingRefs = ~~~0 ∧
    releasable { pool.granules (offset / granuleBytes).toNat with pagingRefs := 0 }

private theorem last_of_wraps {refs : U32} (wraps : refs + 1 = 0) : refs = ~~~0 := by
  have sum := congrArg BitVec.toNat wraps
  have zero : (0 : U32).toNat = 0 := rfl
  have one : (1 : U32).toNat = 1 := rfl
  rw [toNat_add,zero,one] at sum
  apply eq_of_toNat_eq
  rw [toNat_not,zero]
  omega

private theorem sound_pagingRef (sound : SoundPool exempt world.pool) (offset : U64) (delta : Int)
    (keeps : RefsWrap world.pool offset delta → exempt (offset / granuleBytes).toNat) :
    Gives (pagingRef offset delta) world (fun _ left => SoundPool exempt left.pool) := by
  unfold pagingRef
  rw [gives_changePool]
  generalize number : (offset / granuleBytes).toNat = index at keeps
  simp only
  split
  · exact sound
  rename_i inside
  have within : offset / granuleBytes < world.pool.count := BitVec.not_le.mp inside
  split
  · rename_i more
    refine sound.change ⟨rfl,rfl,rfl⟩ (fun owner => sound.held index (.inl owner)) (fun free => ?_) (fun _ _ is => is)
    obtain ⟨committed,unpinned,unowned,zero⟩ := (releasable_iff _).mp free
    cases listed : (world.pool.granules index).candidate with
    | true => exact .inl rfl
    | false =>
    refine .inr (keeps ⟨more,within,number ▸ listed,?_,?_⟩)
    · rw [number]
      have wraps : (world.pool.granules index).pagingRefs + 1 = 0 := zero
      exact last_of_wraps wraps
    rw [number]
    exact (releasable_iff _).mpr ⟨committed,unpinned,unowned,rfl⟩
  split
  · split
    · exact sound
    have fewer : SoundPool (fun other => exempt other ∨ other = index)
        (changeGranule index (fun granule => { granule with pagingRefs := granule.pagingRefs - 1 }) world.pool) :=
      sound.change ⟨rfl,rfl,rfl⟩ (fun owner => sound.held index (.inl owner)) (fun _ => .inr (.inr rfl)) (fun _ _ is => .inl is)
    split
    · exact (sound_consider fewer index).weaken (fun other is => is.1.resolve_right is.2)
    rename_i some
    refine fewer.kept ⟨rfl,rfl,rfl,fun _ => ⟨rfl,rfl,rfl⟩⟩ (fun other owner => fewer.held other (.inl owner)) (fun other free => ?_)
    by_cases same : other = index
    · subst same
      exact absurd ((releasable_iff _).mp free).2.2.2 some
    exact (fewer.waiting other free).imp_right (fun is => is.resolve_right same)
  exact sound

theorem Sound.unlisted {before after : List Nat} (sound : Sound (before ++ index :: after) exempt pool)
    (count : left.count = pool.count) (others : ∀ other, other ≠ index → left.granules other = pool.granules other)
    (off : (left.granules index).candidate = false)
    (held : (left.granules index).owner ≠ none ∨ (left.granules index).pinned = true → (left.granules index).committed = true)
    (idle : releasable (left.granules index) = false)
    (committed : left.committedGranules.toNat = tally (fun other => (left.granules other).committed) pool.count.toNat)
    (pinned : left.pinnedGranules.toNat = tally (fun other => (left.granules other).pinned) pool.count.toNat) :
    Sound (before ++ after) exempt left := by
  have nodup : (before ++ after).Nodup ∧ index ∉ before ++ after := by
    have whole := nodup_middle.mp sound.nodup
    exact ⟨(nodup_cons.mp whole).2,(nodup_cons.mp whole).1⟩
  have within : index < pool.count.toNat :=
    sound.inside index ((sound.flagged index).mpr (mem_append_right _ mem_cons_self))
  refine ⟨?_,nodup.1,fun other => ?_,fun other is => ?_,fun other is => ?_,fun other => ?_,fun other free => ?_,?_,?_⟩
  · rw [count]
    exact sound.small
  · by_cases same : other = index
    · subst same
      rw [off]
      exact ⟨nofun,fun mem => absurd mem nodup.2⟩
    rw [others other same,sound.flagged]
    simp [same]
  · rw [count]
    by_cases same : other = index
    · exact same ▸ within
    rw [others other same] at is
    exact sound.inside other is
  · rw [count]
    by_cases same : other = index
    · exact same ▸ within
    rw [others other same] at is
    exact sound.bounded other is
  · by_cases same : other = index
    · exact same ▸ held
    rw [others other same]
    exact sound.held other
  · by_cases same : other = index
    · subst same
      exact absurd free (by rw [idle]; exact nofun)
    rw [others other same] at free ⊢
    exact sound.waiting other free
  · rw [count]
    exact committed
  rw [count]
  exact pinned

theorem sound_idleFrom (sound : Sound list exempt pool) (index : Nat) (since : U64) :
    Sound list exempt (changeGranule index (idleFrom since) pool) :=
  sound.change ⟨rfl,rfl,rfl⟩ (fun owner => sound.held index (.inl owner)) (fun free => sound.waiting index free) (fun _ _ is => is)

private theorem sound_stale {before after : List Nat} (sound : Sound (before ++ index :: after) exempt pool)
    (busy : releasable (pool.granules index) = false) : Sound (before ++ after) exempt (changeGranule index staleGranule pool) := by
  have same := changeGranule_same index staleGranule pool
  have others : ∀ other, other ≠ index → (changeGranule index staleGranule pool).granules other = pool.granules other :=
    fun other apart => changeGranule_other apart _ _
  have flags : ∀ other, ((changeGranule index staleGranule pool).granules other).committed = (pool.granules other).committed ∧
      ((changeGranule index staleGranule pool).granules other).pinned = (pool.granules other).pinned := by
    intro other
    by_cases here : other = index
    · subst here
      rw [same]
      exact ⟨rfl,rfl⟩
    rw [others other here]
    exact ⟨rfl,rfl⟩
  refine sound.unlisted rfl others (by rw [same]; rfl) ?_ ?_ ?_ ?_
  · rw [same]
    exact sound.held index
  · rw [same]
    exact busy
  · exact sound.committed.trans (tally_congr (fun other _ => (flags other).1)).symm
  exact sound.pinned.trans (tally_congr (fun other _ => (flags other).2)).symm

/-- The answer to a release decides whether its candidate stays on the list. -/
private theorem sound_answered {before after : List Nat} (sound : Sound (before ++ index :: after) exempt pool)
    (free : releasable (pool.granules index) = true) (result : Release) :
    Sound (if verdictOf result = .keeps then before ++ index :: after else before ++ after) exempt (answered index pool result) := by
  have within : index < pool.count.toNat :=
    sound.inside index ((sound.flagged index).mpr (mem_append_right _ mem_cons_self))
  have small := sound.small
  have one : (1 : U64).toNat = 1 := rfl
  obtain ⟨isCommitted,unpinned,unowned,-⟩ := (releasable_iff _).mp free
  cases result with
  | released =>
    have same := changeGranule_same index releasedGranule pool
    have others : ∀ other, other ≠ index → (changeGranule index releasedGranule pool).granules other = pool.granules other :=
      fun other apart => changeGranule_other apart _ _
    refine sound.unlisted rfl others ?_ ?_ ?_ ?_ ?_
    · exact congrArg Granule.candidate same
    · have idle : ((changeGranule index releasedGranule pool).granules index).owner = none ∧
          ((changeGranule index releasedGranule pool).granules index).pinned = false := by
        rw [same]
        exact ⟨unowned,unpinned⟩
      rintro (owner | pinned)
      · exact absurd idle.1 owner
      exact absurd (idle.2.symm.trans pinned) nofun
    · exact (congrArg releasable same).trans (by simp [releasable,releasedGranule])
    · have counted : tally (fun other => (pool.granules other).committed) pool.count.toNat =
          tally (fun other => ((changeGranule index releasedGranule pool).granules other).committed) pool.count.toNat + 1 := by
        refine tally_set within ?_ isCommitted (fun other apart => ?_)
        · rw [same]
          rfl
        rw [others other apart]
      have before := sound.committed
      have bound := pool.committedGranules.isLt
      have less : (pool.committedGranules - 1).toNat = pool.committedGranules.toNat - 1 := by
        rw [toNat_sub,one]
        omega
      refine less.trans ?_
      rw [before,counted]
      rfl
    refine sound.pinned.trans (tally_congr (fun other _ => ?_)).symm
    by_cases here : other = index
    · subst here
      exact (congrArg Granule.pinned same).trans rfl
    exact congrArg Granule.pinned (others other here)
  | busy => exact sound
  | failed =>
  have same := changeGranule_same index keptGranule pool
  have others : ∀ other, other ≠ index → (changeGranule index keptGranule pool).granules other = pool.granules other :=
    fun other apart => changeGranule_other apart _ _
  refine sound.unlisted rfl others ?_ ?_ ?_ ?_ ?_
  · exact congrArg Granule.candidate same
  · exact fun _ => (congrArg Granule.committed same).trans isCommitted
  · exact (congrArg releasable same).trans (by simp [releasable,keptGranule])
  · refine sound.committed.trans (tally_congr (fun other _ => ?_)).symm
    by_cases here : other = index
    · subst here
      exact (congrArg Granule.committed same).trans rfl
    exact congrArg Granule.committed (others other here)
  have counted : tally (fun other => ((changeGranule index keptGranule pool).granules other).pinned) pool.count.toNat =
      tally (fun other => (pool.granules other).pinned) pool.count.toNat + 1 := by
    refine tally_set within unpinned ?_ (fun other apart => ?_)
    · rw [same]
      rfl
    rw [others other apart]
  have bound := tally_le (fun other => (pool.granules other).pinned) pool.count.toNat
  have added : (pool.pinnedGranules + 1).toNat = pool.pinnedGranules.toNat + 1 := by
    rw [toNat_add,sound.pinned,one]
    omega
  refine added.trans ?_
  rw [sound.pinned]
  exact counted.symm

/-- What a turn of the reclaim leaves. -/
structure Turned (before after : List Nat) (index : Nat) (exempt : Nat → Prop) (pool : Pool) (verdict : Verdict) (left : Pool) : Prop where
  candidateList : left.candidateList = pool.candidateList
  sound : Sound (if verdict = .keeps then before ++ index :: after else before ++ after) exempt left

variable (aged : Option U64)

private theorem sound_reclaimOne {before after : List Nat} (sound : Sound (before ++ index :: after) exempt world.pool) :
    Gives (reclaimOne io aged index) world (fun verdict left => Turned before after index exempt world.pool verdict left.pool) := by
  refine (reclaimOne_cases io aged index world).mono (fun verdict left turn => ?_)
  cases turn with
  | stale busy pool => exact ⟨by rw [pool]; rfl,pool ▸ sound_stale sound busy⟩
  | kept since pool => exact ⟨by rw [pool]; rfl,pool ▸ sound_idleFrom sound index since⟩
  | asked since result free _ pool =>
  have idle := sound_idleFrom sound index since
  refine ⟨?_,pool ▸ sound_answered idle ?_ result⟩
  · rw [pool]
    cases result with
    | _ => rfl
  rw [changeGranule_same]
  exact free

/-- The loop closes the gaps of its list in place: what is kept stands before what is not read yet. -/
private theorem sound_reclaimLoop {read kept released : Nat} (order : kept ≤ read)
    (sound : Sound (cells world.pool.candidateList kept ++ (List.range turns).map (fun j => world.pool.candidateList (read + j)))
      exempt world.pool) : Gives (reclaimLoop io aged turns read kept released) world (fun ends left =>
      Sound (cells left.pool.candidateList ends.1) exempt left.pool) := by
  induction turns generalizing read kept released world with
  | zero =>
    rw [range_zero,map_nil,append_nil] at sound
    exact sound
  | succ turns ih =>
  unfold reclaimLoop
  rw [map_range_add] at sound
  rw [gives_bind,gives_get]
  refine (sound_reclaimOne io aged sound).bind (fun verdict middle turned => ?_)
  obtain ⟨same,sound'⟩ := turned
  cases verdict with
  | drops | releases =>
    rw [if_neg (by decide),← same] at sound'
    exact ih (by omega) sound'
  | keeps =>
  rw [if_pos rfl,← same] at sound'
  refine ih (by omega) ?_
  have moved : cells (update middle.pool.candidateList kept (world.pool.candidateList read)) (kept + 1) =
      cells middle.pool.candidateList kept ++ [world.pool.candidateList read] := cells_push _ _ _
  have unread : (range turns).map
        (fun j => update middle.pool.candidateList kept (world.pool.candidateList read) (read + 1 + j)) =
      (range turns).map (fun j => middle.pool.candidateList (read + 1 + j)) :=
    map_congr_left (fun j _ => update_of_ne (by omega) _ _)
  simp only [moved,unread,append_assoc,singleton_append]
  rw [← same]
  exact sound'.kept ⟨rfl,rfl,rfl,fun _ => ⟨rfl,rfl,rfl⟩⟩ (fun other owner => sound'.held other (.inl owner))
    (fun other free => sound'.waiting other free)

theorem sound_reclaim (sound : SoundPool exempt world.pool) :
    Gives (reclaim io aged) world (fun _ left => SoundPool exempt left.pool) := by
  unfold reclaim
  rw [gives_bind,gives_get,gives_bind]
  have start : Sound (cells world.pool.candidateList 0 ++
      (range world.pool.candidates).map (fun j => world.pool.candidateList (0 + j))) exempt world.pool := by
    simp only [cells_zero,nil_append,Nat.zero_add]
    exact sound
  refine (sound_reclaimLoop io aged (Nat.le_refl 0) start).mono (fun ends left sound' => ?_)
  exact sound'.kept ⟨rfl,rfl,rfl,fun _ => ⟨rfl,rfl,rfl⟩⟩ (fun other owner => sound'.held other (.inl owner))
    (fun other free => sound'.waiting other free)

private theorem placeable_within {base bytes : U64} (valid : placeable pool base bytes = true) :
    (base / granuleBytes).toNat + (bytes / granuleBytes).toNat ≤ pool.count.toNat := by
  simp only [placeable,decide_eq_true_eq] at valid
  obtain ⟨-,-,fits,within⟩ := valid
  have size : granuleBytes.toNat = 65536 := rfl
  have bound := le_def.mp fits
  rw [toNat_sub,toNat_not,show (0 : U64).toNat = 0 from rfl] at bound
  have sum : (base + bytes).toNat = base.toNat + bytes.toNat := by
    rw [toNat_add]
    omega
  have ends := le_def.mp within
  rw [toNat_udiv,sum,size] at ends
  rw [toNat_udiv,toNat_udiv,size]
  omega

theorem disown_count (owner : Nat) (pool : Pool) : (disown owner pool).count = pool.count := by
  refine forRange_keeps (disownOne owner) (fun _ (left : Pool) => left.count = pool.count) rfl (fun index left _ _ same => ?_)
  unfold disownOne
  split
  · exact (consider_count index _).trans same
  exact same

theorem killRange_count (first turns : Nat) (pool : Pool) : (forRange killOne first turns pool).count = pool.count := by
  refine forRange_keeps killOne (fun _ (left : Pool) => left.count = pool.count) rfl (fun index left _ _ same => ?_)
  unfold killOne
  split
  · exact same
  exact (disown_count _ left).trans same

private theorem sound_place (sound : SoundPool exempt world.pool) (owner : Nat) (base bytes : U64) :
    Gives (place io owner base bytes) world (fun _ left => SoundPool exempt left.pool) := by
  unfold place
  rw [gives_bind,gives_get,gives_ite,gives_ite]
  refine ⟨fun _ => sound,fun valid => ⟨fun _ => sound,fun _ => ?_⟩⟩
  have within := placeable_within (not_not.mp valid)
  simp only [gives_bind,gives_changePool]
  obtain ⟨start,isStart,vacates⟩ := vacated owner world.pool
  rw [isStart]
  have moved : SoundPool exempt start ∧ start.count = world.pool.count := by
    rcases vacates with rfl | ⟨rfl,_⟩
    · exact ⟨sound_disown sound owner,disown_count owner world.pool⟩
    exact ⟨sound,rfl⟩
  generalize (base / granuleBytes).toNat = first at within ⊢
  generalize (bytes / granuleBytes).toNat = turns at within ⊢
  have killed : SoundPool exempt (forRange killOne first turns start) :=
    forRange_keeps killOne (fun _ (left : Pool) => SoundPool exempt left) moved.1 (fun index _ _ _ here => sound_killOne here index)
  have counted : (forRange killOne first turns start).count = world.pool.count := (killRange_count _ _ _).trans moved.2
  have working : SoundPool (fun other => exempt other ∨ first ≤ other ∧ other < first + turns) (forRange killOne first turns start) :=
    killed.weaken (fun _ is => .inl is)
  have inside : first + turns ≤ (forRange killOne first turns start).count.toNat := by
    rw [counted]
    exact within
  have runs := @sound_commitRuns exempt io first (first + turns) turns first { world with pool := forRange killOne first turns start }
    working inside (Nat.le_refl first) (fun other low high => absurd (Nat.lt_of_le_of_lt low high) (Nat.lt_irrefl _)) (Nat.le_refl _)
  refine runs.mono (fun done left ends => ?_)
  rw [gives_ite,gives_bind,gives_changePool,gives_pure,gives_pure]
  refine ⟨fun failed => ends.failed (Bool.eq_false_iff.mpr failed),fun succeeded => ?_⟩
  obtain ⟨sound',committed⟩ := ends.succeeded (not_not.mp succeeded)
  exact sound_setPlacement (sound_ownRange sound' committed owner) owner _

private theorem sound_record (sound : SoundPool exempt world.pool) (offset bytes seq : U64) :
    Gives (record offset bytes seq) world (fun _ left => SoundPool exempt left.pool) := by
  refine forRange_keeps (fun index => changeGranule index (recordGranule seq)) (fun _ (left : Pool) => SoundPool exempt left) sound
    (fun index left _ _ here => ?_)
  exact here.change ⟨rfl,rfl,rfl⟩ (fun owner => here.held index (.inl owner)) (fun free => here.waiting index free) (fun _ _ is => is)

theorem sound_act (request : Request) (sound : SoundPool exempt world.pool)
    (keeps : ∀ offset delta, request = .pagingRef offset delta → RefsWrap world.pool offset delta →
      exempt (offset / granuleBytes).toNat) :
    Gives (act io request) world (fun _ left => SoundPool exempt left.pool) := by
  cases request with
  | place owner base bytes => exact sound_place io sound owner base bytes
  | unplace owner =>
    unfold act unplace
    rw [gives_changePool]
    split
    · exact sound
    exact sound_disown sound owner
  | pin offset bytes => exact sound_pin io sound offset bytes
  | pagingRef offset delta => exact sound_pagingRef sound offset delta (keeps offset delta rfl)
  | record offset bytes seq => exact sound_record sound offset bytes seq
  | executed seq =>
    exact sound.kept ⟨rfl,rfl,rfl,fun _ => ⟨rfl,rfl,rfl⟩⟩ (fun other owner => sound.held other (.inl owner))
      (fun other free => sound.waiting other free)
  | reclaim => exact sound_reclaim io none sound
  | reclaimAged now => exact sound_reclaim io (some now) sound

theorem demandInit_cases {releaseDelay maxRun : U64} (made : demandInit count releaseDelay maxRun = some world) :
    count.toNat < 2 ^ 48 ∧
      world = ⟨⟨fun _ => noGranule,fun _ => 0,fun _ => ⟨0,0⟩,count,0,0,false,releaseDelay,maxRun,0,0⟩,0,[]⟩ := by
  unfold demandInit at made
  split at made
  · cases made
  rename_i valid
  have bound := le_def.mp (BitVec.not_lt.mp (not_or.mp valid).2)
  rw [toNat_udiv,toNat_not,show (0 : U64).toNat = 0 from rfl,show granuleBytes.toNat = 65536 from rfl] at bound
  exact ⟨by omega,(Option.some.inj made).symm⟩

theorem sound_demandInit {releaseDelay maxRun : U64} (made : demandInit count releaseDelay maxRun = some world) :
    SoundPool exempt world.pool := by
  obtain ⟨small,rfl⟩ := demandInit_cases made
  have empty : tally (fun _ => false) count.toNat = 0 := by simp [tally]
  refine ⟨small,nodup_nil,fun index => ⟨fun held => ?_,fun held => ?_⟩,fun index held => ?_,fun index held => ?_,
    fun index holds => ?_,fun index held => ?_,?_,?_⟩
  · cases held
  · cases held
  · cases held
  · cases held
  · rcases holds with same | held
    · exact absurd rfl same
    cases held
  · cases held
  · exact empty.symm
  exact empty.symm

end WindowsOnM1.PoolDemandSound
