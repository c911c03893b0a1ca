import WindowsOnM1.PoolDemandSound

/-!
The placements own the granules of their ranges, and with the list and the counts that is
what holds of the demand pool in every run in which no counter of paging references wraps.
-/
namespace WindowsOnM1.PoolDemandOwners
open ArrayCells Actions CountedLoop Tallies PoolDemandModel Function
open PoolDemandSteps PoolDemandSound

/-- A granule of the range of a placement. -/
def InRange (placement : Placement) (index : Nat) : Prop :=
  (placement.base / granuleBytes).toNat ≤ index ∧
    index < (placement.base / granuleBytes).toNat + (placement.bytes / granuleBytes).toNat
instance (placement : Placement) (index : Nat) : Decidable (InRange placement index) := inferInstanceAs (Decidable (_ ∧ _))
structure Owned (pool : Pool) : Prop where
  valid : ∀ owner, (pool.placements owner).bytes ≠ 0 →
    placeable pool (pool.placements owner).base (pool.placements owner).bytes = true
  owns : ∀ owner index, (pool.granules index).owner = some owner ↔ InRange (pool.placements owner) index

variable {pool left : Pool}

theorem not_inRange_empty {placement : Placement} (empty : placement.bytes = 0) (index : Nat) : ¬ InRange placement index := by
  intro inRange
  obtain ⟨low,high⟩ := inRange
  rw [empty,show ((0 : U64) / granuleBytes).toNat = 0 from rfl] at high
  omega

/-- The owners and their placements are as before. -/
structure OwnersKept (pool left : Pool) : Prop where
  count : left.count = pool.count
  placements : left.placements = pool.placements
  granules : ∀ index, (left.granules index).owner = (pool.granules index).owner

theorem OwnersKept.refl (pool : Pool) : OwnersKept pool pool := ⟨rfl,rfl,fun _ => rfl⟩
theorem OwnersKept.trans {pool middle left : Pool} (first : OwnersKept pool middle) (second : OwnersKept middle left) :
    OwnersKept pool left :=
  ⟨second.count.trans first.count,second.placements.trans first.placements,
    fun index => (second.granules index).trans (first.granules index)⟩
theorem placeable_count (same : left.count = pool.count) (base bytes : U64) : placeable left base bytes = placeable pool base bytes := by
  unfold placeable
  rw [same]

theorem Owned.kept (owned : Owned pool) (kept : OwnersKept pool left) : Owned left := by
  refine ⟨fun owner live => ?_,fun owner index => ?_⟩
  · rw [placeable_count kept.count,kept.placements]
    rw [kept.placements] at live
    exact owned.valid owner live
  rw [kept.granules,kept.placements]
  exact owned.owns owner index

private theorem ownersKept_forRange {body : Nat → Pool → Pool} (turn : ∀ index pool, OwnersKept pool (body index pool)) (first turns : Nat)
    (pool : Pool) : OwnersKept pool (forRange body first turns pool) :=
  forRange_keeps body (fun _ left => OwnersKept pool left) (.refl pool) (fun index left _ _ kept => kept.trans (turn index left))

variable (index : Nat)

theorem ownersKept_change (change : Granule → Granule) (keeps : ∀ granule, (change granule).owner = granule.owner)
    (pool : Pool) : OwnersKept pool (changeGranule index change pool) := by
  refine ⟨rfl,rfl,fun other => ?_⟩
  by_cases same : other = index
  · subst same
    rw [changeGranule_same]
    exact keeps _
  rw [changeGranule_other same]

theorem ownersKept_consider (pool : Pool) : OwnersKept pool (consider index pool) := by
  refine ⟨consider_count index pool,?_,fun other => ?_⟩
  · rw [consider_eq]
    split
    · rfl
    rfl
  obtain ⟨candidate,same⟩ := consider_granule index pool other
  rw [same]

variable (owner : Nat)

private theorem disownOne_owner (index : Nat) (pool : Pool) (other : Nat) : ((disownOne owner index pool).granules other).owner =
    if other = index ∧ (pool.granules other).owner = some owner then none else (pool.granules other).owner := by
  unfold disownOne
  split
  · rename_i owns
    rw [(ownersKept_consider index _).granules]
    by_cases same : other = index
    · subst same
      rw [changeGranule_same,if_pos ⟨rfl,owns⟩]
    rw [changeGranule_other same,if_neg (fun here => same here.1)]
  rename_i others
  rw [if_neg]
  rintro ⟨rfl,owns⟩
  exact others owns

private theorem disownOne_kept (index : Nat) (pool : Pool) :
    (disownOne owner index pool).count = pool.count ∧ (disownOne owner index pool).placements = pool.placements := by
  unfold disownOne
  split
  · have kept := ownersKept_consider index (changeGranule index (fun granule => { granule with owner := none }) pool)
    exact ⟨kept.count,kept.placements⟩
  exact ⟨rfl,rfl⟩

/-- What `Disown` leaves. -/
theorem disown_owner (pool : Pool) (index : Nat) : ((disown owner pool).granules index).owner =
    if InRange (pool.placements owner) index ∧ (pool.granules index).owner = some owner then none else (pool.granules index).owner := by
  refine forRange_keeps (disownOne owner) (fun next (left : Pool) => (left.granules index).owner =
    if ((pool.placements owner).base / granuleBytes).toNat ≤ index ∧ index < next ∧ (pool.granules index).owner = some owner
      then none else (pool.granules index).owner) ?_ (fun i left above below kept => ?_) |>.trans ?_
  · rw [if_neg (by omega)]
  · rw [disownOne_owner]
    by_cases here : index = i
    · subst here
      rw [if_neg (by omega)] at kept
      rw [kept]
      by_cases owns : (pool.granules index).owner = some owner
      · rw [if_pos ⟨rfl,owns⟩,if_pos ⟨above,by omega,owns⟩]
      rw [if_neg (fun both => owns both.2),if_neg (fun all => owns all.2.2)]
    rw [if_neg (fun both => here both.1),kept]
    split
    · rename_i before
      rw [if_pos ⟨before.1,by omega,before.2.2⟩]
    rename_i before
    rw [if_neg (fun all => before ⟨all.1,by omega,all.2.2⟩)]
  simp only [InRange,and_assoc]

theorem disown_placements (pool : Pool) :
    (disown owner pool).placements = Function.update pool.placements owner ⟨0,0⟩ := by
  have kept : (forRange (disownOne owner) ((pool.placements owner).base / granuleBytes).toNat
      ((pool.placements owner).bytes / granuleBytes).toNat pool).placements = pool.placements :=
    forRange_keeps (disownOne owner) (fun _ (left : Pool) => left.placements = pool.placements) rfl
      (fun index left _ _ same => (disownOne_kept owner index left).2.trans same)
  unfold disown setPlacement
  simp only [kept]

theorem owned_disown (owned : Owned pool) (owner : Nat) : Owned (disown owner pool) := by
  have gone : ∀ index, ((disown owner pool).granules index).owner =
      if (pool.granules index).owner = some owner then none else (pool.granules index).owner := by
    intro index
    rw [disown_owner]
    by_cases owns : (pool.granules index).owner = some owner
    · rw [if_pos ⟨(owned.owns owner index).mp owns,owns⟩,if_pos owns]
    rw [if_neg (fun both => owns both.2),if_neg owns]
  refine ⟨fun other live => ?_,fun other index => ?_⟩
  · rw [placeable_count (disown_count owner pool)]
    rw [disown_placements] at live ⊢
    by_cases same : other = owner
    · subst same
      rw [update_self] at live
      exact absurd rfl live
    rw [update_of_ne same] at live ⊢
    exact owned.valid other live
  rw [gone,disown_placements]
  by_cases same : other = owner
  · subst same
    rw [update_self]
    refine ⟨fun owns => ?_,fun inRange => absurd inRange (not_inRange_empty rfl index)⟩
    split at owns
    · cases owns
    contradiction
  rw [update_of_ne same,← owned.owns other index]
  split
  · rename_i owns
    rw [owns]
    exact ⟨nofun,fun other' => absurd (Option.some.inj other').symm same⟩
  rfl

private theorem disown_none {owner index : Nat} (none : (pool.granules index).owner = none) : ((disown owner pool).granules index).owner = .none := by
  rw [disown_owner,none]
  split
  · rfl
  rfl

private theorem disown_empty {owner other : Nat} (empty : (pool.placements other).bytes = 0) : ((disown owner pool).placements other).bytes = 0 := by
  rw [disown_placements]
  by_cases same : other = owner
  · subst same
    rw [update_self]
  rw [update_of_ne same]
  exact empty

/-- The range of a new placement is free once its stale owners are gone. -/
structure Freed (owner first next : Nat) (pool : Pool) : Prop where
  owned : Owned pool
  empty : (pool.placements owner).bytes = 0
  free : ∀ index, first ≤ index → index < next → (pool.granules index).owner = none

private theorem freed_killRange {owner first turns : Nat} (owned : Owned pool) (empty : (pool.placements owner).bytes = 0) :
    Freed owner first (first + turns) (forRange killOne first turns pool) := by
  refine forRange_keeps killOne (fun next (left : Pool) => Freed owner first next left)
    ⟨owned,empty,fun index low high => absurd (Nat.lt_of_le_of_lt low high) (Nat.lt_irrefl _)⟩ (fun index left _ _ here => ?_)
  obtain ⟨owned,empty,free⟩ := here
  unfold killOne
  cases found : (left.granules index).owner with
  | none =>
    refine ⟨owned,empty,fun other low high => ?_⟩
    by_cases last : other = index
    · exact last ▸ found
    exact free other low (by omega)
  | some stale =>
  refine ⟨owned_disown owned stale,disown_empty empty,fun other low high => ?_⟩
  by_cases last : other = index
  · subst last
    rw [disown_owner,if_pos ⟨(owned.owns stale other).mp found,found⟩]
  exact disown_none (free other low (by omega))

private theorem ownRange_owner (first turns : Nat) (pool : Pool) (index : Nat) :
    ((forRange (ownOne owner) first turns pool).granules index).owner =
      if first ≤ index ∧ index < first + turns then some owner else (pool.granules index).owner := by
  have range := changeRange_apply (fun granule => { granule with owner := some owner, idleSince := 0 }) first turns pool index
  refine (congrArg Granule.owner range).trans ?_
  split
  · rfl
  rfl

private theorem owned_ownRange {owner : Nat} {base bytes : U64} (valid : placeable pool base bytes = true)
    (freed : Freed owner (base / granuleBytes).toNat ((base / granuleBytes).toNat + (bytes / granuleBytes).toNat) pool) :
    Owned (setPlacement owner ⟨base,bytes⟩ (forRange (ownOne owner) (base / granuleBytes).toNat (bytes / granuleBytes).toNat pool)) := by
  obtain ⟨owned,empty,free⟩ := freed
  have ranges := changeRange_pool (fun granule => { granule with owner := some owner, idleSince := 0 })
    (base / granuleBytes).toNat (bytes / granuleBytes).toNat pool
  have placements : (setPlacement owner ⟨base,bytes⟩ (forRange (ownOne owner) (base / granuleBytes).toNat
      (bytes / granuleBytes).toNat pool)).placements = update pool.placements owner ⟨base,bytes⟩ := by
    have kept := congrArg Pool.placements ranges
    exact congrArg (fun placements => update placements owner (Placement.mk base bytes)) kept
  have count : (setPlacement owner ⟨base,bytes⟩ (forRange (ownOne owner) (base / granuleBytes).toNat
      (bytes / granuleBytes).toNat pool)).count = pool.count := (congrArg Pool.count ranges :)
  refine ⟨fun other live => ?_,fun other index => ?_⟩
  · rw [placeable_count count]
    rw [placements] at live ⊢
    by_cases same : other = owner
    · subst same
      rw [update_self]
      exact valid
    rw [update_of_ne same] at live ⊢
    exact owned.valid other live
  rw [placements]
  have owners : ((forRange (ownOne owner) (base / granuleBytes).toNat (bytes / granuleBytes).toNat pool).granules index).owner =
      if InRange ⟨base,bytes⟩ index then some owner else (pool.granules index).owner := ownRange_owner owner _ _ pool index
  refine (Eq.congr_left owners).trans ?_
  split
  · rename_i inRange
    by_cases same : other = owner
    · subst same
      rw [update_self]
      exact ⟨fun _ => inRange,fun _ => rfl⟩
    rw [update_of_ne same,← owned.owns other index,free index inRange.1 inRange.2]
    exact ⟨fun wrong => absurd (Option.some.inj wrong).symm same,nofun⟩
  rename_i inRange
  by_cases same : other = owner
  · subst same
    rw [update_self,owned.owns other index]
    exact ⟨fun wrong => absurd wrong (not_inRange_empty empty index),fun wrong => absurd wrong inRange⟩
  rw [update_of_ne same]
  exact owned.owns other index

private theorem ownersKept_withRun (first count : Nat) (pool : Pool) : OwnersKept pool (withRun first count pool) := by
  refine ⟨by rw [withRun_pool],by rw [withRun_pool],fun index => ?_⟩
  rw [withRun_granules]
  split
  · rfl
  rfl

variable (io : PoolIo)

theorem ownersKept_commitRun (first count : Nat) (world : World) :
    Gives (commitRun io first count) world (fun _ left => OwnersKept world.pool left.pool) := by
  refine (gives_commitRun io first count world).mono (fun done left leaves => ?_)
  rw [leaves]
  split
  · exact ownersKept_withRun first count world.pool
  exact .refl _

theorem owners_onward : Onward OwnersKept (fun world left => OwnersKept world.pool left.pool) where
  refl := .refl
  trans := .trans
  still := fun kept _ => kept
  next := .trans
  considers := ownersKept_consider

variable {world : World}

private theorem owned_place (owned : Owned world.pool) (owner : Nat) (base bytes : U64) :
    Gives (place io owner base bytes) world (fun _ left => Owned left.pool) := by
  unfold place
  rw [gives_bind,gives_get,gives_ite,gives_ite]
  refine ⟨fun _ => owned,fun valid => ⟨fun _ => owned,fun _ => ?_⟩⟩
  simp only [gives_bind,gives_changePool]
  obtain ⟨start,isStart,vacates⟩ := vacated owner world.pool
  rw [isStart]
  have moved : Owned start ∧ (start.placements owner).bytes = 0 ∧ start.count = world.pool.count := by
    rcases vacates with rfl | ⟨rfl,empty⟩
    · refine ⟨owned_disown owned owner,?_,disown_count owner world.pool⟩
      rw [disown_placements,update_self]
    exact ⟨owned,empty,rfl⟩
  have freed := @freed_killRange start owner (base / granuleBytes).toNat (bytes / granuleBytes).toNat moved.1 moved.2.1
  have counted : (forRange killOne (base / granuleBytes).toNat (bytes / granuleBytes).toNat start).count = world.pool.count :=
    (killRange_count _ _ _).trans moved.2.2
  refine (owners_onward.commitRuns (ownersKept_commitRun io) _ _ _ _ _).mono (fun done left kept => ?_)
  rw [gives_ite,gives_bind,gives_changePool,gives_pure,gives_pure]
  refine ⟨fun _ => freed.owned.kept kept,fun _ => owned_ownRange ?_ ⟨freed.owned.kept kept,?_,fun index low high => ?_⟩⟩
  · rw [placeable_count (kept.count.trans counted)]
    exact not_not.mp valid
  · rw [kept.placements]
    exact freed.empty
  rw [kept.granules]
  exact freed.free index low high

private theorem ownersKept_pinGranule (pool : Pool) : OwnersKept pool (pinGranule index pool) := by
  have marked : OwnersKept pool (changeGranule index (fun granule => { granule with pinned := true }) pool) := by
    refine ownersKept_change index _ ?_ pool
    exact fun _ => rfl
  unfold pinGranule
  split
  · exact .refl pool
  exact { marked with }

private theorem ownersKept_pagingRef (offset : U64) (delta : Int) (world : World) :
    Gives (pagingRef offset delta) world (fun _ left => OwnersKept world.pool left.pool) := by
  have changed : ∀ change : Granule → Granule, (∀ granule, (change granule).owner = granule.owner) →
      OwnersKept world.pool (changeGranule (offset / granuleBytes).toNat change world.pool) :=
    fun change keeps => ownersKept_change _ change keeps world.pool
  unfold pagingRef
  rw [gives_changePool]
  simp only
  split
  · exact .refl _
  split
  · refine changed _ ?_
    exact fun _ => rfl
  split
  · split
    · exact .refl _
    have fewer := changed (fun granule => { granule with pagingRefs := granule.pagingRefs - 1 }) (fun _ => rfl)
    split
    · exact fewer.trans (ownersKept_consider _ _)
    exact fewer
  exact .refl _

private theorem ownersKept_answered (pool : Pool) (result : Release) : OwnersKept pool (answered index pool result) := by
  cases result with
  | released =>
    have kept := ownersKept_change index releasedGranule (fun _ => rfl) pool
    exact { kept with }
  | busy => exact .refl pool
  | failed =>
  have kept := ownersKept_change index keptGranule (fun _ => rfl) pool
  exact { kept with }

variable (aged : Option U64)

private theorem ownersKept_reclaimOne (index : Nat) (world : World) :
    Gives (reclaimOne io aged index) world (fun _ left => OwnersKept world.pool left.pool) := by
  refine (reclaimOne_cases io aged _ world).mono (fun verdict left turn => ?_)
  cases turn with
  | stale _ pool => exact pool ▸ ownersKept_change _ staleGranule (fun _ => rfl) world.pool
  | kept since pool => exact pool ▸ ownersKept_change _ (idleFrom since) (fun _ => rfl) world.pool
  | asked since result _ _ pool =>
  exact pool ▸ (ownersKept_change _ (idleFrom since) (fun _ => rfl) world.pool).trans (ownersKept_answered _ _ result)

theorem owned_reclaim (owned : Owned world.pool) : Gives (reclaim io aged) world (fun _ left => Owned left.pool) := by
  unfold reclaim
  rw [gives_bind,gives_get,gives_bind]
  refine (owners_onward.reclaimLoop (ownersKept_reclaimOne io aged) (fun _ _ => ⟨rfl,rfl,fun _ => rfl⟩) _ 0 0 0 world).mono
    (fun ends left kept => ?_)
  exact owned.kept { kept with }

private theorem owned_act (request : Request) (owned : Owned world.pool) :
    Gives (act io request) world (fun _ left => Owned left.pool) := by
  cases request with
  | place owner base bytes => exact owned_place io owned owner base bytes
  | unplace owner =>
    unfold act unplace
    rw [gives_changePool]
    split
    · exact owned
    exact owned_disown owned owner
  | pin offset bytes =>
    have pins := owners_onward.pin (ownersKept_commitRun io) ownersKept_pinGranule offset bytes world
    exact pins.mono (fun _ _ kept => owned.kept kept)
  | pagingRef offset delta => exact (ownersKept_pagingRef offset delta world).mono (fun _ _ kept => owned.kept kept)
  | record offset bytes seq =>
    refine owned.kept (ownersKept_forRange (fun index pool => ?_) _ _ world.pool)
    refine ownersKept_change index (recordGranule seq) ?_ pool
    exact fun _ => rfl
  | executed seq => exact owned.kept ⟨rfl,rfl,fun _ => rfl⟩
  | reclaim => exact owned_reclaim io none owned
  | reclaimAged now => exact owned_reclaim io (some now) owned

structure WellKept (pool : Pool) : Prop where
  owns : ∀ owner index, (pool.granules index).owner = some owner ↔ InRange (pool.placements owner) index
  placed : ∀ owner, (pool.placements owner).bytes ≠ 0 →
    placeable pool (pool.placements owner).base (pool.placements owner).bytes = true
  disjoint : ∀ owner other, owner ≠ other → ∀ index, ¬ (InRange (pool.placements owner) index ∧ InRange (pool.placements other) index)
  held : ∀ index, (pool.granules index).owner ≠ none ∨ (pool.granules index).pinned = true → (pool.granules index).committed = true
  onList : ∀ index, releasable (pool.granules index) = true → (cells pool.candidateList pool.candidates).count index = 1
  nodup : (cells pool.candidateList pool.candidates).Nodup
  bounded : pool.candidates ≤ pool.count.toNat
  committed : pool.committedGranules.toNat = tally (fun index => (pool.granules index).committed) pool.count.toNat
  pinned : pool.pinnedGranules.toNat = tally (fun index => (pool.granules index).pinned) pool.count.toNat

private theorem wellKept_of_sound (sound : SoundPool (fun _ => False) pool) (owned : Owned pool) : WellKept pool := by
  refine ⟨owned.owns,owned.valid,fun owner other apart index both => ?_,sound.held,fun index free => ?_,sound.nodup,?_,sound.committed,
    sound.pinned⟩
  · have mine := (owned.owns owner index).mpr both.1
    have theirs := (owned.owns other index).mpr both.2
    exact apart (Option.some.inj (mine.symm.trans theirs))
  · have waits := (sound.waiting index free).resolve_right id
    exact List.count_eq_one_of_mem sound.nodup ((sound.flagged index).mp waits)
  have inside : cells pool.candidateList pool.candidates ⊆ List.range pool.count.toNat :=
    fun index mem => List.mem_range.mpr (sound.inside index ((sound.flagged index).mpr mem))
  have lengths := (sound.nodup.subperm inside).length_le
  rwa [listed,cells_length,List.length_range] at lengths

/-- No counter of paging references comes back to zero and leaves a granule that nothing keeps off the list. -/
def RefsKept (request : Request) (world : World) : Prop :=
  ∀ offset delta, request = .pagingRef offset delta → ¬ RefsWrap world.pool offset delta

/-- In every run whose counters do not wrap the pool is well kept. -/
theorem pool_well_kept (io : PoolIo) {count releaseDelay maxRun : U64} {world : World} {requests : List Request}
    (made : demandInit count releaseDelay maxRun = some world) (every : EveryStep (act io) RefsKept requests world) :
    WellKept (runAll (act io) requests world).pool := by
  have step : ∀ request world, RefsKept request world → SoundPool (fun _ => False) world.pool ∧ Owned world.pool →
      Gives (act io request) world (fun _ left => SoundPool (fun _ => False) left.pool ∧ Owned left.pool) :=
    fun request world allowed both =>
      (sound_act io request both.1 (fun offset delta same wraps => allowed offset delta same wraps)).both (owned_act io request both.2)
  have start : SoundPool (fun _ => False) world.pool ∧ Owned world.pool := by
    refine ⟨sound_demandInit made,?_⟩
    obtain ⟨-,rfl⟩ := demandInit_cases made
    exact ⟨fun owner live => absurd rfl live,fun owner index =>
      ⟨nofun,fun inRange => absurd inRange (not_inRange_empty rfl index)⟩⟩
  obtain ⟨sound,owned⟩ := runAll_keeps step every start
  exact wellKept_of_sound sound owned

/-- The list is as before, and so is a granule apart from its references. -/
structure Referenced (index times : Nat) (pool left : Pool) : Prop where
  count : left.count = pool.count
  list : cells left.candidateList left.candidates = cells pool.candidateList pool.candidates
  granule : ∃ since, left.granules index =
    { pool.granules index with pagingRefs := (pool.granules index).pagingRefs + BitVec.ofNat 32 times, idleSince := since }

private theorem referenced_run {offset : U64} (times : Nat) (inside : offset / granuleBytes < world.pool.count) :
    Referenced (offset / granuleBytes).toNat times world.pool
      (runAll (act io) (List.replicate times (.pagingRef offset 1)) world).pool := by
  induction times generalizing world with
  | zero => exact ⟨rfl,rfl,(world.pool.granules (offset / granuleBytes).toNat).idleSince,by simp [runAll]⟩
  | succ times ih =>
  have one : Gives (act io (.pagingRef offset 1)) world (fun _ left => left.pool = changeGranule (offset / granuleBytes).toNat
      (fun granule => { granule with pagingRefs := granule.pagingRefs + 1, idleSince := 0 }) world.pool) := by
    unfold act pagingRef
    rw [gives_changePool]
    simp only
    rw [if_neg (BitVec.not_le.mpr inside),if_pos (by decide)]
  have counted := congrArg Pool.count one
  obtain ⟨count,list,since,granule⟩ := ih (lt_of_lt_of_eq inside counted.symm)
  rw [List.replicate_succ,runAll]
  refine ⟨count.trans counted,?_,since,?_⟩
  · refine list.trans ?_
    rw [one]
    rfl
  rw [granule,one,changeGranule_same]
  simp only [BitVec.ofNat_add,add_assoc,add_comm (1 : U32)]
  rfl

/-- After 2³² references a committed granule without an owner has none and is not on the list. -/
theorem references_leak : ∃ world, demandInit 8 0 0 = some world ∧
    ¬ WellKept (runAll (act obliging) ([.place 1 0 0x10000,.pagingRef 0 1,.unplace 1] ++
      List.replicate (2 ^ 32 - 1) (.pagingRef 0 1)) world).pool := by
  refine ⟨_,rfl,fun wellKept => ?_⟩
  rw [runAll_append] at wellKept
  generalize start : runAll (act obliging) [.place 1 0 0x10000,.pagingRef 0 1,.unplace 1] _ = world at wellKept
  have before : world.pool.count = 8 ∧ world.pool.candidates = 0 ∧
      world.pool.granules 0 = ⟨none,0,0,1,true,false,false,false⟩ := by
    subst start
    decide +kernel
  obtain ⟨counted,none,granule⟩ := before
  have inside : (0 : U64) / granuleBytes < world.pool.count := by
    rw [counted]
    decide
  obtain ⟨-,list,since,left⟩ := referenced_run obliging (2 ^ 32 - 1) inside
  have zero : ((0 : U64) / granuleBytes).toNat = 0 := rfl
  have wrapped : (1 : U32) + BitVec.ofNat 32 (2 ^ 32 - 1) = 0 := by decide
  rw [zero,granule,wrapped] at left
  have once := wellKept.onList 0 (by rw [left]; rfl)
  rw [list,none] at once
  cases once

theorem pool_well_kept_unplaced : ∃ world, demandInit 8 0 0 = some world ∧
    WellKept (runAll (act obliging) [.place 1 0 0x20000,.pagingRef 0 1,.unplace 1,.pagingRef 0 (-1),.reclaim] world).pool := by
  refine ⟨_,rfl,@pool_well_kept obliging 8 0 0 _ _ rfl ⟨nofun,?_,nofun,?_,nofun,trivial⟩⟩
  · rintro offset delta same ⟨-,-,-,last,-⟩
    obtain ⟨rfl,rfl⟩ := Request.pagingRef.inj same
    revert last
    decide +kernel
  rintro offset delta same ⟨up,-⟩
  obtain ⟨-,rfl⟩ := Request.pagingRef.inj same
  exact absurd up (by decide)

end WindowsOnM1.PoolDemandOwners
