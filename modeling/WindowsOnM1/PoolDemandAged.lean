import WindowsOnM1.PoolDemandRecords

/-!
The idle clocks of the granules: a granule whose clock runs has been releasable since the reclaim
that started the clock, and an aged reclaim releases it only after its delay. The pool is seen
between requests, since these run one at a time, and at the calls of its callbacks.
-/
namespace WindowsOnM1.PoolDemandAged
open Actions CountedLoop PoolDemandModel PoolDemandSteps List
open PoolDemandSound PoolDemandRecords

/-- The clock of a granule that is not pinned runs only while the granule is releasable. -/
def Idle (granule : Granule) : Prop := granule.idleSince ≠ 0 → granule.pinned = false → releasable granule = true

/-- A clock that runs behind some steps was running before them, or was started by the reclaim at some time. -/
def Ticks (aged : Option U64) (granule left : Granule) : Prop :=
  Idle granule → left.idleSince ≠ 0 → left.pinned = false → releasable left = true ∧
    ((releasable granule = true ∧ granule.idleSince = left.idleSince) ∨ aged = some (left.idleSince - 1))

section
variable {aged : Option U64} {granule middle left : Granule}

theorem Ticks.idle (ticks : Ticks aged granule left) (idle : Idle granule) : Idle left :=
  fun running unpinned => (ticks idle running unpinned).1
theorem Ticks.refl (aged : Option U64) (granule : Granule) : Ticks aged granule granule :=
  fun idle running unpinned => ⟨idle running unpinned,.inl ⟨idle running unpinned,rfl⟩⟩

theorem Ticks.trans (first : Ticks aged granule middle) (second : Ticks aged middle left) : Ticks aged granule left := by
  intro idle running unpinned
  obtain ⟨free,earlier | started⟩ := second (first.idle idle) running unpinned
  · obtain ⟨freeMiddle,same⟩ := earlier
    obtain ⟨-,before | started⟩ := first idle (same ▸ running) ((releasable_iff _).mp freeMiddle).2.1
    · exact ⟨free,.inl ⟨before.1,before.2.trans same⟩⟩
    exact ⟨free,.inr (same ▸ started)⟩
  exact ⟨free,.inr started⟩

theorem Ticks.stopped (stopped : left.idleSince = 0) : Ticks aged granule left := fun _ running => absurd stopped running
theorem Ticks.pinned (pinned : left.pinned = true) : Ticks aged granule left :=
  fun _ _ unpinned => by rw [pinned] at unpinned; cases unpinned

theorem Ticks.same (clock : left.idleSince = granule.idleSince) (pin : left.pinned = granule.pinned)
    (free : releasable granule = true → releasable left = true) : Ticks aged granule left := by
  intro idle running unpinned
  have before := idle (clock ▸ running) (pin ▸ unpinned)
  exact ⟨free before,.inl ⟨before,clock.symm⟩⟩

end

/-- The clocks of all granules, and the delay. -/
structure PoolTicks (aged : Option U64) (pool left : Pool) : Prop where
  delay : left.releaseDelay = pool.releaseDelay
  granules : ∀ index, Ticks aged (pool.granules index) (left.granules index)

section
variable {aged : Option U64} {pool middle left : Pool}

theorem PoolTicks.refl (aged : Option U64) (pool : Pool) : PoolTicks aged pool pool := ⟨rfl,fun _ => .refl aged _⟩
theorem PoolTicks.trans (first : PoolTicks aged pool middle) (second : PoolTicks aged middle left) : PoolTicks aged pool left :=
  ⟨second.delay.trans first.delay,fun index => (first.granules index).trans (second.granules index)⟩
theorem poolTicks_forRange {body : Nat → Pool → Pool} (turn : ∀ index pool, PoolTicks aged pool (body index pool)) (first turns : Nat)
    (pool : Pool) : PoolTicks aged pool (forRange body first turns pool) :=
  forRange_keeps body (fun _ left => PoolTicks aged pool left) (.refl aged pool) (fun index left _ _ kept => kept.trans (turn index left))

theorem poolTicks_change {index : Nat} {change : Granule → Granule} (ticks : Ticks aged (pool.granules index) (change (pool.granules index))) :
    PoolTicks aged pool (changeGranule index change pool) := by
  refine ⟨rfl,fun other => ?_⟩
  by_cases same : other = index
  · subst same
    rw [changeGranule_same]
    exact ticks
  rw [changeGranule_other same]
  exact .refl aged _

theorem poolTicks_consider (index : Nat) (pool : Pool) : PoolTicks aged pool (consider index pool) := by
  have granules : ∀ other, Ticks aged (pool.granules other) ((consider index pool).granules other) := by
    intro other
    obtain ⟨candidate,same⟩ := consider_granule index pool other
    rw [same]
    refine .same rfl rfl ?_
    exact fun free => free
  revert granules
  rw [consider_eq]
  split
  · exact fun granules => ⟨rfl,granules⟩
  exact fun _ => .refl aged pool

theorem poolTicks_disown (owner : Nat) (pool : Pool) : PoolTicks aged pool (disown owner pool) := by
  refine (poolTicks_forRange (fun index pool => ?_) _ _ pool).trans ⟨rfl,fun _ => .refl aged _⟩
  unfold disownOne
  split
  · refine PoolTicks.trans (poolTicks_change ?_) (poolTicks_consider index _)
    refine .same rfl rfl (fun free => ?_)
    obtain ⟨committed,unpinned,-,unused⟩ := (releasable_iff _).mp free
    exact (releasable_iff _).mpr ⟨committed,unpinned,rfl,unused⟩
  exact .refl aged pool

end

/-- What a release finds: a granule that is releasable, and whose clock has run for the delay. -/
structure Waited (aged : Option U64) (pool : Pool) (index : Nat) (granule : Granule) : Prop where
  ticks : Ticks aged (pool.granules index) granule
  running : granule.idleSince ≠ 0
  free : releasable granule = true
  delay : ∃ now, aged = some now ∧ ¬ now + 1 - granule.idleSince < pool.releaseDelay

/-- What a piece of a request leaves: its clocks, and releases that have waited. -/
def Waits (aged : Option U64) (world left : World) : Prop := PoolTicks aged world.pool left.pool ∧
  ∃ more, left.calls = world.calls ++ more ∧ ∀ index granule result, .release index granule result ∈ more →
    Waited aged world.pool index granule

section
variable {aged : Option U64} {world middle left : World}

theorem Waits.quiet (ticks : PoolTicks aged world.pool left.pool) {more : List Call} (calls : left.calls = world.calls ++ more)
    (none : ∀ index granule result, .release index granule result ∉ more) : Waits aged world left :=
  ⟨ticks,more,calls,fun index granule result mem => absurd mem (none index granule result)⟩
theorem Waits.still (ticks : PoolTicks aged world.pool left.pool) (calls : left.calls = world.calls) : Waits aged world left :=
  .quiet ticks (calls.trans (append_nil _).symm) (fun _ _ _ => not_mem_nil)
theorem Waits.refl (aged : Option U64) (world : World) : Waits aged world world := .still (.refl aged _) rfl

theorem Waits.trans (first : Waits aged world middle) (second : Waits aged middle left) : Waits aged world left := by
  obtain ⟨ticks,more,calls,waited⟩ := first
  obtain ⟨ticks',more',calls',waited'⟩ := second
  refine ⟨ticks.trans ticks',more ++ more',by rw [calls',calls,append_assoc],fun index granule result mem => ?_⟩
  rcases mem_append.mp mem with early | late
  · exact waited index granule result early
  obtain ⟨later,running,free,delay⟩ := waited' index granule result late
  exact ⟨(ticks.granules index).trans later,running,free,ticks.delay ▸ delay⟩

end

section
variable (io : PoolIo) (aged : Option U64)

theorem waits_commitRun (first count : Nat) (world : World) :
    Gives (commitRun io first count) world (fun _ left => Waits aged world left) := by
  unfold commitRun
  simp only [gives_bind,gives_call,gives_ite,gives_pure,gives_changePool]
  refine ⟨fun _ => .quiet (.refl aged _) rfl (by simp),fun _ => .quiet ?_ rfl (by simp)⟩
  have committed : PoolTicks aged world.pool (forRange (fun index => changeGranule index commitGranule) first count world.pool) := by
    refine poolTicks_forRange (fun index pool => poolTicks_change (.stopped ?_)) first count world.pool
    rfl
  exact ⟨committed.delay,committed.granules⟩

theorem waits_onward : Onward (PoolTicks aged) (Waits aged) where
  refl := .refl aged
  trans := .trans
  still := .still
  next := .trans
  considers := poolTicks_consider

private theorem waits_place (owner : Nat) (base bytes : U64) (world : World) :
    Gives (place io owner base bytes) world (fun _ left => Waits aged world left) := by
  refine (waits_onward aged).place (waits_commitRun io aged) poolTicks_disown (fun index pool => poolTicks_change (.stopped ?_))
    (fun _ => ⟨rfl,fun _ => .refl aged _⟩) world
  rfl

private theorem poolTicks_pinGranule (index : Nat) (pool : Pool) : PoolTicks aged pool (pinGranule index pool) := by
  unfold pinGranule
  split
  · exact .refl aged pool
  have pinned : PoolTicks aged pool (changeGranule index (fun granule => { granule with pinned := true }) pool) :=
    poolTicks_change (.pinned rfl)
  exact ⟨pinned.delay,pinned.granules⟩

private theorem waits_pagingRef (offset : U64) (delta : Int) (world : World) :
    Gives (pagingRef offset delta) world (fun _ left => Waits aged world left) := by
  unfold pagingRef
  rw [gives_changePool]
  refine .still ?_ rfl
  simp only
  split
  · exact .refl aged _
  split
  · exact poolTicks_change (.stopped rfl)
  split
  · split
    · exact .refl aged _
    rename_i referenced
    have fewer : PoolTicks aged world.pool
        (changeGranule (offset / granuleBytes).toNat (fun granule => { granule with pagingRefs := granule.pagingRefs - 1 }) world.pool) := by
      refine poolTicks_change (.same rfl rfl (fun free => ?_))
      exact absurd ((releasable_iff _).mp free).2.2.2 referenced
    split
    · exact fewer.trans (poolTicks_consider _ _)
    exact fewer
  exact .refl aged _

private theorem waits_record (offset bytes seq : U64) (world : World) :
    Gives (record offset bytes seq) world (fun _ left => Waits aged world left) := by
  refine .quiet ?_ rfl (by simp)
  refine poolTicks_forRange (fun index pool => poolTicks_change (.same rfl rfl ?_)) _ _ _
  exact fun free => free

private theorem waits_executed (seq : U64) (world : World) : Gives (executed seq) world (fun _ left => Waits aged world left) := by
  exact .quiet ⟨rfl,fun _ => .refl aged _⟩ rfl (by simp)

/-- A clock that is started now if it is stopped. -/
def clockFrom (now : U64) (granule : Granule) : U64 := if granule.idleSince = 0 then now + 1 else granule.idleSince

variable {now : U64}

private theorem ticks_clockFrom {granule : Granule} (free : releasable granule = true) :
    Ticks (some now) granule (idleFrom (clockFrom now granule) granule) := by
  intro _ _ _
  refine ⟨free,?_⟩
  by_cases stopped : granule.idleSince = 0
  · refine .inr ?_
    simp only [idleFrom,clockFrom,if_pos stopped]
    rw [BitVec.add_sub_cancel]
  exact .inl ⟨free,(if_neg stopped).symm⟩

private theorem clockFrom_ne_zero (small : now + 1 ≠ 0) (granule : Granule) : clockFrom now granule ≠ 0 := by
  unfold clockFrom
  split
  · exact small
  assumption

private theorem waits_reclaimOne (small : now + 1 ≠ 0) (index : Nat) (world : World) :
    Gives (reclaimOne io (some now) index) world (fun _ left => Waits (some now) world left) := by
  unfold reclaimOne
  rw [gives_bind,gives_get,gives_ite,gives_ite]
  refine ⟨fun _ => ?_,fun free => ⟨fun _ => .refl _ world,fun _ => ?_⟩⟩
  · have stale : PoolTicks (some now) world.pool (changeGranule index staleGranule world.pool) := poolTicks_change (.stopped rfl)
    exact .still stale rfl
  have releases : releasable (world.pool.granules index) = true := by
    simpa only [releasable,decide_eq_true_eq,not_or,not_not] using free
  have clock : PoolTicks (some now) world.pool
      (changeGranule index (idleFrom (clockFrom now (world.pool.granules index))) world.pool) :=
    poolTicks_change (ticks_clockFrom releases)
  simp only [waitsForDelay,gives_bind,gives_changePool,gives_get,gives_pure,gives_ite]
  refine ⟨fun _ => .still clock rfl,fun done => ?_⟩
  refine (gives_releaseOne io index _).mono (fun verdict left answer => ?_)
  obtain ⟨result,-,pool,calls⟩ := answer
  have settled : PoolTicks (some now) (changeGranule index (idleFrom (clockFrom now (world.pool.granules index))) world.pool)
      left.pool := by
    rw [pool]
    cases result with
    | released => exact ⟨rfl,(@poolTicks_change (some now) _ index releasedGranule (.stopped rfl)).granules⟩
    | busy => exact .refl _ _
    | failed => exact ⟨rfl,(@poolTicks_change (some now) _ index keptGranule (.pinned rfl)).granules⟩
  refine ⟨clock.trans settled,_,calls,fun other granule answer mem => ?_⟩
  obtain ⟨rfl,rfl,-⟩ := Call.release.inj (mem_singleton.mp mem)
  refine ⟨clock.granules other,?_,?_,now,rfl,?_⟩
  · rw [changeGranule_same]
    exact clockFrom_ne_zero small _
  · rw [changeGranule_same]
    exact releases
  exact of_decide_eq_false (Bool.eq_false_iff.mpr done)

def agedTime : Request → Option U64
  | .reclaimAged now => some now
  | _ => none

private theorem waits_act {request : Request} (aged : request ≠ .reclaim) (small : ∀ now, request = .reclaimAged now → now + 1 ≠ 0)
    (world : World) : Gives (act io request) world (fun _ left => Waits (agedTime request) world left) := by
  cases request with
  | place owner base bytes => exact waits_place io none owner base bytes world
  | unplace owner =>
    unfold act unplace
    rw [gives_changePool]
    refine .still ?_ rfl
    split
    · exact .refl _ _
    exact poolTicks_disown owner world.pool
  | pin offset bytes => exact (waits_onward none).pin (waits_commitRun io none) (poolTicks_pinGranule none) offset bytes world
  | pagingRef offset delta => exact waits_pagingRef none offset delta world
  | record offset bytes seq => exact waits_record none offset bytes seq world
  | executed seq => exact waits_executed none seq world
  | reclaim => exact absurd rfl aged
  | reclaimAged now =>
  unfold act reclaim
  simp only [gives_bind,gives_get,gives_changePool,gives_pure]
  have loop := (waits_onward (some now)).reclaimLoop (waits_reclaimOne io (small now rfl)) (fun _ _ => ⟨rfl,fun _ => .refl _ _⟩)
    world.pool.candidates 0 0 0 world
  exact loop.mono (fun _ _ waits => waits.trans (.still ⟨rfl,fun _ => .refl _ _⟩ rfl))

end

section
variable (io : PoolIo) (start : World)

/-- The granule after some requests. -/
abbrev granuleAfter (requests : List Request) (index : Nat) : Granule := (runAll (act io) requests start).pool.granules index

/-- A reclaim at some time, since which a granule is releasable behind every request. -/
def FreeSince (requests : List Request) (index : Nat) (time : U64) : Prop :=
  ∃ earlier later, requests = earlier ++ .reclaimAged time :: later ∧
    ∀ done, earlier ++ [.reclaimAged time] <+: done → done <+: requests → releasable (granuleAfter io start done index) = true

/-- Requests without an unaged reclaim, whose times never decrease and leave room for one more. -/
structure AgedRun (requests : List Request) : Prop where
  aged : .reclaim ∉ requests
  ordered : (requests.filterMap agedTime).Pairwise (· ≤ ·)
  small : ∀ now, .reclaimAged now ∈ requests → now.toNat < 2 ^ 64 - 1

/-- What the clocks say behind a run. -/
structure Clocked (delay : U64) (requests : List Request) : Prop where
  delay : (runAll (act io) requests start).pool.releaseDelay = delay
  idle : ∀ index, Idle (granuleAfter io start requests index)
  since : ∀ index, (granuleAfter io start requests index).idleSince ≠ 0 → (granuleAfter io start requests index).pinned = false →
    FreeSince io start requests index ((granuleAfter io start requests index).idleSince - 1)

theorem AgedRun.left {first second : List Request} (run : AgedRun (first ++ second)) : AgedRun first where
  aged := fun mem => run.aged (mem_append_left _ mem)
  ordered := by
    have ordered := run.ordered
    rw [filterMap_append] at ordered
    exact (pairwise_append.mp ordered).1
  small := fun now mem => run.small now (mem_append_left _ mem)

private theorem room_of_small {now : U64} (small : now.toNat < 2 ^ 64 - 1) : now + 1 ≠ 0 := by
  intro zero
  have value := congrArg BitVec.toNat zero
  change (now.toNat + 1) % 2 ^ 64 = 0 at value
  omega

variable {before : List Request} {request : Request}

theorem waits_next (run : AgedRun (before ++ [request])) :
    Waits (agedTime request) (runAll (act io) before start) (runAll (act io) (before ++ [request]) start) := by
  have last : request ∈ before ++ [request] := mem_append_right _ mem_cons_self
  have waits := waits_act io (fun same => run.aged (same ▸ last))
    (fun now same => room_of_small (run.small now (same ▸ last))) (runAll (act io) before start)
  rw [runAll_append]
  exact waits

variable {index : Nat} {time : U64}

theorem FreeSince.extend (free : FreeSince io start before index time)
    (still : releasable (granuleAfter io start (before ++ [request]) index) = true) :
    FreeSince io start (before ++ [request]) index time := by
  obtain ⟨earlier,later,split,stretch⟩ := free
  refine ⟨earlier,later ++ [request],by rw [split,append_assoc,cons_append],fun done began upto => ?_⟩
  rcases prefix_concat_iff.mp upto with rfl | upto
  · exact still
  exact stretch done began upto

theorem FreeSince.begin (now : releasable (granuleAfter io start (before ++ [.reclaimAged time]) index) = true) :
    FreeSince io start (before ++ [.reclaimAged time]) index time :=
  ⟨before,[],rfl,fun done began upto => by rwa [began.eq_of_length (Nat.le_antisymm began.length_le upto.length_le)] at now⟩

private theorem clocked_run {delay : U64} (made : Clocked io start delay []) {requests : List Request} (run : AgedRun requests) :
    Clocked io start delay requests := by
  induction requests using reverseRecOn with
  | nil => exact made
  | append_singleton before request ih =>
  have clocked := ih run.left
  obtain ⟨ticks,-⟩ := waits_next io start run
  refine ⟨ticks.delay.trans clocked.delay,fun index => (ticks.granules index).idle (clocked.idle index),
    fun index running unpinned => ?_⟩
  obtain ⟨free,⟨before,same⟩ | started⟩ := ticks.granules index (clocked.idle index) running unpinned
  · rw [← same] at running ⊢
    exact (clocked.since index running ((releasable_iff _).mp before).2.1).extend io start free
  cases request with
  | reclaimAged now =>
    have time : (granuleAfter io start (before ++ [.reclaimAged now]) index).idleSince - 1 = now :=
      (Option.some.inj started).symm
    rw [time]
    exact .begin io start free
  | _ => cases started

theorem delay_passed {delay now since : U64} (order : since - 1 ≤ now) (passed : ¬ now + 1 - since < delay) :
    delay.toNat + (since - 1).toNat ≤ now.toNat := by
  have elapsed : now + 1 - since = now - (since - 1) := by
    rw [BitVec.sub_eq_add_neg now,BitVec.neg_sub,BitVec.sub_eq_add_neg,BitVec.add_assoc,BitVec.add_comm 1]
  rw [elapsed,BitVec.not_lt,BitVec.le_def,BitVec.toNat_sub_of_le order] at passed
  have plain := BitVec.le_def.mp order
  omega

/-- In every run with times that never decrease, and without unaged reclaims, a granule is released only by an aged
reclaim, while it is committed and nothing keeps it; and there was such a reclaim, as long before as the delay or longer,
or it is the same one, since which it has been so behind every request. -/
theorem aged_release_waits {count releaseDelay maxRun : U64} (made : demandInit count releaseDelay maxRun = some start)
    {requests : List Request} (run : AgedRun requests) : ∀ before request after, requests = before ++ request :: after →
      ∀ index granule result, .release index granule result ∈ madeCalls io request (runAll (act io) before start) →
        releasable granule = true ∧ ∃ now, request = .reclaimAged now ∧ ∃ earlier time later,
          before ++ [.reclaimAged now] = earlier ++ .reclaimAged time :: later ∧ releaseDelay.toNat + time.toNat ≤ now.toNat ∧
          ∀ done, earlier ++ [.reclaimAged time] <+: done → done <+: before → releasable (granuleAfter io start done index) = true := by
  rintro before request after rfl index granule result mem
  rw [append_cons] at run
  have started : Clocked io start releaseDelay [] := by
    obtain ⟨-,rfl⟩ := demandInit_cases made
    exact ⟨rfl,fun index running => absurd rfl running,fun index running => absurd rfl running⟩
  have clocked := clocked_run io start started run.left.left
  obtain ⟨-,more,calls,waited⟩ := waits_next io start run.left
  have made : .release index granule result ∈ more := by
    unfold madeCalls at mem
    rw [runAll_append] at calls
    change ((act io request).run (runAll (act io) before start)).2.calls = _ at calls
    rwa [calls,drop_left] at mem
  obtain ⟨ticks,running,free,now,aged,passed⟩ := waited index granule result made
  cases request with
  | reclaimAged time =>
    obtain rfl := Option.some.inj aged
    rw [clocked.delay] at passed
    refine ⟨free,_,rfl,?_⟩
    obtain ⟨-,⟨was,same⟩ | begun⟩ := ticks (clocked.idle index) running ((releasable_iff _).mp free).2.1
    · rw [← same] at running passed
      obtain ⟨earlier,later,split,stretch⟩ := clocked.since index running ((releasable_iff _).mp was).2.1
      refine ⟨earlier,_,later ++ [.reclaimAged time],?_,delay_passed ?_ passed,stretch⟩
      · exact (congrArg (· ++ [.reclaimAged time]) split).trans (append_assoc _ _ _)
      have inside : .reclaimAged ((granuleAfter io start before index).idleSince - 1) ∈ before :=
        (congrArg (.reclaimAged ((granuleAfter io start before index).idleSince - 1) ∈ ·) split).mpr
          (mem_append_right _ mem_cons_self)
      have ordered := run.left.ordered
      rw [filterMap_append] at ordered
      exact (pairwise_append.mp ordered).2.2 _ (mem_filterMap.mpr ⟨_,inside,rfl⟩) _ mem_cons_self
    have time_eq : granule.idleSince - 1 = time := (Option.some.inj begun).symm
    refine ⟨before,time,[],rfl,?_,fun done began upto => absurd (began.length_le.trans upto.length_le) (by simp)⟩
    have delayed := delay_passed (by rw [time_eq]; exact BitVec.le_refl _) passed
    rwa [time_eq] at delayed
  | _ => cases aged

end

/-- A granule that is given up before time ten waits until time fifteen. -/
theorem aged_release_waits_five : ∃ world, demandInit 8 5 0 = some world ∧ ∃ granule,
    .release 0 granule .released ∈ madeCalls obliging (.reclaimAged 15)
      (runAll (act obliging) [.place 1 0 0x10000,.unplace 1,.reclaimAged 10,.reclaimAged 14] world) ∧
    ∃ earlier time later, [Request.place 1 0 0x10000,.unplace 1,.reclaimAged 10,.reclaimAged 14] ++ [.reclaimAged 15] =
      earlier ++ .reclaimAged time :: later ∧ (5 : U64).toNat + time.toNat ≤ (15 : U64).toNat := by
  have run : AgedRun [.place 1 0 0x10000,.unplace 1,.reclaimAged 10,.reclaimAged 14,.reclaimAged 15] := by
    refine ⟨by decide,by decide,fun now mem => ?_⟩
    simp only [mem_cons,not_mem_nil,reduceCtorEq,Request.reclaimAged.injEq,false_or,or_false] at mem
    rcases mem with rfl | rfl | rfl <;> decide
  have released : .release 0 ⟨none,0,11,0,true,false,false,true⟩ .released ∈ madeCalls obliging (.reclaimAged 15)
      (runAll (act obliging) [.place 1 0 0x10000,.unplace 1,.reclaimAged 10,.reclaimAged 14]
        ⟨⟨fun _ => noGranule,fun _ => 0,fun _ => ⟨0,0⟩,8,0,0,false,5,0,0,0⟩,0,[]⟩) := by decide +kernel
  obtain ⟨-,now,same,earlier,time,later,split,passed,-⟩ := aged_release_waits obliging _
    (show demandInit 8 5 0 = some ⟨⟨fun _ => noGranule,fun _ => 0,fun _ => ⟨0,0⟩,8,0,0,false,5,0,0,0⟩,0,[]⟩ from rfl) run
    [.place 1 0 0x10000,.unplace 1,.reclaimAged 10,.reclaimAged 14] (.reclaimAged 15) [] rfl _ _ _ released
  obtain rfl := Request.reclaimAged.inj same
  exact ⟨_,rfl,_,released,earlier,time,later,split,passed⟩

end WindowsOnM1.PoolDemandAged
