import WindowsOnM1.PoolDemandSound

/-!
A granule is released when no paging record can touch it any more, in every run in which no
record is lost.
-/
namespace WindowsOnM1.PoolDemandRecords
open Actions CountedLoop PoolDemandModel PoolDemandSteps List Function
open BitVec hiding append_assoc cast cons cons_append
open PoolDemandSound

/-- The byte range of a record and the granule have a byte in common. -/
def Touches (offset bytes : U64) (index : Nat) : Prop :=
  0 < bytes.toNat ∧ offset.toNat < (index + 1) * granuleBytes.toNat ∧ index * granuleBytes.toNat < offset.toNat + bytes.toNat

/-- The execution has come as far as a record. -/
def Reached (calls : List Call) (seq : U64) : Prop := ∃ later, Call.executed later ∈ calls ∧ seq ≤ later

/-- Every record of a granule has been executed. -/
def AllReached (calls : List Call) (index : Nat) : Prop :=
  ∀ offset bytes seq, Call.recorded offset bytes seq ∈ calls → Touches offset bytes index → Reached calls seq

structure ReleaseSafe (before : List Call) (index : Nat) (granule : Granule) : Prop where
  committed : granule.committed = true
  pinned : granule.pinned = false
  owner : granule.owner = none
  pagingRefs : granule.pagingRefs = 0
  records : AllReached before index

def ReleasesSafe (calls : List Call) : Prop := ∀ before index granule result after,
  calls = before ++ .release index granule result :: after → ReleaseSafe before index granule

theorem releasesSafe_snoc {calls : List Call} (safe : ReleasesSafe calls) {call : Call}
    (last : ∀ index granule result, call = .release index granule result → ReleaseSafe calls index granule) :
    ReleasesSafe (calls ++ [call]) := by
  intro before index granule result after split
  rcases eq_nil_or_concat after with rfl | ⟨more,final,rfl⟩
  · obtain ⟨same,here⟩ := append_inj' split rfl
    rw [← same]
    exact last index granule result (singleton_inj.mp here)
  rw [concat_eq_append,← cons_append,← append_assoc] at split
  obtain ⟨same,-⟩ := append_inj' split rfl
  exact safe before index granule result more same

theorem Reached.append {calls : List Call} {seq : U64} (reached : Reached calls seq) (more : List Call) :
    Reached (calls ++ more) seq := by
  obtain ⟨later,mem,order⟩ := reached
  exact ⟨later,mem_append_left _ mem,order⟩
def NoRecord : Call → Prop
  | .recorded _ _ _ => False
  | _ => True

theorem AllReached.append {calls : List Call} {index : Nat} (all : AllReached calls index) {more : List Call}
    (none : ∀ call ∈ more, NoRecord call) : AllReached (calls ++ more) index := by
  intro offset bytes seq mem touches
  rcases mem_append.mp mem with early | late
  · exact (all offset bytes seq early touches).append more
  exact absurd (none _ late) id

/-- What the pool knows of the records is what the calls say. -/
structure Tracked (world : World) : Prop where
  safe : ReleasesSafe world.calls
  executed : ∀ seq, world.pool.anyExecuted = true → seq ≤ world.pool.executedSeq → Reached world.calls seq
  records : ∀ index < world.pool.count.toNat, ∀ offset bytes seq, Call.recorded offset bytes seq ∈ world.calls →
    Touches offset bytes index → Reached world.calls seq ∨
      ((world.pool.granules index).recorded = true ∧ seq ≤ (world.pool.granules index).recordSeq)

variable {world : World} {index : Nat}

theorem Tracked.allReached (tracked : Tracked world) (inside : index < world.pool.count.toNat)
    (executed : unexecuted world.pool (world.pool.granules index) = false) : AllReached world.calls index := by
  intro offset bytes seq mem touches
  rcases tracked.records index inside offset bytes seq mem touches with reached | ⟨recorded,order⟩
  · exact reached
  rw [unexecuted,decide_eq_false_iff_not] at executed
  have done : world.pool.anyExecuted = true ∧ (world.pool.granules index).recordSeq ≤ world.pool.executedSeq := by
    by_cases any : world.pool.anyExecuted = true
    · refine ⟨any,BitVec.not_lt.mp (fun later => executed ⟨recorded,.inr later⟩)⟩
    exact absurd ⟨recorded,.inl any⟩ executed
  exact tracked.executed seq done.1 (BitVec.le_trans order done.2)

/-- The records of the granules are as before. -/
structure RecordsKept (pool left : Pool) : Prop where
  count : left.count = pool.count
  executedSeq : left.executedSeq = pool.executedSeq
  anyExecuted : left.anyExecuted = pool.anyExecuted
  granules : ∀ index, (left.granules index).recorded = (pool.granules index).recorded ∧
    (left.granules index).recordSeq = (pool.granules index).recordSeq

theorem RecordsKept.refl (pool : Pool) : RecordsKept pool pool := ⟨rfl,rfl,rfl,fun _ => ⟨rfl,rfl⟩⟩
theorem RecordsKept.trans {pool middle left : Pool} (first : RecordsKept pool middle) (second : RecordsKept middle left) :
    RecordsKept pool left :=
  ⟨second.count.trans first.count,second.executedSeq.trans first.executedSeq,second.anyExecuted.trans first.anyExecuted,
    fun index => ⟨(second.granules index).1.trans (first.granules index).1,(second.granules index).2.trans (first.granules index).2⟩⟩
private theorem recordsKept_forRange {body : Nat → Pool → Pool} (turn : ∀ index pool, RecordsKept pool (body index pool)) (first turns : Nat)
    (pool : Pool) : RecordsKept pool (forRange body first turns pool) :=
  forRange_keeps body (fun _ left => RecordsKept pool left) (.refl pool) (fun index left _ _ kept => kept.trans (turn index left))

theorem recordsKept_change (index : Nat) (change : Granule → Granule)
    (keeps : ∀ granule, (change granule).recorded = granule.recorded ∧ (change granule).recordSeq = granule.recordSeq) (pool : Pool) :
    RecordsKept pool (changeGranule index change pool) := by
  refine ⟨rfl,rfl,rfl,fun other => ?_⟩
  by_cases same : other = index
  · subst same
    rw [changeGranule_same]
    exact keeps _
  rw [changeGranule_other same]
  exact ⟨rfl,rfl⟩

theorem recordsKept_consider (index : Nat) (pool : Pool) : RecordsKept pool (consider index pool) := by
  have granules : ∀ other, ((consider index pool).granules other).recorded = (pool.granules other).recorded ∧
      ((consider index pool).granules other).recordSeq = (pool.granules other).recordSeq := by
    intro other
    obtain ⟨candidate,same⟩ := consider_granule index pool other
    rw [same]
    exact ⟨rfl,rfl⟩
  revert granules
  rw [consider_eq]
  split
  · exact fun granules => ⟨rfl,rfl,rfl,granules⟩
  exact fun _ => .refl pool

variable (owner : Nat)

theorem recordsKept_setPlacement (placement : Placement) (pool : Pool) :
    RecordsKept pool (setPlacement owner placement pool) := ⟨rfl,rfl,rfl,fun _ => ⟨rfl,rfl⟩⟩

theorem recordsKept_disown (pool : Pool) : RecordsKept pool (disown owner pool) := by
  refine (recordsKept_forRange (fun index pool => ?_) _ _ pool).trans (recordsKept_setPlacement _ _ _)
  unfold disownOne
  split
  · refine RecordsKept.trans ?_ (recordsKept_consider index _)
    refine recordsKept_change index _ ?_ pool
    exact fun _ => ⟨rfl,rfl⟩
  exact .refl pool

theorem Tracked.kept {left : World} (tracked : Tracked world) (kept : RecordsKept world.pool left.pool)
    (calls : left.calls = world.calls) : Tracked left := by
  refine ⟨calls ▸ tracked.safe,?_,?_⟩
  · rw [kept.anyExecuted,kept.executedSeq,calls]
    exact tracked.executed
  rw [kept.count,calls]
  intro index inside offset bytes seq mem touches
  rw [(kept.granules index).1,(kept.granules index).2]
  exact tracked.records index inside offset bytes seq mem touches

/-- What the pool knows behind one more call, which is no record. -/
private theorem Tracked.snoc {left : World} (tracked : Tracked world) {call : Call} (calls : left.calls = world.calls ++ [call])
    (noRecord : NoRecord call)
    (safe : ∀ index granule result, call = .release index granule result → ReleaseSafe world.calls index granule)
    (kept : left.pool.count = world.pool.count ∧ left.pool.anyExecuted = world.pool.anyExecuted ∧
      left.pool.executedSeq = world.pool.executedSeq)
    (granules : ∀ index, (left.pool.granules index).recorded = (world.pool.granules index).recorded ∧
      (left.pool.granules index).recordSeq = (world.pool.granules index).recordSeq ∨
      (index < world.pool.count.toNat → AllReached world.calls index)) : Tracked left := by
  refine ⟨calls ▸ releasesSafe_snoc tracked.safe safe,fun seq any order => ?_,fun index inside offset bytes seq mem touches => ?_⟩
  · rw [calls]
    rw [kept.2.1] at any
    rw [kept.2.2] at order
    exact (tracked.executed seq any order).append _
  rw [kept.1] at inside
  rw [calls] at mem ⊢
  have early : Call.recorded offset bytes seq ∈ world.calls := by
    rcases mem_append.mp mem with early | late
    · exact early
    rw [← mem_singleton.mp late] at noRecord
    exact absurd noRecord id
  rcases granules index with ⟨recorded,recordSeq⟩ | all
  · rw [recorded,recordSeq]
    exact (tracked.records index inside offset bytes seq early touches).imp_left (fun reached => reached.append _)
  exact .inl ((all inside offset bytes seq early touches).append _)

/-- A commit that succeeds touches only granules whose records have been executed. -/
def FineCommit (clear : Nat → Prop) : Call → Prop
  | .commit first count true => ∀ index, first ≤ index → index < first + count → clear index
  | _ => True

/-- The granules in `clear` have only records that have been executed. -/
def Clears (clear : Nat → Prop) (world : World) : Prop :=
  ∀ index, clear index → index < world.pool.count.toNat → AllReached world.calls index

/-- What a piece of a step leaves: calls that are no records and, if its commits are fine, what the pool knows. -/
def Leads (clear : Nat → Prop) (world left : World) : Prop := left.pool.count = world.pool.count ∧
  ∃ more, left.calls = world.calls ++ more ∧ (∀ call ∈ more, NoRecord call) ∧
    ((∀ call ∈ more, FineCommit clear call) → Clears clear world → Tracked world → Tracked left)

variable (clear : Nat → Prop)

theorem Leads.of_kept {left : World} (kept : RecordsKept world.pool left.pool)
    (calls : left.calls = world.calls) : Leads clear world left :=
  ⟨kept.count,[],calls.trans (append_nil _).symm,nofun,fun _ _ tracked => tracked.kept kept calls⟩
theorem Leads.refl (world : World) : Leads clear world world := .of_kept clear (.refl _) rfl

theorem Leads.trans {clear : Nat → Prop} {middle left : World} (first : Leads clear world middle)
    (second : Leads clear middle left) : Leads clear world left := by
  obtain ⟨count,more,calls,none,leads⟩ := first
  obtain ⟨count',more',calls',none',leads'⟩ := second
  refine ⟨count'.trans count,more ++ more',?_,fun call mem => ?_,fun all clears tracked => ?_⟩
  · rw [calls',calls,append_assoc]
  · rcases mem_append.mp mem with early | late
    · exact none call early
    exact none' call late
  have clears' : Clears clear middle := by
    intro index isClear inside
    rw [calls]
    rw [count] at inside
    exact (clears index isClear inside).append none
  exact leads' (fun call mem => all call (mem_append_right _ mem)) clears'
    (leads (fun call mem => all call (mem_append_left _ mem)) clears tracked)

theorem leads_commitRun (io : PoolIo) (clear : Nat → Prop) (first count : Nat) (world : World) :
    Gives (commitRun io first count) world (fun _ left => Leads clear world left) := by
  unfold commitRun
  simp only [gives_bind,gives_call,gives_ite,gives_pure,gives_changePool]
  refine ⟨fun refused => ⟨rfl,_,rfl,by simp [NoRecord],fun _ _ tracked => ?_⟩,
    fun done => ⟨?_,_,rfl,by simp [NoRecord],fun all clears tracked => ?_⟩⟩
  · exact tracked.snoc rfl trivial nofun ⟨rfl,rfl,rfl⟩ (fun _ => .inl ⟨rfl,rfl⟩)
  · rw [changeRange_pool]
  refine tracked.snoc rfl trivial nofun ⟨?_,?_,?_⟩ (fun index => ?_)
  · rw [changeRange_pool]
  · rw [changeRange_pool]
  · rw [changeRange_pool]
  rw [changeRange_apply]
  split
  · rename_i inRange
    have fine := all _ (mem_singleton.mpr rfl)
    rw [not_not.mp done] at fine
    exact .inr (fun inside => clears index (fine index inRange.1 inRange.2) inside)
  exact .inl ⟨rfl,rfl⟩

theorem leads_onward (clear : Nat → Prop) : Onward RecordsKept (Leads clear) where
  refl := .refl
  trans := .trans
  still := .of_kept clear
  next := .trans
  considers := recordsKept_consider

private theorem leads_place (io : PoolIo) (clear : Nat → Prop) (owner : Nat) (base bytes : U64) (world : World) :
    Gives (place io owner base bytes) world (fun _ left => Leads clear world left) := by
  refine (leads_onward clear).place (leads_commitRun io clear) recordsKept_disown (fun index pool => ?_)
    (recordsKept_setPlacement _ _) world
  refine recordsKept_change index _ ?_ pool
  exact fun _ => ⟨rfl,rfl⟩

private theorem recordsKept_pinGranule (index : Nat) (pool : Pool) : RecordsKept pool (pinGranule index pool) := by
  have marked : RecordsKept pool (changeGranule index (fun granule => { granule with pinned := true }) pool) := by
    refine recordsKept_change index _ ?_ pool
    exact fun _ => ⟨rfl,rfl⟩
  unfold pinGranule
  split
  · exact .refl pool
  exact { marked with }

private theorem answered_kept (index : Nat) (pool : Pool) (result : Release) : (answered index pool result).count = pool.count ∧
    (answered index pool result).anyExecuted = pool.anyExecuted ∧ (answered index pool result).executedSeq = pool.executedSeq ∧
    (answered index pool result).candidateList = pool.candidateList ∧
    ∀ other, other ≠ index → (answered index pool result).granules other = pool.granules other := by
  cases result with
  | released => exact ⟨rfl,rfl,rfl,rfl,fun other apart => changeGranule_other apart releasedGranule pool⟩
  | busy => exact ⟨rfl,rfl,rfl,rfl,fun _ _ => rfl⟩
  | failed => exact ⟨rfl,rfl,rfl,rfl,fun other apart => changeGranule_other apart keptGranule pool⟩

/-- What is asked to be released has only records that have been executed. -/
private theorem leads_reclaims {verdict : Verdict} {left : World}
    (inside : index < world.pool.count.toNat) (turn : Reclaims index world verdict left) :
    Leads clear world left ∧ left.pool.candidateList = world.pool.candidateList := by
  cases turn with
  | stale _ pool calls =>
    refine ⟨.of_kept clear ?_ calls,by rw [pool]; rfl⟩
    rw [pool]
    exact recordsKept_change index staleGranule (fun _ => ⟨rfl,rfl⟩) world.pool
  | kept since pool calls =>
    refine ⟨.of_kept clear ?_ calls,by rw [pool]; rfl⟩
    rw [pool]
    exact recordsKept_change index (idleFrom since) (fun _ => ⟨rfl,rfl⟩) world.pool
  | asked since result free executed pool calls =>
  obtain ⟨committed,unpinned,unowned,unused⟩ := (releasable_iff _).mp free
  have idle := recordsKept_change index (idleFrom since) (fun _ => ⟨rfl,rfl⟩) world.pool
  obtain ⟨counted,any,upTo,list,others⟩ := answered_kept index (changeGranule index (idleFrom since) world.pool) result
  refine ⟨⟨by rw [pool,counted]; rfl,_,calls,by simp [NoRecord],fun _ _ tracked => ?_⟩,by rw [pool,list]; rfl⟩
  have middle : Tracked { world with pool := changeGranule index (idleFrom since) world.pool } := tracked.kept idle rfl
  have all := tracked.allReached inside executed
  refine middle.snoc calls trivial (fun _ _ _ same => ?_) (by rw [pool]; exact ⟨counted,any,upTo⟩) (fun other => ?_)
  · obtain ⟨rfl,rfl,rfl⟩ := Call.release.inj same
    exact ⟨committed,unpinned,unowned,unused,all⟩
  by_cases same : other = index
  · rw [same]
    exact .inr (fun _ => all)
  rw [pool,others other same]
  exact .inl ⟨rfl,rfl⟩

private theorem leads_reclaimLoop (io : PoolIo) (clear : Nat → Prop) (aged : Option U64) (turns read kept released : Nat) (world : World)
    (inside : ∀ position < read + turns, world.pool.candidateList position < world.pool.count.toNat) :
    Gives (reclaimLoop io aged turns read kept released) world (fun _ left => Leads clear world left) := by
  induction turns generalizing read kept released world with
  | zero => exact .refl clear world
  | succ turns ih =>
  have here := inside read (by omega)
  unfold reclaimLoop
  rw [gives_bind,gives_get]
  refine ((reclaimOne_cases io aged _ world).mono (fun _ _ turn => leads_reclaims clear here turn)).bind (fun verdict middle leads => ?_)
  obtain ⟨leads,list⟩ := leads
  have inside' : ∀ position < read + 1 + turns, middle.pool.candidateList position < middle.pool.count.toNat := by
    intro position below
    rw [list,leads.1]
    exact inside position (by omega)
  cases verdict with
  | drops => exact (ih (read + 1) kept released middle inside').mono (fun _ _ rest => leads.trans rest)
  | releases => exact (ih (read + 1) kept (released + 1) middle inside').mono (fun _ _ rest => leads.trans rest)
  | keeps =>
  have moved : Leads clear middle { middle with pool := { middle.pool with
      candidateList := update middle.pool.candidateList kept (world.pool.candidateList read) } } :=
    .of_kept clear ⟨rfl,rfl,rfl,fun _ => ⟨rfl,rfl⟩⟩ rfl
  refine (ih (read + 1) (kept + 1) released _ (fun position below => ?_)).mono (fun _ _ rest => (leads.trans moved).trans rest)
  by_cases written : position = kept
  · subst written
    simp only [update_self]
    rw [leads.1]
    exact here
  simp only [update_of_ne written]
  exact inside' position below

variable {exempt : Nat → Prop}

theorem leads_reclaim (io : PoolIo) (clear : Nat → Prop) (aged : Option U64)
    (sound : SoundPool exempt world.pool) : Gives (reclaim io aged) world (fun _ left => Leads clear world left) := by
  have inside : ∀ position < 0 + world.pool.candidates, world.pool.candidateList position < world.pool.count.toNat := by
    intro position below
    exact sound.inside _ ((sound.flagged _).mpr (ArrayCells.mem_cells.mpr ⟨position,by omega,rfl⟩))
  unfold reclaim
  rw [gives_bind,gives_get,gives_bind]
  refine (leads_reclaimLoop io clear aged _ 0 0 0 world inside).mono (fun ends left leads => ?_)
  exact leads.trans (.of_kept clear ⟨rfl,rfl,rfl,fun _ => ⟨rfl,rfl⟩⟩ rfl)

/-- A record that is not noted: rounding the end of its range up passes the end of the numbers. -/
def Dropped (pool : Pool) (offset bytes seq : U64) : Prop :=
  bytes ≠ 0 ∧ offset < pool.count * granuleBytes ∧ 2 ^ 64 < offset.toNat + bytes.toNat + granuleBytes.toNat ∧
    (pool.anyExecuted = false ∨ pool.executedSeq < seq)

/-- The granules that a record touches are those that it is noted for. -/
private theorem recordTurns_covers {pool : Pool} {offset bytes : U64} (small : pool.count.toNat < 2 ^ 48)
    (inside : index < pool.count.toNat) (touches : Touches offset bytes index)
    (whole : offset.toNat + bytes.toNat + granuleBytes.toNat ≤ 2 ^ 64) :
    (offset / granuleBytes).toNat ≤ index ∧ index < (offset / granuleBytes).toNat + recordTurns pool offset bytes := by
  have size : granuleBytes.toNat = 65536 := rfl
  obtain ⟨some,low,high⟩ := touches
  rw [size] at low high whole
  have sum : (offset + bytes).toNat = offset.toNat + bytes.toNat := by
    rw [toNat_add]
    omega
  have top : (offset + bytes + granuleBytes - 1).toNat = offset.toNat + bytes.toNat + 65535 := by
    rw [toNat_sub,toNat_add,sum,size,show (1 : U64).toNat = 1 from rfl]
    omega
  have first : (offset / granuleBytes).toNat = offset.toNat / 65536 := by rw [toNat_udiv,size]
  have stop : ((offset + bytes + granuleBytes - 1) / granuleBytes).toNat = (offset.toNat + bytes.toNat + 65535) / 65536 := by
    rw [toNat_udiv,top,size]
  have noted : ¬ (bytes = 0 ∨ ~~~0 - bytes < offset ∨ pool.count * granuleBytes ≤ offset) := by
    rintro (none | past | outside)
    · rw [none] at some
      exact absurd some (Nat.lt_irrefl _)
    · have bound := lt_def.mp past
      rw [toNat_sub,toNat_not,show (0 : U64).toNat = 0 from rfl] at bound
      omega
    have bound := le_def.mp outside
    rw [toNat_bytes small] at bound
    omega
  have turns : recordTurns pool offset bytes = (if pool.count < (offset + bytes + granuleBytes - 1) / granuleBytes then pool.count
      else (offset + bytes + granuleBytes - 1) / granuleBytes).toNat - (offset / granuleBytes).toNat := if_neg noted
  rw [turns,first]
  split
  · omega
  omega

private theorem recordGranule_keeps (seq : U64) (granule : Granule) : (recordGranule seq granule).recorded = true ∧
    seq ≤ (recordGranule seq granule).recordSeq ∧ (granule.recorded = true → granule.recordSeq ≤ (recordGranule seq granule).recordSeq) := by
  unfold recordGranule
  refine ⟨rfl,?_⟩
  split
  · rename_i newer
    refine ⟨BitVec.le_refl _,fun recorded => ?_⟩
    rcases newer with fresh | later
    · exact absurd recorded fresh
    exact BitVec.le_of_lt later
  rename_i older
  exact ⟨BitVec.not_lt.mp (fun later => older (.inr later)),fun _ => BitVec.le_refl _⟩

private theorem tracked_record (tracked : Tracked world) (small : world.pool.count.toNat < 2 ^ 48) (offset bytes seq : U64)
    (noted : ¬ Dropped world.pool offset bytes seq) : Gives (record offset bytes seq) world (fun _ left => Tracked left) := by
  unfold record
  simp only [gives_bind,gives_note,gives_changePool]
  have ranges := changeRange_pool (recordGranule seq) (offset / granuleBytes).toNat (recordTurns world.pool offset bytes) world.pool
  have applied := changeRange_apply (recordGranule seq) (offset / granuleBytes).toNat (recordTurns world.pool offset bytes) world.pool
  generalize forRange (fun index => changeGranule index (recordGranule seq)) (offset / granuleBytes).toNat
    (recordTurns world.pool offset bytes) world.pool = left at ranges applied ⊢
  have count : left.count = world.pool.count := by rw [ranges]
  have any : left.anyExecuted = world.pool.anyExecuted := by rw [ranges]
  have upTo : left.executedSeq = world.pool.executedSeq := by rw [ranges]
  refine ⟨releasesSafe_snoc tracked.safe nofun,fun later done order => ?_,fun index inside offset' bytes' seq' mem touches => ?_⟩
  · simp only [any,upTo] at done order
    exact (tracked.executed later done order).append _
  simp only [count] at inside
  have keeps := recordGranule_keeps seq (world.pool.granules index)
  rcases mem_append.mp mem with early | late
  · refine (tracked.records index inside offset' bytes' seq' early touches).imp (fun reached => reached.append _) (fun known => ?_)
    simp only [applied index]
    split
    · exact ⟨keeps.1,BitVec.le_trans known.2 (keeps.2.2 known.1)⟩
    exact known
  obtain ⟨rfl,rfl,rfl⟩ := Call.recorded.inj (mem_singleton.mp late)
  by_cases pending : world.pool.anyExecuted = false ∨ world.pool.executedSeq < seq'
  · have whole : offset'.toNat + bytes'.toNat + granuleBytes.toNat ≤ 2 ^ 64 := by
      refine Nat.not_lt.mp (fun beyond => noted ⟨?_,?_,beyond,pending⟩)
      · rintro rfl
        exact absurd touches.1 (Nat.lt_irrefl _)
      rw [lt_def,toNat_bytes small]
      exact Nat.lt_of_lt_of_le touches.2.1 (Nat.mul_le_mul_right 65536 inside)
    simp only [applied index]
    rw [if_pos (recordTurns_covers small inside touches whole)]
    exact .inr ⟨keeps.1,keeps.2.1⟩
  obtain ⟨done,order⟩ := not_or.mp pending
  exact .inl ((tracked.executed seq' (by simpa using done) (BitVec.not_lt.mp order)).append _)

private theorem tracked_executed (tracked : Tracked world) (seq : U64) :
    Gives (executed seq) world (fun _ left => Tracked left) := by
  unfold executed
  simp only [gives_bind,gives_note,gives_changePool]
  refine ⟨releasesSafe_snoc tracked.safe nofun,fun seq' _ order => ?_,fun index inside offset' bytes' seq' mem touches => ?_⟩
  · by_cases newer : ¬ world.pool.anyExecuted = true ∨ world.pool.executedSeq < seq
    · simp only [if_pos newer] at order
      exact ⟨seq,mem_append_right _ (mem_singleton.mpr rfl),order⟩
    simp only [if_neg newer] at order
    exact (tracked.executed seq' (not_not.mp (not_or.mp newer).1) order).append _
  rcases mem_append.mp mem with early | late
  · exact (tracked.records index inside offset' bytes' seq' early touches).imp_left (fun reached => reached.append _)
  exact absurd (mem_singleton.mp late) nofun

def madeCalls (io : PoolIo) (request : Request) (world : World) : List Call :=
  ((act io request).run world).2.calls.drop world.calls.length

/-- A request that loses no record: no granule is committed that has a record which is not
executed, and no such record is dropped. -/
structure KeepsRecords (io : PoolIo) (request : Request) (world : World) : Prop where
  commits : ∀ first count, .commit first count true ∈ madeCalls io request world →
    ∀ index, first ≤ index → index < first + count → unexecuted world.pool (world.pool.granules index) = false
  records : ∀ offset bytes seq, request = .record offset bytes seq → ¬ Dropped world.pool offset bytes seq

variable {io : PoolIo} {request : Request}

theorem tracked_leads (tracked : Tracked world) (keeps : KeepsRecords io request world)
    (leads : Gives (act io request) world (fun _ left => Leads (fun index => unexecuted world.pool (world.pool.granules index) = false) world left)) :
    Gives (act io request) world (fun _ left => Tracked left) := by
  obtain ⟨-,more,calls,-,reaches⟩ := leads
  refine reaches (fun call mem => ?_) (fun index done inside => tracked.allReached inside done) tracked
  cases call with
  | commit first count done =>
    cases done with
    | false => trivial
    | true =>
    refine keeps.commits first count ?_
    unfold madeCalls
    rw [calls,drop_left]
    exact mem
  | _ => trivial

private theorem tracked_act (io : PoolIo) (request : Request) (sound : SoundPool exempt world.pool)
    (tracked : Tracked world) (keeps : KeepsRecords io request world) : Gives (act io request) world (fun _ left => Tracked left) := by
  cases request with
  | place owner base bytes => exact tracked_leads tracked keeps (leads_place io _ owner base bytes world)
  | unplace owner =>
    unfold act unplace
    rw [gives_changePool]
    refine tracked.kept ?_ rfl
    split
    · exact .refl _
    exact recordsKept_disown owner world.pool
  | pin offset bytes =>
    exact tracked_leads tracked keeps ((leads_onward _).pin (leads_commitRun io _) recordsKept_pinGranule offset bytes world)
  | pagingRef offset delta =>
    have changed : ∀ change : Granule → Granule,
        (∀ granule, (change granule).recorded = granule.recorded ∧ (change granule).recordSeq = granule.recordSeq) →
        RecordsKept world.pool (changeGranule (offset / granuleBytes).toNat change world.pool) :=
      fun change same => recordsKept_change _ change same world.pool
    unfold act pagingRef
    rw [gives_changePool]
    refine tracked.kept ?_ rfl
    simp only
    split
    · exact .refl _
    split
    · refine changed _ ?_
      exact fun _ => ⟨rfl,rfl⟩
    split
    · split
      · exact .refl _
      have fewer := changed (fun granule => { granule with pagingRefs := granule.pagingRefs - 1 }) (fun _ => ⟨rfl,rfl⟩)
      split
      · exact fewer.trans (recordsKept_consider _ _)
      exact fewer
    exact .refl _
  | record offset bytes seq => exact tracked_record tracked sound.small offset bytes seq (keeps.records offset bytes seq rfl)
  | executed seq => exact tracked_executed tracked seq
  | reclaim => exact tracked_leads tracked keeps (leads_reclaim io _ none sound)
  | reclaimAged now => exact tracked_leads tracked keeps (leads_reclaim io _ (some now) sound)

/-- In every run that loses no record a granule is released only when every record that
touches it has been executed. -/
theorem release_safe (io : PoolIo) {count releaseDelay maxRun : U64} {world : World} {requests : List Request}
    (made : demandInit count releaseDelay maxRun = some world) (every : EveryStep (act io) (KeepsRecords io) requests world) :
    ReleasesSafe (runAll (act io) requests world).calls := by
  have step : ∀ request world, KeepsRecords io request world → SoundPool (fun _ => True) world.pool ∧ Tracked world →
      Gives (act io request) world (fun _ left => SoundPool (fun _ => True) left.pool ∧ Tracked left) :=
    fun request world keeps both => (sound_act io request both.1 (fun _ _ _ _ => trivial)).both (tracked_act io request both.1 both.2 keeps)
  have start : SoundPool (fun _ => True) world.pool ∧ Tracked world := by
    refine ⟨sound_demandInit made,?_⟩
    obtain ⟨-,rfl⟩ := demandInit_cases made
    exact ⟨fun before index granule result after split => absurd (congrArg length split) (by simp),nofun,nofun⟩
  exact (runAll_keeps step every start).2.safe

/-- A record from before the commit of its granule is forgotten. -/
theorem release_unsafe : ∃ world, demandInit 8 0 0 = some world ∧
    ¬ ReleasesSafe (runAll (act obliging) [.record 0 1 1,.place 1 0 0x20000,.unplace 1,.reclaim] world).calls := by
  refine ⟨_,rfl,fun safe => ?_⟩
  have released := safe [.recorded 0 1 1,.commit 0 2 true] 0 ⟨none,1,0,0,true,false,false,true⟩ .released
    [.release 1 ⟨none,0,0,0,true,false,false,true⟩ .released] (by decide +kernel)
  obtain ⟨later,mem,-⟩ := released.records 0 1 1 (by decide) ⟨by decide,by decide,by decide⟩
  simp at mem

def isCommit : Call → Bool
  | .commit _ _ _ => true
  | _ => false
theorem keepsRecords_quiet (quiet : (madeCalls io request world).any isCommit = false)
    (noted : ∀ offset bytes seq, request = .record offset bytes seq → ¬ Dropped world.pool offset bytes seq) :
    KeepsRecords io request world :=
  ⟨fun _ _ mem => absurd rfl (any_eq_false.mp quiet _ mem),noted⟩

theorem release_safe_executed : ∃ world, demandInit 8 0 0 = some world ∧
    ReleasesSafe (runAll (act obliging) [.place 1 0 0x20000,.record 0 1 1,.unplace 1,.reclaim,.executed 1,.reclaim] world).calls := by
  refine ⟨_,rfl,@release_safe obliging 8 0 0 _ _ rfl ⟨⟨fun first count _ index _ _ => rfl,nofun⟩,keepsRecords_quiet ?_ ?_,
    keepsRecords_quiet ?_ nofun,keepsRecords_quiet ?_ nofun,keepsRecords_quiet ?_ nofun,keepsRecords_quiet ?_ nofun,trivial⟩⟩
  · decide +kernel
  · rintro offset bytes seq same ⟨-,-,beyond,-⟩
    obtain ⟨rfl,rfl,-⟩ := Request.record.inj same
    exact absurd beyond (by decide)
  all_goals decide +kernel

end WindowsOnM1.PoolDemandRecords
