import WindowsOnM1.PoolDemandModel

/-!
What the pieces of the demand pool do to its granules.
-/
namespace WindowsOnM1.PoolDemandSteps
open Actions CountedLoop PoolDemandModel

variable (index : Nat) (change : Granule → Granule) (pool : Pool)

@[simp] theorem changeGranule_same : (changeGranule index change pool).granules index = change (pool.granules index) := by
  simp [changeGranule]
theorem changeGranule_other {index other : Nat} (apart : other ≠ index) (change : Granule → Granule) (pool : Pool) :
    (changeGranule index change pool).granules other = pool.granules other := by
  simp [changeGranule,apart]

theorem changeRange_apply (first turns : Nat) (pool : Pool) (index : Nat) :
    (forRange (fun index => changeGranule index change) first turns pool).granules index =
      if first ≤ index ∧ index < first + turns then change (pool.granules index) else pool.granules index := by
  refine forRange_keeps _ (fun next (left : Pool) => left.granules index =
    if first ≤ index ∧ index < next then change (pool.granules index) else pool.granules index) ?_ (fun i left above below kept => ?_)
  · rw [if_neg (by omega)]
  by_cases here : index = i
  · subst here
    rw [if_neg (by omega)] at kept
    rw [changeGranule_same,kept,if_pos (by omega)]
  rw [changeGranule_other here,kept]
  split
  · rw [if_pos (by omega)]
  rw [if_neg (by omega)]

theorem changeRange_pool (first turns : Nat) (pool : Pool) :
    forRange (fun index => changeGranule index change) first turns pool =
      { pool with granules := (forRange (fun index => changeGranule index change) first turns pool).granules } := by
  refine forRange_keeps _ (fun _ (left : Pool) => left = { pool with granules := left.granules }) rfl (fun i left _ _ kept => ?_)
  rw [kept]
  rfl

/-- A granule that nothing keeps committed. -/
def releasable (granule : Granule) : Bool :=
  granule.committed ∧ ¬ granule.pinned ∧ granule.owner = none ∧ granule.pagingRefs = 0

/-- The pool with one more candidate. -/
def withCandidate (index : Nat) (pool : Pool) : Pool :=
  { changeGranule index (fun granule => { granule with candidate := true }) pool with
    candidateList := Function.update pool.candidateList pool.candidates index, candidates := pool.candidates + 1 }
@[simp] theorem withCandidate_same : (withCandidate index pool).granules index = { pool.granules index with candidate := true } := by
  simp [withCandidate]
theorem withCandidate_other {index other : Nat} (apart : other ≠ index) (pool : Pool) :
    (withCandidate index pool).granules other = pool.granules other := by
  simp [withCandidate,changeGranule_other apart]

/-- `Consider` adds what can be released and is no candidate. -/
theorem consider_eq : consider index pool =
    if releasable (pool.granules index) ∧ ¬ (pool.granules index).candidate then withCandidate index pool else pool := by
  simp only [consider,releasable,decide_eq_true_eq,withCandidate]
  split
  · rename_i kept
    rw [if_neg]
    rintro ⟨⟨committed,unpinned,unowned,free⟩,fresh⟩
    rcases kept with kept | kept | kept | kept | kept
    · exact kept committed
    · exact unpinned kept
    · exact kept unowned
    · exact kept free
    exact fresh kept
  rename_i free
  simp only [not_or,not_not] at free
  rw [if_pos ⟨⟨free.1,free.2.1,free.2.2.1,free.2.2.2.1⟩,free.2.2.2.2⟩]

/-- `Consider` changes at most whether a granule is a candidate. -/
theorem consider_granule (other : Nat) : ∃ candidate,
    (consider index pool).granules other = { pool.granules other with candidate := candidate } := by
  rw [consider_eq]
  split
  · by_cases same : other = index
    · subst same
      exact ⟨true,withCandidate_same _ _⟩
    exact ⟨_,withCandidate_other same _⟩
  exact ⟨_,rfl⟩

/-- What is no longer releasable leaves the list. -/
def staleGranule (granule : Granule) : Granule := { granule with candidate := false, idleSince := 0 }
def idleFrom (since : U64) (granule : Granule) : Granule := { granule with idleSince := since }
def releasedGranule (granule : Granule) : Granule :=
  { granule with committed := false, recorded := false, candidate := false, idleSince := 0 }

/-- What could not be released is kept for good. -/
def keptGranule (granule : Granule) : Granule := { granule with pinned := true, candidate := false }

/-- The pool after the answer to a release. -/
def answered (index : Nat) (pool : Pool) : Release → Pool
  | .released => { changeGranule index releasedGranule pool with committedGranules := pool.committedGranules - 1 }
  | .busy => pool
  | .failed => { changeGranule index keptGranule pool with pinnedGranules := pool.pinnedGranules + 1 }

def verdictOf : Release → Verdict
  | .released => .releases
  | .busy => .keeps
  | .failed => .drops

/-- A turn of the reclaim finds its candidate in use, keeps it, or asks for its release. -/
inductive Reclaims (index : Nat) (world : World) : Verdict → World → Prop
  | stale {left : World} : releasable (world.pool.granules index) = false →
      left.pool = changeGranule index staleGranule world.pool → left.calls = world.calls → Reclaims index world .drops left
  | kept {left : World} (since : U64) : left.pool = changeGranule index (idleFrom since) world.pool →
      left.calls = world.calls → Reclaims index world .keeps left
  | asked {left : World} (since : U64) (result : Release) : releasable (world.pool.granules index) = true →
      unexecuted world.pool (world.pool.granules index) = false →
      left.pool = answered index (changeGranule index (idleFrom since) world.pool) result →
      left.calls = world.calls ++ [.release index (idleFrom since (world.pool.granules index)) result] →
      Reclaims index world (verdictOf result) left

private theorem changeGranule_self {index : Nat} {change : Granule → Granule} {pool : Pool}
    (same : change (pool.granules index) = pool.granules index) : changeGranule index change pool = pool := by
  unfold changeGranule
  rw [same,Function.update_eq_self]

/-- A placement begins by giving up what its owner held before. -/
theorem vacated (owner : Nat) (pool : Pool) : ∃ start,
    (if (pool.placements owner).bytes ≠ 0 then disown owner pool else pool) = start ∧
      (start = disown owner pool ∨ start = pool ∧ (pool.placements owner).bytes = 0) := by
  split
  · exact ⟨_,rfl,.inl rfl⟩
  rename_i empty
  exact ⟨_,rfl,.inr ⟨rfl,not_not.mp empty⟩⟩

variable (io : PoolIo)

theorem gives_releaseOne (index : Nat) (world : World) :
    Gives (releaseOne io index) world (fun verdict left => ∃ result, verdict = verdictOf result ∧
      left.pool = answered index world.pool result ∧
      left.calls = world.calls ++ [.release index (world.pool.granules index) result]) := by
  unfold releaseOne
  simp only [gives_bind,gives_get,gives_call]
  generalize io.release world.turn index = result
  cases result with
  | released => exact ⟨.released,rfl,rfl,rfl⟩
  | busy => exact ⟨.busy,rfl,rfl,rfl⟩
  | failed => exact ⟨.failed,rfl,rfl,rfl⟩

theorem reclaimOne_cases (aged : Option U64) (index : Nat) (world : World) :
    Gives (reclaimOne io aged index) world (Reclaims index world) := by
  have none : changeGranule index (idleFrom (world.pool.granules index).idleSince) world.pool = world.pool := changeGranule_self rfl
  unfold reclaimOne
  rw [gives_bind,gives_get,gives_ite,gives_ite]
  refine ⟨fun busy => ?_,fun free => ⟨fun pending => ?_,fun executed => ?_⟩⟩
  · refine .stale ?_ rfl rfl
    rw [releasable,decide_eq_false_iff_not]
    rintro ⟨committed,unpinned,unowned,unused⟩
    rcases busy with busy | busy | busy | busy
    · exact busy committed
    · exact unpinned busy
    · exact busy unowned
    exact busy unused
  · exact .kept _ none.symm rfl
  have releases : releasable (world.pool.granules index) = true := by
    simpa only [releasable,decide_eq_true_eq,not_or,not_not] using free
  have done : unexecuted world.pool (world.pool.granules index) = false := Bool.eq_false_iff.mpr executed
  cases aged with
  | none =>
    refine (gives_releaseOne io index world).mono (fun verdict left answer => ?_)
    obtain ⟨result,rfl,pool,calls⟩ := answer
    exact .asked _ result releases done (by rw [none]; exact pool) calls
  | some now =>
  simp only [waitsForDelay,gives_bind,gives_changePool,gives_get,gives_pure,gives_ite]
  refine ⟨fun _ => .kept _ rfl rfl,fun _ => ?_⟩
  refine (gives_releaseOne io index _).mono (fun verdict left answer => ?_)
  obtain ⟨result,rfl,pool,calls⟩ := answer
  refine .asked _ result releases done pool ?_
  rw [calls,changeGranule_same]
  rfl

/-- A relation of pools, and one of worlds that follows from it where no call is made. -/
structure Onward (pools : Pool → Pool → Prop) (worlds : World → World → Prop) : Prop where
  refl : ∀ pool, pools pool pool
  trans : ∀ {pool middle left}, pools pool middle → pools middle left → pools pool left
  still : ∀ {world left : World}, pools world.pool left.pool → left.calls = world.calls → worlds world left
  next : ∀ {world middle left}, worlds world middle → worlds middle left → worlds world left
  considers : ∀ index pool, pools pool (consider index pool)

namespace Onward
variable {pools : Pool → Pool → Prop} {worlds : World → World → Prop} (onward : Onward pools worlds)
include onward

theorem same (world : World) : worlds world world := onward.still (onward.refl _) rfl
theorem range {body : Nat → Pool → Pool} (turn : ∀ index pool, pools pool (body index pool)) (first turns : Nat) (pool : Pool) :
    pools pool (forRange body first turns pool) :=
  forRange_keeps body (fun _ left => pools pool left) (onward.refl pool) (fun index left _ _ kept => onward.trans kept (turn index left))

variable {io} (commits : ∀ first count world, Gives (commitRun io first count) world (fun _ left => worlds world left))
include commits

theorem commitRuns (first stop turns index : Nat) (world : World) :
    Gives (PoolDemandModel.commitRuns io first stop turns index) world (fun _ left => worlds world left) := by
  induction turns generalizing index world with
  | zero => exact onward.same world
  | succ turns ih =>
  unfold PoolDemandModel.commitRuns
  rw [gives_bind,gives_get,gives_ite,gives_ite]
  refine ⟨fun _ => onward.same world,fun _ => ⟨fun _ => ih (index + 1) world,fun _ => ?_⟩⟩
  refine (commits index _ world).bind (fun done middle leads => ?_)
  rw [gives_ite,gives_bind,gives_changePool,gives_pure]
  refine ⟨fun _ => onward.next leads (onward.still ?_ rfl),fun _ => (ih _ middle).mono (fun _ _ rest => onward.next leads rest)⟩
  exact onward.range onward.considers _ _ _

theorem place {owner : Nat} {base bytes : U64} (disowns : ∀ owner pool, pools pool (disown owner pool))
    (owns : ∀ index pool, pools pool (ownOne owner index pool))
    (places : ∀ pool, pools pool (setPlacement owner ⟨base,bytes⟩ pool)) (world : World) :
    Gives (PoolDemandModel.place io owner base bytes) world (fun _ left => worlds world left) := by
  have kills : ∀ index pool, pools pool (killOne index pool) := by
    intro index pool
    unfold killOne
    split
    · exact onward.refl pool
    exact disowns _ pool
  unfold PoolDemandModel.place
  rw [gives_bind,gives_get,gives_ite,gives_ite]
  refine ⟨fun _ => onward.same world,fun _ => ⟨fun _ => onward.same world,fun _ => ?_⟩⟩
  simp only [gives_bind,gives_changePool]
  have moved : pools world.pool (if (world.pool.placements owner).bytes ≠ 0 then disown owner world.pool else world.pool) := by
    split
    · exact disowns owner world.pool
    exact onward.refl _
  have killed := onward.trans moved (onward.range kills (base / granuleBytes).toNat (bytes / granuleBytes).toNat _)
  have start : worlds world { world with pool := forRange killOne _ _ _ } := onward.still killed rfl
  refine (onward.commitRuns commits _ _ _ _ _).mono (fun done left leads => ?_)
  simp only [gives_ite,gives_pure]
  refine ⟨fun _ => onward.next start leads,fun _ => onward.next (onward.next start leads) (onward.still ?_ rfl)⟩
  exact onward.trans (onward.range owns _ _ _) (places _)

variable (pins : ∀ index pool, pools pool (pinGranule index pool))
include pins

theorem pinRange (first turns : Nat) (world : World) :
    Gives (PoolDemandModel.pinRange io first turns) world (fun _ left => worlds world left) := by
  induction turns generalizing first world with
  | zero => exact onward.same world
  | succ turns ih =>
  have one : Gives (commitOne io first) world (fun _ left => worlds world left) := by
    unfold commitOne
    rw [gives_bind,gives_get,gives_ite]
    exact ⟨fun _ => onward.same world,fun _ => commits first 1 world⟩
  refine one.bind (fun done middle leads => ?_)
  rw [gives_ite,gives_bind,gives_changePool]
  have pinned : worlds middle { middle with pool := pinGranule first middle.pool } := onward.still (pins first middle.pool) rfl
  exact ⟨fun _ => leads,fun _ => (ih (first + 1) _).mono (fun _ _ rest => onward.next (onward.next leads pinned) rest)⟩

theorem pin (offset bytes : U64) (world : World) :
    Gives (PoolDemandModel.pin io offset bytes) world (fun _ left => worlds world left) := by
  unfold PoolDemandModel.pin
  rw [gives_bind,gives_get,gives_ite]
  exact ⟨fun _ => onward.same world,fun _ => onward.pinRange commits pins _ _ world⟩

omit commits pins

theorem reclaimLoop {aged : Option U64}
    (one : ∀ index world, Gives (reclaimOne io aged index) world (fun _ left => worlds world left))
    (lists : ∀ pool list, pools pool { pool with candidateList := list }) (turns read kept released : Nat) (world : World) :
    Gives (PoolDemandModel.reclaimLoop io aged turns read kept released) world (fun _ left => worlds world left) := by
  induction turns generalizing read kept released world with
  | zero => exact onward.same world
  | succ turns ih =>
  unfold PoolDemandModel.reclaimLoop
  rw [gives_bind,gives_get]
  refine (one _ world).bind (fun verdict middle leads => ?_)
  cases verdict with
  | drops => exact (ih (read + 1) kept released middle).mono (fun _ _ rest => onward.next leads rest)
  | releases => exact (ih (read + 1) kept (released + 1) middle).mono (fun _ _ rest => onward.next leads rest)
  | keeps =>
  have moved : worlds middle { middle with pool := { middle.pool with
      candidateList := Function.update middle.pool.candidateList kept (world.pool.candidateList read) } } :=
    onward.still (lists _ _) rfl
  exact (ih (read + 1) (kept + 1) released _).mono (fun _ _ rest => onward.next (onward.next leads moved) rest)

end Onward

end WindowsOnM1.PoolDemandSteps
