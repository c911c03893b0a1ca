import WindowsOnM1.Actions
import WindowsOnM1.CountedLoop
import Mathlib.Data.BitVec

/-!
The demand-backed pool of `render_pool_demand.c`: granules that are committed for placements,
pins and paging references, and reclaimed from a list of candidates. The callbacks answer by
the turn in which they are called. Placements are named by their addresses.
-/
namespace WindowsOnM1.PoolDemandModel
open Actions CountedLoop

abbrev U32 := BitVec 32
abbrev U64 := BitVec 64

/-- `ADMISSION_POOL_DEMAND_GRANULE`. -/
abbrev granuleBytes : U64 := 0x10000

/-- `ADMISSION_POOL_PLACEMENT`. -/
structure Placement where
  base : U64
  bytes : U64
deriving DecidableEq

/-- `ADMISSION_POOL_GRANULE`. -/
structure Granule where
  owner : Option Nat
  recordSeq : U64
  idleSince : U64
  pagingRefs : U32
  committed : Bool
  pinned : Bool
  recorded : Bool
  candidate : Bool
deriving DecidableEq

inductive Release
  | released | busy | failed
deriving DecidableEq

/-- `ADMISSION_POOL_DEMAND_OPS`. -/
structure PoolIo where
  commit : Nat → Nat → Nat → Bool
  release : Nat → Nat → Release

/-- `ADMISSION_POOL_DEMAND` with the placements of its owners; of the statistics only
`CommittedGranules` and `PinnedGranules`. -/
structure Pool where
  granules : Nat → Granule
  candidateList : Nat → Nat
  placements : Nat → Placement
  count : U64
  candidates : Nat
  executedSeq : U64
  anyExecuted : Bool
  releaseDelay : U64
  maxRun : U64
  committedGranules : U64
  pinnedGranules : U64

def obliging : PoolIo := ⟨fun _ _ _ => true,fun _ _ => .released⟩

/-- A call of a callback and its answer, or a paging record and its execution. A release shows
the granule at the time. -/
inductive Call
  | commit (first count : Nat) (done : Bool)
  | release (index : Nat) (granule : Granule) (result : Release)
  | recorded (offset bytes seq : U64)
  | executed (seq : U64)
deriving DecidableEq

structure World where
  pool : Pool
  turn : Nat
  calls : List Call
abbrev PoolAction (α : Type) := StateM World α

/-- A callback whose answer is recorded. -/
def call {α : Type} (callback : Nat → α) (record : α → Call) : PoolAction α := fun world =>
  (callback world.turn,{ world with turn := world.turn + 1, calls := world.calls ++ [record (callback world.turn)] })
def note (record : Call) : PoolAction Unit := modify (fun world => { world with calls := world.calls ++ [record] })
def changePool (change : Pool → Pool) : PoolAction Unit := modify (fun world => { world with pool := change world.pool })
@[simp] theorem gives_call {α : Type} (callback : Nat → α) (record : α → Call) (world : World) (post : α → World → Prop) :
    Gives (call callback record) world post = post (callback world.turn)
      { world with turn := world.turn + 1, calls := world.calls ++ [record (callback world.turn)] } := (rfl)
@[simp] theorem gives_note (record : Call) (world : World) (post : Unit → World → Prop) :
    Gives (note record) world post = post () { world with calls := world.calls ++ [record] } := (rfl)
@[simp] theorem gives_changePool (change : Pool → Pool) (world : World) (post : Unit → World → Prop) :
    Gives (changePool change) world post = post () { world with pool := change world.pool } := (rfl)

def noGranule : Granule := ⟨none,0,0,0,false,false,false,false⟩

/-- `AdmissionPoolDemandInit` on zeroed granules; the owner of the pool sets the delay and the longest run. -/
def demandInit (count releaseDelay maxRun : U64) : Option World :=
  if count = 0 ∨ ~~~(0 : U64) / granuleBytes < count then none
  else some ⟨⟨fun _ => noGranule,fun _ => 0,fun _ => ⟨0,0⟩,count,0,0,false,releaseDelay,maxRun,0,0⟩,0,[]⟩
def changeGranule (index : Nat) (change : Granule → Granule) (pool : Pool) : Pool :=
  { pool with granules := Function.update pool.granules index (change (pool.granules index)) }

/-- `Consider`. -/
def consider (index : Nat) (pool : Pool) : Pool :=
  let granule := pool.granules index
  if ¬ granule.committed ∨ granule.pinned ∨ granule.owner ≠ none ∨ granule.pagingRefs ≠ 0 ∨ granule.candidate then pool
  else { changeGranule index (fun granule => { granule with candidate := true }) pool with
    candidateList := Function.update pool.candidateList pool.candidates index, candidates := pool.candidates + 1 }

def commitGranule (granule : Granule) : Granule := { granule with committed := true, recorded := false, idleSince := 0 }

variable (io : PoolIo)

/-- `CommitRun`. -/
def commitRun (first count : Nat) : PoolAction Bool := do
  let done ← call (fun turn => io.commit turn first count) (.commit first count)
  if ¬ done then pure false
  else
    changePool (fun pool => { forRange (fun index => changeGranule index commitGranule) first count pool with
      committedGranules := pool.committedGranules + BitVec.ofNat 64 count })
    pure true

/-- `Commit`. -/
def commitOne (index : Nat) : PoolAction Bool := do
  let world ← get
  if (world.pool.granules index).committed then pure true else commitRun io index 1

/-- One turn of `Disown`. -/
def disownOne (owner index : Nat) (pool : Pool) : Pool :=
  if (pool.granules index).owner = some owner then
    consider index (changeGranule index (fun granule => { granule with owner := none }) pool)
  else pool

def setPlacement (owner : Nat) (placement : Placement) (pool : Pool) : Pool :=
  { pool with placements := Function.update pool.placements owner placement }

/-- `Disown`. -/
def disown (owner : Nat) (pool : Pool) : Pool :=
  let placement := pool.placements owner
  setPlacement owner ⟨0,0⟩
    (forRange (disownOne owner) (placement.base / granuleBytes).toNat (placement.bytes / granuleBytes).toNat pool)

/-- An owner that is found in a range loses its placement. -/
def killOne (index : Nat) (pool : Pool) : Pool :=
  match (pool.granules index).owner with
  | none => pool
  | some stale => disown stale pool

def ownOne (owner index : Nat) : Pool → Pool :=
  changeGranule index (fun granule => { granule with owner := some owner, idleSince := 0 })

inductive Place
  | placed | invalid | noMemory
deriving DecidableEq

/-- The length of the run of uncommitted granules from `start` on, `length` of which are known. -/
def runLength (pool : Pool) (start : Nat) : (turns length : Nat) → Nat
  | 0,length => length
  | turns+1,length =>
    if ¬ (pool.granules (start + length)).committed ∧ (pool.maxRun = 0 ∨ length < pool.maxRun.toNat) then
      runLength pool start turns (length + 1)
    else length

/-- The loop that commits the range from `first` to `stop`, from `index` on. Each turn goes
forward, so as many turns as there are granules are enough. -/
def commitRuns (first stop : Nat) : (turns index : Nat) → PoolAction Bool
  | 0,_ => pure true
  | turns+1,index => do
    let world ← get
    if stop ≤ index then pure true
    else if (world.pool.granules index).committed then commitRuns first stop turns (index + 1)
    else
      let length := runLength world.pool index (stop - index) 0
      let done ← commitRun io index length
      if ¬ done then
        changePool (forRange consider first (stop - first))
        pure false
      else commitRuns first stop turns (index + length)

/-- The arguments of a placement are multiples of a granule within the pool. -/
def placeable (pool : Pool) (base bytes : U64) : Bool :=
  bytes ≠ 0 ∧ (base ||| bytes) &&& (granuleBytes - 1) = 0 ∧ base ≤ ~~~0 - bytes ∧ (base + bytes) / granuleBytes ≤ pool.count

/-- `AdmissionPoolDemandPlace`. -/
def place (owner : Nat) (base bytes : U64) : PoolAction Place := do
  let world ← get
  if ¬ placeable world.pool base bytes then pure .invalid
  else if world.pool.placements owner = ⟨base,bytes⟩ then pure .placed
  else
    let first := (base / granuleBytes).toNat
    let turns := (bytes / granuleBytes).toNat
    changePool (fun pool => if (pool.placements owner).bytes ≠ 0 then disown owner pool else pool)
    changePool (forRange killOne first turns)
    let done ← commitRuns io first (first + turns) turns first
    if ¬ done then pure .noMemory
    else
      changePool (fun pool => setPlacement owner ⟨base,bytes⟩ (forRange (ownOne owner) first turns pool))
      pure .placed

/-- `AdmissionPoolDemandUnplace`. -/
def unplace (owner : Nat) : PoolAction Unit :=
  changePool (fun pool => if (pool.placements owner).bytes = 0 then pool else disown owner pool)

def pinGranule (index : Nat) (pool : Pool) : Pool :=
  if (pool.granules index).pinned then pool
  else { changeGranule index (fun granule => { granule with pinned := true }) pool with
    pinnedGranules := pool.pinnedGranules + 1 }

def pinRange : (first turns : Nat) → PoolAction Bool
  | _,0 => pure true
  | first,turns+1 => do
    let done ← commitOne io first
    if ¬ done then pure false
    else
      changePool (pinGranule first)
      pinRange (first + 1) turns

/-- `AdmissionPoolDemandPin`. -/
def pin (offset bytes : U64) : PoolAction Bool := do
  let world ← get
  if bytes = 0 ∨ ~~~0 - bytes < offset ∨ world.pool.count * granuleBytes < offset + bytes then pure false
  else
    let stop := ((offset + bytes + granuleBytes - 1) / granuleBytes).toNat
    pinRange io (offset / granuleBytes).toNat (stop - (offset / granuleBytes).toNat)

/-- `AdmissionPoolDemandPagingRef`. -/
def pagingRef (offset : U64) (delta : Int) : PoolAction Unit :=
  changePool (fun pool =>
    let index := (offset / granuleBytes).toNat
    if pool.count ≤ offset / granuleBytes then pool
    else if 0 < delta then
      changeGranule index (fun granule => { granule with pagingRefs := granule.pagingRefs + 1, idleSince := 0 }) pool
    else if delta < 0 then
      if (pool.granules index).pagingRefs = 0 then pool
      else
        let left := changeGranule index (fun granule => { granule with pagingRefs := granule.pagingRefs - 1 }) pool
        if (left.granules index).pagingRefs = 0 then consider index left else left
    else pool)

def recordGranule (seq : U64) (granule : Granule) : Granule :=
  { granule with
    recordSeq := if ¬ granule.recorded ∨ granule.recordSeq < seq then seq else granule.recordSeq
    recorded := true }

/-- The granules that a record is noted for, from the first one on. -/
def recordTurns (pool : Pool) (offset bytes : U64) : Nat :=
  if bytes = 0 ∨ ~~~0 - bytes < offset ∨ pool.count * granuleBytes ≤ offset then 0
  else
    let stop := (offset + bytes + granuleBytes - 1) / granuleBytes
    (if pool.count < stop then pool.count else stop).toNat - (offset / granuleBytes).toNat

/-- `AdmissionPoolDemandRecord`. -/
def record (offset bytes seq : U64) : PoolAction Unit := do
  note (.recorded offset bytes seq)
  changePool (fun pool => forRange (fun index => changeGranule index (recordGranule seq)) (offset / granuleBytes).toNat
    (recordTurns pool offset bytes) pool)

/-- `AdmissionPoolDemandExecuted`. -/
def executed (seq : U64) : PoolAction Unit := do
  note (.executed seq)
  changePool (fun pool => { pool with
    executedSeq := if ¬ pool.anyExecuted ∨ pool.executedSeq < seq then seq else pool.executedSeq
    anyExecuted := true })

inductive Verdict
  | keeps | drops | releases
deriving DecidableEq

/-- Whether a candidate has to wait for its delay, which starts when it is first seen. -/
def waitsForDelay (index : Nat) (now : U64) : PoolAction Bool := do
  changePool (changeGranule index (fun granule =>
    { granule with idleSince := if granule.idleSince = 0 then now + 1 else granule.idleSince }))
  let world ← get
  pure (decide (now + 1 - (world.pool.granules index).idleSince < world.pool.releaseDelay))

def releaseOne (index : Nat) : PoolAction Verdict := do
  let world ← get
  let result ← call (fun turn => io.release turn index) (.release index (world.pool.granules index))
  match result with
  | .released =>
    changePool (fun pool => { changeGranule index (fun granule =>
        { granule with committed := false, recorded := false, candidate := false, idleSince := 0 }) pool with
      committedGranules := pool.committedGranules - 1 })
    pure .releases
  | .busy => pure .keeps
  | .failed =>
    changePool (fun pool => { changeGranule index (fun granule => { granule with pinned := true, candidate := false }) pool with
      pinnedGranules := pool.pinnedGranules + 1 })
    pure .drops

/-- A record of the granule has not been executed. -/
def unexecuted (pool : Pool) (granule : Granule) : Bool :=
  granule.recorded ∧ (¬ pool.anyExecuted ∨ pool.executedSeq < granule.recordSeq)

/-- One turn of `Reclaim`. -/
def reclaimOne (aged : Option U64) (index : Nat) : PoolAction Verdict := do
  let world ← get
  let granule := world.pool.granules index
  if ¬ granule.committed ∨ granule.pinned ∨ granule.owner ≠ none ∨ granule.pagingRefs ≠ 0 then
    changePool (changeGranule index (fun granule => { granule with candidate := false, idleSince := 0 }))
    pure .drops
  else if unexecuted world.pool granule then pure .keeps
  else
    let waits ← (match aged with
      | none => pure false
      | some now => waitsForDelay index now)
    if waits then pure .keeps else releaseOne io index

/-- The loop of `Reclaim`, which closes the gaps of its list; it answers how many candidates are
kept and how many were released. -/
def reclaimLoop (aged : Option U64) : (turns read kept released : Nat) → PoolAction (Nat × Nat)
  | 0,_,kept,released => pure (kept,released)
  | turns+1,read,kept,released => do
    let world ← get
    let index := world.pool.candidateList read
    let verdict ← reclaimOne io aged index
    match verdict with
    | .keeps =>
      changePool (fun pool => { pool with candidateList := Function.update pool.candidateList kept index })
      reclaimLoop aged turns (read + 1) (kept + 1) released
    | .drops => reclaimLoop aged turns (read + 1) kept released
    | .releases => reclaimLoop aged turns (read + 1) kept (released + 1)

/-- `Reclaim`; with a time it is the aged one. -/
def reclaim (aged : Option U64) : PoolAction Nat := do
  let world ← get
  let (kept,released) ← reclaimLoop io aged world.pool.candidates 0 0 0
  changePool (fun pool => { pool with candidates := kept })
  pure released

inductive Request
  | place (owner : Nat) (base bytes : U64)
  | unplace (owner : Nat)
  | pin (offset bytes : U64)
  | pagingRef (offset : U64) (delta : Int)
  | record (offset bytes seq : U64)
  | executed (seq : U64)
  | reclaim
  | reclaimAged (now : U64)
deriving DecidableEq

def act : Request → PoolAction Unit
  | .place owner base bytes => do
    let _ ← place io owner base bytes
    pure ()
  | .unplace owner => unplace owner
  | .pin offset bytes => do
    let _ ← pin io offset bytes
    pure ()
  | .pagingRef offset delta => pagingRef offset delta
  | .record offset bytes seq => record offset bytes seq
  | .executed seq => executed seq
  | .reclaim => do
    let _ ← reclaim io none
    pure ()
  | .reclaimAged now => do
    let _ ← reclaim io (some now)
    pure ()

end WindowsOnM1.PoolDemandModel
