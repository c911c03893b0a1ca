import Mathlib.Data.Nat.Bitwise
import WindowsOnM1.CountedLoop
import WindowsOnM1.FirstFit

/-!
The private pool of a render context: 64-KiB blocks that are lent to owners under a
generation, each stretch of blocks at a stretch of its owner's process addresses. The pool
keeps the records of the blocks only; their addresses and bytes are elsewhere.
-/
namespace WindowsOnM1.PrivateExtents
open CountedLoop FirstFit

def privateUnit : Nat := 0x10000
def privateUnits : Nat := 1024
def processUnits : Nat := 246
def privateVaBytes : Nat := 0x02000000
def privateVaUnits : Nat := 512
def privateHeapVaOffset : Nat := 0x01c00000
def privateGeneralVaUnits : Nat := privateHeapVaOffset / privateUnit

/-- `~0ULL`. -/
def generationLimit : Nat := 2 ^ 64 - 1

@[ext] structure PrivateBlock where
  owner : Nat := 0
  generation : Nat := 0
  first : Nat := 0
  count : Nat := 0
  vaFirst : Nat := 0
deriving DecidableEq

structure PrivatePool where
  blocks : Nat → PrivateBlock := fun _ => {}
  nextGeneration : Nat := 0

@[ext] structure PrivateExtent where
  generation : Nat
  offset : Nat
  bytes : Nat
  vaOffset : Nat
deriving DecidableEq

/-- The turn of the first loop of an allocation: block `index`, with the units of the owner
    and its addresses in use so far. -/
def countBlock (pool : PrivatePool) (owner index : Nat) (state : Nat × (Nat → Bool)) : Bool × Nat × (Nat → Bool) :=
  let block := pool.blocks index
  if block.owner = owner then
    if index < block.first ∨ index - block.first ≥ block.count then (false,state)
    else
      let delta := index - block.first
      if block.vaFirst ≥ privateVaUnits ∨ delta ≥ privateVaUnits - block.vaFirst then (false,state)
      else
        let vaIndex := block.vaFirst + delta
        if vaIndex ≥ privateVaUnits then (false,state)
        else if state.2 vaIndex = true then (false,state)
        else (true,state.1 + 1,fun other => if other = vaIndex then true else state.2 other)
  else (true,state)

/-- The first address unit of an allocation; `none` for the unit is `~0u`, first fit below the heap window. -/
def vaPlace (vaUsed : Nat → Bool) (count : Nat) : Option Nat → Option Nat
  | some vaUnit =>
    if vaUnit ≥ privateVaUnits ∨ count > privateVaUnits - vaUnit then none
    else if (List.range' vaUnit count).any vaUsed = true then none
    else some vaUnit
  | none =>
    let found := firstFit vaUsed count 0 privateGeneralVaUnits 0
    if found.1 ≠ count then none else some found.2

/-- The block `index` for the scan for a free run. -/
def PrivatePool.occupied (pool : PrivatePool) (index : Nat) : Bool := decide ((pool.blocks index).owner ≠ 0)

/-- The blocks `first`, …, `first + count - 1` change, and the last generation. -/
def PrivatePool.fill (pool : PrivatePool) (first count generation : Nat) (block : PrivateBlock → PrivateBlock) : PrivatePool :=
  ⟨fun index => if first ≤ index ∧ index < first + count then block (pool.blocks index) else pool.blocks index,generation⟩

def privateAllocateVa (pool : PrivatePool) (owner bytes : Nat) (vaUnit : Option Nat) : Option PrivateExtent × PrivatePool :=
  if owner = 0 ∨ bytes = 0 ∨ bytes > 8 <<< 20 ∨ pool.nextGeneration = generationLimit then (none,pool)
  else
    let count := (bytes + privateUnit - 1) / privateUnit
    match countLoop (countBlock pool owner) 0 privateUnits (0,fun _ => false) with
    | (false,_) => (none,pool)
    | (true,used,vaUsed) =>
      if used > processUnits then (none,pool)
      else if count > processUnits - used then (none,pool)
      else
        let found := firstFit pool.occupied count 0 privateUnits 0
        if found.1 ≠ count then (none,pool)
        else
          match vaPlace vaUsed count vaUnit with
          | none => (none,pool)
          | some vaFirst =>
            let generation := pool.nextGeneration + 1
            (some ⟨generation,found.2 * privateUnit,count * privateUnit,vaFirst * privateUnit⟩,
              pool.fill found.2 count generation (fun _ => ⟨owner,generation,found.2,count,vaFirst⟩))

def privateAllocate (pool : PrivatePool) (owner bytes : Nat) : Option PrivateExtent × PrivatePool :=
  privateAllocateVa pool owner bytes none
def privateAllocateAt (pool : PrivatePool) (owner bytes vaOffset : Nat) : Option PrivateExtent × PrivatePool :=
  if vaOffset &&& (privateUnit - 1) ≠ 0 then (none,pool)
  else privateAllocateVa pool owner bytes (some (vaOffset / privateUnit))

/-- The blocks of an extent, when its owner has it under its generation. -/
def privateOwned (pool : PrivatePool) (owner : Nat) (extent : PrivateExtent) : Option (Nat × Nat) :=
  if owner = 0 ∨ extent.generation = 0 ∨ extent.bytes = 0 ∨
      (extent.offset ||| extent.bytes ||| extent.vaOffset) &&& (privateUnit - 1) ≠ 0 ∨
      extent.offset ≥ privateUnits * privateUnit ∨ extent.bytes > privateUnits * privateUnit - extent.offset ∨
      extent.vaOffset ≥ privateVaBytes ∨ extent.bytes > privateVaBytes - extent.vaOffset then none
  else
    let first := extent.offset / privateUnit
    let count := extent.bytes / privateUnit
    if first ≥ privateUnits ∨ count > privateUnits - first then none
    else if (List.range' first count).any (fun index => (pool.blocks index).owner ≠ owner ||
        (pool.blocks index).generation ≠ extent.generation || (pool.blocks index).first ≠ first ||
        (pool.blocks index).count ≠ count || (pool.blocks index).vaFirst ≠ extent.vaOffset / privateUnit) = true then none
    else some (first,count)

def privateRenew (pool : PrivatePool) (owner : Nat) (extent : PrivateExtent) : Option PrivateExtent × PrivatePool :=
  match privateOwned pool owner extent with
  | none => (none,pool)
  | some (first,count) =>
    if pool.nextGeneration = generationLimit then (none,pool)
    else
      let generation := pool.nextGeneration + 1
      (some { extent with generation := generation },
        pool.fill first count generation (fun block => { block with generation := generation }))

def privateFree (pool : PrivatePool) (owner : Nat) (extent : PrivateExtent) : Bool × PrivatePool :=
  match privateOwned pool owner extent with
  | none => (false,pool)
  | some (first,count) => (true,pool.fill first count pool.nextGeneration (fun _ => {}))

/-- A call on the pool, by any owner and with any arguments. -/
inductive PoolOperation where
  | allocate (owner bytes : Nat)
  | allocateAt (owner bytes vaOffset : Nat)
  | renew (owner : Nat) (extent : PrivateExtent)
  | free (owner : Nat) (extent : PrivateExtent)

/-- What a call returns and leaves; `none` is the result 0, and a free gives its extent back. -/
def PoolOperation.answer (pool : PrivatePool) : PoolOperation → Option PrivateExtent × PrivatePool
  | .allocate owner bytes => privateAllocate pool owner bytes
  | .allocateAt owner bytes vaOffset => privateAllocateAt pool owner bytes vaOffset
  | .renew owner extent => privateRenew pool owner extent
  | .free owner extent => ((if (privateFree pool owner extent).1 = true then some extent else none),(privateFree pool owner extent).2)

/-- An extent and its owner, and whether the extent was placed at a fixed address. -/
structure Lease where
  owner : Nat
  extent : PrivateExtent
  fixed : Bool
deriving DecidableEq

def Lease.Is (lease : Lease) (owner : Nat) (extent : PrivateExtent) : Prop := lease.owner = owner ∧ lease.extent = extent
instance (lease : Lease) (owner : Nat) (extent : PrivateExtent) : Decidable (lease.Is owner extent) :=
  inferInstanceAs (Decidable (_ ∧ _))

/-- The leases after a call that succeeded with an extent. -/
def PoolOperation.leases (extent : PrivateExtent) (live : List Lease) : PoolOperation → List Lease
  | .allocate owner _ => ⟨owner,extent,false⟩ :: live
  | .allocateAt owner _ _ => ⟨owner,extent,true⟩ :: live
  | .renew owner old => live.map (fun lease => if lease.Is owner old then { lease with extent := extent } else lease)
  | .free owner old => live.filter (fun lease => ¬ lease.Is owner old)

/-- The generations handed out after a call that succeeded with an extent. -/
def PoolOperation.handedOut (extent : PrivateExtent) (generations : List Nat) : PoolOperation → List Nat
  | .free _ _ => generations
  | _ => extent.generation :: generations

/-- A pool with the leases that are live and the generations handed out so far. -/
structure PoolRun where
  pool : PrivatePool := {}
  live : List Lease := []
  generations : List Nat := []

def PoolRun.step (state : PoolRun) (operation : PoolOperation) : PoolRun :=
  match operation.answer state.pool with
  | (none,pool) => { state with pool := pool }
  | (some extent,pool) => ⟨pool,operation.leases extent state.live,operation.handedOut extent state.generations⟩
def runPool (operations : List PoolOperation) : PoolRun := operations.foldl PoolRun.step {}

end WindowsOnM1.PrivateExtents
