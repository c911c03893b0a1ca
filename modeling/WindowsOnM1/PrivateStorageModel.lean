import WindowsOnM1.PrivatePoolModel
import WindowsOnM1.SubmitRecords

/-!
The private storage of a process: a buffer manager with its page list, its block list and a
heap that grows at fixed addresses, and the scenes that are prepared on it. The extents come
from the private pool, and their bytes lie in one mapping of the pool.
-/
namespace WindowsOnM1.PrivateExtents
open ByteMemory CountedLoop Submit

def heapBlock : Nat := 0x20000
def heapBlocks : Nat := 32
def heapGrows : Nat := 8
def noExtent : PrivateExtent := ⟨0,0,0,0⟩
def noRange : ProcessRange := ⟨0,0,0⟩

/-- `extents` are the page list, the block list and the first blocks of the heap; `grown` are the later blocks. -/
structure PrivateManager where
  owner : Nat := 0
  generation : Nat := 0
  vaBase : Nat := 0
  extents : Nat → PrivateExtent := fun _ => noExtent
  grown : Nat → PrivateExtent := fun _ => noExtent
  grownCount : Nat := 0
  blocks : Nat := 0

structure PrivateScene where
  generation : Nat := 0
  extents : Nat → PrivateExtent := fun _ => noExtent
  ranges : Fin processRangeCount → ProcessRange := fun _ => noRange

/-- A call on a pool whose leases are kept beside it. -/
def PoolRun.call (state : PoolRun) (operation : PoolOperation) : Option PrivateExtent × PoolRun :=
  ((operation.answer state.pool).1,state.step operation)
def zeroBytes (cpu : Memory) (offset bytes : Nat) : Memory := fun i => if offset ≤ i ∧ i < offset + bytes then 0 else cpu i
def storeU32 (cpu : Memory) (offset : Nat) (value : U32) : Memory := copyTo cpu offset (contents (u32Bytes value)) 4

/-- The variables of a preparation. `taken` are the extents that the call has allocated so far,
    the last one first: the source counts them in `managers` and `scratch`. -/
structure Construction where
  run : PoolRun
  cpu : Memory
  manager : PrivateManager
  scene : PrivateScene
  taken : List PrivateExtent

/-- The call that allocates the extent of range `i`. -/
def rangeCall (owner need : Nat) (required : Nat → Nat) (i : Nat) : PoolOperation :=
  if i = 2 then .allocateAt owner (need * heapBlock) privateHeapVaOffset else .allocate owner (required i)

/-- Range `i` of the scene. -/
def rangeOf (va : Nat) (required : Nat → Nat) (extent : PrivateExtent) (i : Nat) : ProcessRange :=
  if i = 2 then ⟨BitVec.ofNat 64 (va + privateHeapVaOffset),BitVec.ofNat 32 (required 2),0⟩
  else ⟨BitVec.ofNat 64 (va + extent.vaOffset),BitVec.ofNat 32 extent.bytes,0⟩
def PrivateScene.setRange (scene : PrivateScene) (i : Nat) (range : ProcessRange) : PrivateScene :=
  { scene with ranges := fun j => if j.val = i then range else scene.ranges j }

/-- A turn of the loop over the nine ranges: the first three belong to the manager, and are
    allocated only when it is fresh. -/
def prepareRange (owner va need : Nat) (required : Nat → Nat) (fresh : Bool) (i : Nat) (state : Construction) :
    Bool × Construction :=
  if i < 3 ∧ fresh = false then
    (true,{ state with scene := state.scene.setRange i (rangeOf va required (state.manager.extents i) i) })
  else
    match state.run.call (rangeCall owner need required i) with
    | (none,run) => (false,{ state with run := run })
    | (some extent,run) =>
      let cpu := zeroBytes state.cpu extent.offset extent.bytes
      let scene := state.scene.setRange i (rangeOf va required extent i)
      if i < 3 then
        let manager := { state.manager with extents := fun j => if j = i then extent else state.manager.extents j }
        (true,⟨run,cpu,manager,scene,extent :: state.taken⟩)
      else
        let scene := { scene with extents := fun j => if j = i - 3 then extent else scene.extents j }
        (true,⟨run,cpu,state.manager,scene,extent :: state.taken⟩)

/-- The page list and the block list of the pages from `number` on. -/
def writeLists (pageList blockList number blocks : Nat) (cpu : Memory) : Memory :=
  forRange (fun i cpu =>
    forRange (fun j cpu => storeU32 cpu (pageList + 4 * (4 * i + j)) (BitVec.ofNat 32 (number + 4 * i + j))) 0 4
      (storeU32 cpu (blockList + 4 * (2 * i)) (BitVec.ofNat 32 (number + 4 * i)))) 0 blocks cpu

/-- The label `Fail`: the extents are zeroed and freed, the last one first. -/
def undo (owner : Nat) : List PrivateExtent → PoolRun × Memory → PoolRun × Memory
  | [], state => state
  | extent :: rest, (run,cpu) => undo owner rest (run.step (.free owner extent),zeroBytes cpu extent.offset extent.bytes)

structure Prepared where
  done : Bool
  run : PoolRun
  cpu : Memory
  manager : PrivateManager
  scene : PrivateScene
  taken : List PrivateExtent

/-- `AppleAgxG3PrivatePrepare`: the preparation without a diagnostic. -/
def privatePrepare (run : PoolRun) (owner : Nat) (cpu : Memory) (va : Nat) (render : NativeRender) (manager : PrivateManager)
    (scene : PrivateScene) : Prepared :=
  let refused : Prepared := ⟨false,run,cpu,manager,scene,[]⟩
  if owner = 0 ∨ scene.generation ≠ 0 ∨ va < 2 ^ 25 ∨ va ≥ 2 ^ 39 ∨ va % 0x2000000 ≠ 0 then refused
  else
    match processRequiredBytes render with
    | none => refused
    | some required =>
      if render.layers ≠ 1 ∨ render.samples ≠ 1 ∨ required 2 ≠ heapBlocks * heapBlock then refused
      else
        let need := minTvbBlocks render.widthPx.toNat render.heightPx.toNat
        let fresh : Bool := manager.generation = 0
        if fresh = false ∧ (manager.owner ≠ owner ∨ manager.vaBase ≠ va) then refused
        else if need = 0 ∨ need > heapBlocks ∨ (fresh = false ∧ need > manager.blocks) then refused
        else
          let fail (state : Construction) : Prepared :=
            let undone := undo owner state.taken (state.run,state.cpu)
            ⟨false,undone.1,undone.2,manager,scene,state.taken⟩
          match countLoop (prepareRange owner va need required fresh) 0 processRangeCount ⟨run,cpu,manager,{},[]⟩ with
          | (false,state) => fail state
          | (true,state) =>
            let finish (cpu : Memory) (manager : PrivateManager) : Prepared :=
              ⟨true,state.run,cpu,manager,{ state.scene with generation := (state.scene.extents 0).generation },state.taken⟩
            if fresh = true then
              let number := (state.scene.ranges 2).va.toNat >>> 15
              let blocks := required 2 / 0x20000
              if number + 4 * blocks > 0xffffffff then fail state
              else
                finish (writeLists (state.manager.extents 0).offset (state.manager.extents 1).offset number blocks state.cpu)
                  { state.manager with
                    owner := owner
                    vaBase := va
                    generation := (state.manager.extents 0).generation
                    blocks := need }
            else finish state.cpu state.manager

structure Grown where
  done : Bool
  run : PoolRun
  cpu : Memory
  manager : PrivateManager

def privateGrowHeap (run : PoolRun) (owner : Nat) (cpu : Memory) (manager : PrivateManager) (blocks : Nat) : Grown :=
  if owner = 0 ∨ manager.generation = 0 ∨ manager.owner ≠ owner ∨ manager.blocks = 0 ∨ blocks > heapBlocks then
    ⟨false,run,cpu,manager⟩
  else if blocks ≤ manager.blocks then ⟨true,run,cpu,manager⟩
  else if manager.grownCount ≥ heapGrows then ⟨false,run,cpu,manager⟩
  else
    match run.call (.allocateAt owner ((blocks - manager.blocks) * heapBlock) (privateHeapVaOffset + manager.blocks * heapBlock)) with
    | (none,run) => ⟨false,run,cpu,manager⟩
    | (some extent,run) =>
      ⟨true,run,zeroBytes cpu extent.offset extent.bytes,{ manager with
          grown := fun j => if j = manager.grownCount then extent else manager.grown j
          grownCount := manager.grownCount + 1
          blocks := blocks }⟩

/-- The pool, its bytes, the managers, the scenes, and the renders that were prepared on each manager. -/
structure World where
  run : PoolRun := {}
  cpu : Memory
  managers : Nat → PrivateManager := fun _ => {}
  scenes : Nat → PrivateScene := fun _ => {}
  prepared : Nat → List NativeRender := fun _ => []

/-- A call on the pool, a preparation of a scene on a manager, or a growth of a heap. -/
inductive StorageCall where
  | pool (operation : PoolOperation)
  | prepare (owner va : Nat) (render : NativeRender) (manager scene : Nat)
  | growHeap (owner manager blocks : Nat)

def World.prepare (world : World) (owner va : Nat) (render : NativeRender) (manager scene : Nat) : Prepared :=
  privatePrepare world.run owner world.cpu va render (world.managers manager) (world.scenes scene)
def World.growHeap (world : World) (owner manager blocks : Nat) : Grown :=
  privateGrowHeap world.run owner world.cpu (world.managers manager) blocks

def World.step (world : World) : StorageCall → World
  | .pool operation => { world with run := world.run.step operation }
  | .prepare owner va render manager scene =>
    let result := world.prepare owner va render manager scene
    ⟨result.run,result.cpu,Function.update world.managers manager result.manager,Function.update world.scenes scene result.scene,
      if result.done = true then Function.update world.prepared manager (render :: world.prepared manager) else world.prepared⟩
  | .growHeap owner manager blocks =>
    let result := world.growHeap owner manager blocks
    { world with run := result.run, cpu := result.cpu, managers := Function.update world.managers manager result.manager }

def runStorage (cpu : Memory) (calls : List StorageCall) : World := calls.foldl World.step { cpu := cpu }

end WindowsOnM1.PrivateExtents
