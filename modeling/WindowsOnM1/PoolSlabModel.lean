import WindowsOnM1.Actions
import Mathlib.Data.BitVec

/-!
The slabs of `render_pool_slab.c`: slots are handed out all or nothing, and slabs come from
and go back to Windows with the reservations. A slab is named by its address.
-/
namespace WindowsOnM1.PoolSlabModel
open Actions

abbrev U32 := BitVec 32
abbrev U64 := BitVec 64

/-- `ADMISSION_POOL_SLAB_SLOTS`. -/
abbrev slabSlots : Nat := 32

/-- `sizeof(ADMISSION_POOL_SLAB)`. -/
abbrev slabSize : Nat := 280
def Apart (slab other : U64) : Prop := slab.toNat + slabSize ≤ other.toNat ∨ other.toNat + slabSize ≤ slab.toNat

/-- The callbacks, which answer by the turn in which they are called. A new slab is not
part of the memory of those that are held. -/
structure SlabIo where
  newSlab : List U64 → Nat → Option U64
  mayGrow : Option (Nat → Bool)
  fresh : ∀ held turn slab, newSlab held turn = some slab → ∀ other ∈ held, Apart slab other

/-- `ADMISSION_POOL_SLAB`. -/
structure Slab where
  freeMask : U32
  live : U32
deriving DecidableEq

/-- `ADMISSION_POOL_SLABS` and the memory of the slabs; of the statistics only the number of slabs, which decisions read. -/
structure Slabs where
  record : U64 → Slab
  list : List U64
  spareLimit : U64
  empty : U64
  reserved : U64
  reserveCap : U64
  slabs : U64

inductive Call
  | newSlab (slab : Option U64)
  | mayGrow (allowed : Bool)
  | freeSlab (slab : U64)
deriving DecidableEq

abbrev Place := U64 × Nat

/-- With the slots that are handed out and not given back. -/
structure World where
  slabs : Slabs
  turn : Nat
  calls : List Call
  handed : List Place

abbrev SlabAction (α : Type) := StateM World α
def call {α : Type} (callback : Nat → α) (record : α → Call) : SlabAction α := fun world =>
  (callback world.turn,{ world with turn := world.turn + 1, calls := world.calls ++ [record (callback world.turn)] })
def changeSlabs (change : Slabs → Slabs) : SlabAction Unit := modify (fun world => { world with slabs := change world.slabs })
@[simp] theorem gives_call {α : Type} (callback : Nat → α) (record : α → Call) (world : World) (post : α → World → Prop) :
    Gives (call callback record) world post = post (callback world.turn)
      { world with turn := world.turn + 1, calls := world.calls ++ [record (callback world.turn)] } := (rfl)
@[simp] theorem gives_changeSlabs (change : Slabs → Slabs) (world : World) (post : Unit → World → Prop) :
    Gives (changeSlabs change) world post = post () { world with slabs := change world.slabs } := (rfl)

def changeSlab (slab : U64) (change : Slab → Slab) (slabs : Slabs) : Slabs :=
  { slabs with record := Function.update slabs.record slab (change (slabs.record slab)) }
def slotBit (slot : Nat) : U32 := 1 <<< slot

/-- `LowestSlot`; 32 turns find the lowest bit of a mask that has one. -/
def lowestSlot : (turns : Nat) → U32 → Nat
  | 0,_ => 0
  | turns+1,mask => if mask &&& 1 ≠ 0 then 0 else lowestSlot turns (mask >>> 1) + 1

/-- `Unlink`. -/
def unlink (slab : U64) (slabs : Slabs) : Slabs := { slabs with list := slabs.list.erase slab, slabs := slabs.slabs - 1 }

/-- `Promised`. -/
def promised (slabs : Slabs) : U64 := if slabs.reserved < slabs.reserveCap then slabs.reserved else slabs.reserveCap

/-- `MayFree`. -/
def mayFree (slabs : Slabs) : Bool := slabs.spareLimit < slabs.empty ∧ promised slabs ≤ (slabs.slabs - 1) * 32

/-- `FreeEmpty`. -/
def freeEmpty (slab : U64) : SlabAction Unit := do
  changeSlabs (fun slabs => { unlink slab slabs with empty := slabs.empty - 1 })
  call (fun _ => ()) (fun _ => .freeSlab slab)
def freeIfEmpty (slab : U64) : SlabAction Unit := do
  let world ← get
  if (world.slabs.record slab).live = 0 then freeEmpty slab else pure ()

/-- The loop of `Trim`; the next slab is read before one is freed. -/
def trimLoop : List U64 → SlabAction Unit
  | [] => pure ()
  | slab :: rest => do
    let world ← get
    if ¬ mayFree world.slabs then pure ()
    else
      freeIfEmpty slab
      trimLoop rest

/-- `Trim`. -/
def trim : SlabAction Unit := do
  let world ← get
  trimLoop world.slabs.list

variable (io : SlabIo)

/-- `AddSlab`. -/
def addSlab : SlabAction (Option U64) := do
  let world ← get
  let added ← call (io.newSlab world.slabs.list) .newSlab
  match added with
  | none => pure none
  | some slab =>
    changeSlabs (fun slabs => { changeSlab slab (fun _ => ⟨~~~0,0⟩) slabs with
      list := slab :: slabs.list, empty := slabs.empty + 1, slabs := slabs.slabs + 1 })
    pure (some slab)

/-- `AdmissionPoolSlabGive`. -/
def give (slab : U64) (slot : Nat) : SlabAction Unit := do
  let world ← get
  if slabSlots ≤ slot ∨ (world.slabs.record slab).freeMask &&& slotBit slot ≠ 0 then pure ()
  else
    changeSlabs (changeSlab slab (fun slab => ⟨slab.freeMask ||| slotBit slot,slab.live - 1⟩))
    let world ← get
    if (world.slabs.record slab).live ≠ 0 then pure ()
    else
      changeSlabs (fun slabs => { slabs with empty := slabs.empty + 1 })
      let world ← get
      if mayFree world.slabs then freeEmpty slab else pure ()

/-- The loop of `AdmissionPoolSlabReserve`. Each turn adds a slab, so as many turns as slots
are promised are enough. -/
def reserveLoop (count : U64) : (turns : Nat) → SlabAction Bool
  | 0 => pure true
  | turns+1 => do
    let world ← get
    if promised world.slabs ≤ world.slabs.slabs * 32 then pure true
    else
      let floor ← (match io.mayGrow with
        | none => pure false
        | some mayGrow => do
          let allowed ← call mayGrow .mayGrow
          pure (!allowed))
      let added ← (if floor then pure none else addSlab io)
      match added with
      | none =>
        changeSlabs (fun slabs => { slabs with reserved := slabs.reserved - count })
        trim
        pure false
      | some _ => reserveLoop count turns

/-- `AdmissionPoolSlabReserve`. -/
def reserve (count : U64) : SlabAction Bool := do
  changeSlabs (fun slabs => { slabs with reserved := slabs.reserved + count })
  let world ← get
  reserveLoop io count (promised world.slabs).toNat

/-- `AdmissionPoolSlabUnreserve`. -/
def unreserve (count : U64) : SlabAction Unit := do
  changeSlabs (fun slabs => { slabs with reserved := if count < slabs.reserved then slabs.reserved - count else 0 })
  trim

/-- The most used slab with a free slot; `best` is the one found so far. -/
def bestSlab (slabs : Slabs) : List U64 → (best : Option U64) → Option U64
  | [],best => best
  | slab :: rest,best =>
    if (slabs.record slab).freeMask ≠ 0 ∧ best.all (fun best => (slabs.record best).live < (slabs.record slab).live) then
      bestSlab slabs rest (some slab)
    else bestSlab slabs rest best

/-- The loop that takes the free slots of a slab, `turns` at most. -/
def takeSlots (best : U64) : (turns : Nat) → (taken : List Place) → SlabAction (List Place)
  | 0,taken => pure taken
  | turns+1,taken => do
    let world ← get
    if (world.slabs.record best).freeMask = 0 then pure taken
    else
      let slot := lowestSlot 32 (world.slabs.record best).freeMask
      changeSlabs (changeSlab best (fun slab => ⟨slab.freeMask &&& ~~~slotBit slot,slab.live + 1⟩))
      takeSlots best turns (taken ++ [(best,slot)])

/-- The slots that were taken are given back, the last one first. -/
def giveBack : List Place → SlabAction Unit
  | [] => pure ()
  | (slab,slot) :: rest => do
    give slab slot
    giveBack rest

/-- The loop of `AdmissionPoolSlabTake`. Each turn takes a slot, so as many turns as there are
slots to take are enough. -/
def takeLoop (count : Nat) : (turns : Nat) → (taken : List Place) → SlabAction (Option (List Place))
  | 0,taken => pure (some taken)
  | turns+1,taken => do
    if count ≤ taken.length then pure (some taken)
    else
      let world ← get
      let best ← (match bestSlab world.slabs world.slabs.list none with
        | some best => pure (some best)
        | none => addSlab io)
      match best with
      | none =>
        giveBack taken.reverse
        pure none
      | some best =>
        changeSlabs (fun slabs => if (slabs.record best).live = 0 then { slabs with empty := slabs.empty - 1 } else slabs)
        let taken ← takeSlots best (count - taken.length) taken
        takeLoop count turns taken

/-- `AdmissionPoolSlabTake`. -/
def take (count : U64) : SlabAction (Option (List Place)) :=
  if count = 0 then pure none else takeLoop io count.toNat count.toNat []

inductive Request
  | reserve (count : U64)
  | unreserve (count : U64)
  | take (count : U64)
  | give (slab : U64) (slot : Nat)
deriving DecidableEq

def changeHanded (change : List Place → List Place) : SlabAction Unit :=
  modify (fun world => { world with handed := change world.handed })
@[simp] theorem gives_changeHanded (change : List Place → List Place) (world : World) (post : Unit → World → Prop) :
    Gives (changeHanded change) world post = post () { world with handed := change world.handed } := (rfl)

def act : Request → SlabAction Unit
  | .reserve count => do
    let _ ← reserve io count
    pure ()
  | .unreserve count => unreserve count
  | .take count => do
    let taken ← take io count
    changeHanded (fun handed => handed ++ taken.getD [])
  | .give slab slot => do
    give slab slot
    changeHanded (fun handed => handed.erase (slab,slot))

/-- The zeroed slabs with the limits of their owner. -/
def noSlabs (spareLimit reserveCap : U64) : World :=
  ⟨⟨fun _ => ⟨0,0⟩,[],spareLimit,0,0,reserveCap,0⟩,0,[],[]⟩

end WindowsOnM1.PoolSlabModel
