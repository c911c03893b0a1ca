import Mathlib.Data.BitVec
import WindowsOnM1.CheckedFill

/-!
The planners of `apple_agx_gpuva_g3_translation.c`: a span of page-table entries of 4 KiB or of
64 KiB becomes native leaves of 16 KiB. An array is a function of its index.
-/
namespace WindowsOnM1.GpuvaG3
open CountedLoop

abbrev U32 := BitVec 32
abbrev U64 := BitVec 64

/-- `APPLE_AGX_GPUVA_G3_LOGICAL_PAGE`. -/
abbrev logicalPage : U64 := 0x1000

/-- `APPLE_AGX_GPUVA_G3_NATIVE_PAGE`. -/
abbrev nativePage : U64 := 0x4000

/-- `APPLE_AGX_GPUVA_G3_LOGICAL_LEAF_ENTRIES`. -/
abbrev logicalLeafEntries : U32 := 8192

/-- `APPLE_AGX_GPUVA_G3_VALID`. -/
abbrev valid : U32 := 1

/-- `APPLE_AGX_GPUVA_G3_WRITE`. -/
abbrev write : U32 := 2

/-- `va_limit`. -/
abbrev vaLimit : U64 := 1 <<< 39

/-- `APPLE_AGX_GPUVA_G3_LOGICAL_PTE`, what is read of it. -/
structure LogicalPte where
  guestIpa : U64
  segmentId : U32
  flags : U32
deriving DecidableEq

/-- `APPLE_AGX_GPUVA_G3_NATIVE_LEAF`. -/
structure NativeLeaf where
  gpuVa : U64
  guestIpa : U64
  segmentId : U32
  validMask : U32
  writableMask : U32
deriving DecidableEq

/-- `APPLE_AGX_GPUVA_G3_RESULT`. -/
inductive PlanResult
  | ok | unmap | invalid | unrepresentable
deriving DecidableEq

/-- What `leaves` and `leaf_count` point to. -/
structure Plan where
  leaves : Nat → NativeLeaf
  leafCount : U32

/-- `plan_group`: its result and what it writes to the leaf, when there is one. -/
def planGroup (p : Nat → LogicalPte) (localSegment : U32) : PlanResult × (NativeLeaf → NativeLeaf) :=
  let flags := (p 0).flags
  let base := (p 0).guestIpa
  if flags &&& ~~~(valid ||| write) ≠ 0 then (.unrepresentable,id)
  else if flags &&& valid = 0 then
    if (List.range 4).any (fun i => (p i).flags != 0) then (.unrepresentable,id)
    else (.unmap,fun leaf => { leaf with guestIpa := 0, segmentId := 0, validMask := 0, writableMask := 0 })
  else if base = 0 ∨ base &&& (nativePage - 1) ≠ 0 ∨ ~~~0 - (nativePage - 1) < base ∨ localSegment < (p 0).segmentId then
    (.unrepresentable,id)
  else if (List.range 4).any (fun i =>
      (p i).flags != flags || (p i).segmentId != (p 0).segmentId || (p i).guestIpa != base + BitVec.ofNat 64 i * logicalPage) then
    (.unrepresentable,id)
  else
    (.ok,fun leaf =>
      { leaf with
        guestIpa := base
        segmentId := (p 0).segmentId
        validMask := 15
        writableMask := if flags &&& write ≠ 0 then 15 else 0 })

/-- `entries + i * 4u`. -/
def group (entries : Nat → LogicalPte) (i : Nat) : Nat → LogicalPte := fun k => entries (i * 4 + k)

/-- One turn of the first loop of `AppleAgxGpuvaG3PlanSpan`. -/
def checkGroup (entries : Nat → LogicalPte) (localSegment : U32) (i : Nat) (overall : PlanResult) : Bool × PlanResult :=
  let result := (planGroup (group entries i) localSegment).1
  if result ≠ .ok ∧ result ≠ .unmap then (false,result)
  else (true,if result = .ok then .ok else overall)

def fillGroup (entries : Nat → LogicalPte) (firstGpuVa : U64) (localSegment : U32) (i : Nat) (leaves : Nat → NativeLeaf) :
    Nat → NativeLeaf :=
  let leaf := { leaves i with gpuVa := firstGpuVa + BitVec.ofNat 64 i * nativePage }
  Function.update leaves i ((planGroup (group entries i) localSegment).2 leaf)

/-- `AppleAgxGpuvaG3PlanSpan`. `pointers` says that none of its pointers is NULL. -/
def planSpan (pointers : Bool) (entries : Nat → LogicalPte) (startIndex count : U32) (firstGpuVa : U64)
    (localSegment segmentPageBytes : U32) (leafCapacity : U32) (plan : Plan) : PlanResult × Plan :=
  if pointers = false ∨ localSegment = 0 ∨ (segmentPageBytes ≠ 0x4000 ∧ segmentPageBytes ≠ 0x10000) ∨
      count = 0 ∨ count &&& 3 ≠ 0 ∨ startIndex &&& 3 ≠ 0 ∨ logicalLeafEntries ≤ startIndex ∨
      logicalLeafEntries - startIndex < count ∨ firstGpuVa &&& (nativePage - 1) ≠ 0 ∨ vaLimit ≤ firstGpuVa ∨
      vaLimit - firstGpuVa < count.setWidth 64 * logicalPage then (.invalid,plan)
  else
    let groups := count / 4
    if leafCapacity < groups then (.invalid,plan)
    else
      match countLoop (checkGroup entries localSegment) 0 groups.toNat .unmap with
      | (false,result) => (result,plan)
      | (true,overall) =>
        (overall,⟨forRange (fillGroup entries firstGpuVa localSegment) 0 groups.toNat plan.leaves,groups⟩)

/-- One turn of the first loop of `AppleAgxGpuvaG3Plan64KSpan`. -/
def check64K (entries : Nat → LogicalPte) (localSegment : U32) (i : Nat) (overall : PlanResult) : Bool × PlanResult :=
  let pte := entries i
  if pte.flags = 0 then (true,overall)
  else if (pte.flags ≠ valid ∧ pte.flags ≠ valid ||| write) ∨ (pte.segmentId ≠ 0 ∧ pte.segmentId ≠ localSegment) ∨
      pte.guestIpa = 0 ∨ pte.guestIpa &&& 0xffff ≠ 0 ∨ ~~~0 - 0xffff < pte.guestIpa then (false,.unrepresentable)
  else (true,.ok)

/-- One turn of the inner one of its last loops. -/
def fill64K (entries : Nat → LogicalPte) (firstGpuVa : U64) (i j : Nat) (leaves : Nat → NativeLeaf) : Nat → NativeLeaf :=
  let pte := entries i
  Function.update leaves (i * 4 + j)
    { gpuVa := firstGpuVa + BitVec.ofNat 64 i * 0x10000 + BitVec.ofNat 64 j * nativePage
      guestIpa := if pte.flags ≠ 0 then pte.guestIpa + BitVec.ofNat 64 j * nativePage else 0
      segmentId := if pte.flags ≠ 0 then pte.segmentId else 0
      validMask := if pte.flags ≠ 0 then 15 else 0
      writableMask := if pte.flags &&& write ≠ 0 then 15 else 0 }

/-- `AppleAgxGpuvaG3Plan64KSpan`. -/
def plan64KSpan (pointers : Bool) (entries : Nat → LogicalPte) (startIndex count : U32) (firstGpuVa : U64) (localSegment : U32)
    (leafCapacity : U32) (plan : Plan) : PlanResult × Plan :=
  if pointers = false ∨ localSegment = 0 ∨ count = 0 ∨ 512 ≤ startIndex ∨ 512 - startIndex < count ∨ leafCapacity / 4 < count ∨
      firstGpuVa &&& 0xffff ≠ 0 ∨ vaLimit ≤ firstGpuVa ∨ vaLimit - firstGpuVa < count.setWidth 64 * 0x10000 then (.invalid,plan)
  else
    match countLoop (check64K entries localSegment) 0 count.toNat .unmap with
    | (false,result) => (result,plan)
    | (true,overall) =>
      (overall,⟨forRange (fun i leaves => forRange (fill64K entries firstGpuVa i) 0 4 leaves) 0 count.toNat plan.leaves,count * 4⟩)

/-- Where an address of a leaf goes and whether it may be written; nothing where it is invalid. -/
def NativeLeaf.translate (leaf : NativeLeaf) (va : U64) : Option (U64 × Bool) :=
  let page := ((va - leaf.gpuVa) >>> 12).toNat
  if leaf.validMask.getLsbD page = true then some (leaf.guestIpa + (va - leaf.gpuVa),leaf.writableMask.getLsbD page) else none

/-- What an entry says of the address at some place of its page. -/
def LogicalPte.translate (pte : LogicalPte) (place : U64) : Option (U64 × Bool) :=
  if pte.flags &&& valid ≠ 0 then some (pte.guestIpa + place,pte.flags &&& write != 0) else none

/-- The leaves of a plan are the native pages from the first address on, and they say of every
    address of the span what its entry says, and of which segment. -/
structure Exact (pageBytes : Nat) (entries : Nat → LogicalPte) (count : Nat) (firstGpuVa : U64) (plan : Plan) : Prop where
  length : plan.leafCount.toNat * 0x4000 = count * pageBytes
  pages : ∀ n < plan.leafCount.toNat, (plan.leaves n).gpuVa.toNat = firstGpuVa.toNat + n * 0x4000
  covered : ∀ place < count * pageBytes, ∃ va : U64, va.toNat = firstGpuVa.toNat + place ∧
    (plan.leaves (place / 0x4000)).translate va =
      (entries (place / pageBytes)).translate (BitVec.ofNat 64 (place % pageBytes)) ∧
    ((entries (place / pageBytes)).flags &&& valid ≠ 0 →
      (plan.leaves (place / 0x4000)).segmentId = (entries (place / pageBytes)).segmentId)

/-- What a planner leaves: an exact plan, or what was there. -/
structure Plans (pageBytes : Nat) (entries : Nat → LogicalPte) (count : Nat) (firstGpuVa : U64) (plan : Plan)
    (outcome : PlanResult × Plan) : Prop where
  exact : outcome.1 = .ok ∨ outcome.1 = .unmap → Exact pageBytes entries count firstGpuVa outcome.2
  untouched : outcome.1 ≠ .ok ∧ outcome.1 ≠ .unmap → outcome.2 = plan

/-- The entries of 4 KiB that stand for one of 64 KiB each. -/
def expand (entries : Nat → LogicalPte) : Nat → LogicalPte := fun k =>
  { entries (k / 16) with guestIpa := (entries (k / 16)).guestIpa + BitVec.ofNat 64 (k % 16) * logicalPage }

end WindowsOnM1.GpuvaG3
