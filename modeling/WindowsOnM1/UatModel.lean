import Mathlib.Data.BitVec

/-!
The CPU-owned page tables of `apple_agx_uat_table.c` and the encodings of
`apple_agx_uat.c`. An inventory owns table pages and mapping records; a pointer to a
page is its index in the inventory, and a pointer to a leaf is a page with an entry
index. Every operation returns its result and the inventory it leaves.
-/
namespace WindowsOnM1.UatModel

abbrev U64 := BitVec 64

abbrev pageSize : U64 := 0x4000
abbrev pageMask : U64 := pageSize - 1
abbrev addressMask : U64 := 0x000000ffffffc000
abbrev descriptorMask : U64 := 3
abbrev physicalLimit : U64 := 1 <<< 40
abbrev lowLimit : U64 := 1 <<< 39
abbrev highBase : U64 := ~~~(lowLimit - 1)
abbrev contextCount : Nat := 64
abbrev firmwareContext : Nat := 0

inductive UatResult
  | Ok
  | InvalidArgument
  | UnsupportedContext
  | Misaligned
  | OutOfRange
  | Overflow
  | UnsupportedProtection
  | AlreadyMapped
  | Capacity
  | AllocationFailed
  | NotMapped
deriving DecidableEq

inductive UatProtection
  | FirmwareDeviceReadWrite
  | FirmwareSharedReadWrite
  | FirmwareGpuSharedReadWrite
  | FirmwarePrivateReadWrite
  | FirmwareGpuPrivateReadWrite
  | FirmwareReadWriteGpuReadOnly
  | GpuSharedReadOnly
  | GpuSharedWriteOnly
  | GpuSharedReadWrite
  | GpuPipelineShared
  /-- A value outside the enumeration. -/
  | Other (value : BitVec 32)
deriving DecidableEq

inductive UatHalf
  | Ttbr0
  | Ttbr1
deriving DecidableEq
structure UatRoots where
  ttbr0PhysicalAddress : U64
  ttbr1PhysicalAddress : U64
deriving DecidableEq
def UatRoots.half (roots : UatRoots) : UatHalf → U64
  | .Ttbr0 => roots.ttbr0PhysicalAddress
  | .Ttbr1 => roots.ttbr1PhysicalAddress

/-- `APPLE_AGX_UAT_PAGE` with the table it points to. -/
structure UatPage where
  physicalAddress : U64
  entries : Nat → U64
  level : Nat

/-- `APPLE_AGX_UAT_MAPPING`. The last two fields are ghosts: the root of the mapping and
    the page it assigns to each of its pages. No operation reads them. -/
structure UatMapping where
  context : Nat
  virtualAddress : U64
  physicalAddress : U64
  length : U64
  protection : UatProtection
  physicalStride : U64
  root : U64
  assigned : Nat → U64

structure UatRange where
  virtualAddress : U64
  physicalAddress : U64
  length : U64
  protection : UatProtection
deriving DecidableEq

/-- `APPLE_AGX_UAT_INVENTORY`, with the number of times the allocator was asked and the
    addresses of the pages that it handed out and got back. -/
structure UatInventory where
  pages : List UatPage
  pageCapacity : Nat
  mappings : List UatMapping
  mappingCapacity : Nat
  allocations : Nat
  obtained : List U64
  returned : List U64

/-- The pages that were obtained from the allocator and not yet returned. -/
def UatInventory.live (inventory : UatInventory) : List U64 := inventory.obtained.diff inventory.returned

/-- What `AllocatePage` fills in. -/
structure UatCandidate where
  physicalAddress : U64
  entriesAddress : U64
  entries : Nat → U64

/-- An allocator: its answer may depend on everything that happened before, and a page it
    hands out is none of those that it has not got back. -/
structure UatAllocator where
  allocatePage : Nat → List U64 → Option UatCandidate
  fresh : ∀ turn live candidate, allocatePage turn live = some candidate → candidate.physicalAddress ∉ live

/-- The attribute, the access permission, UXN and PXN of a protection. -/
def protectionFields : UatProtection → Option (U64 × U64 × Bool × Bool)
  | .FirmwareDeviceReadWrite => some (1,1,true,false)
  | .FirmwareSharedReadWrite => some (2,1,true,false)
  | .FirmwareGpuSharedReadWrite => some (2,0,true,true)
  | .FirmwarePrivateReadWrite => some (0,1,true,false)
  | .FirmwareGpuPrivateReadWrite => some (0,0,true,true)
  | .FirmwareReadWriteGpuReadOnly => some (0,1,true,true)
  | .GpuSharedReadOnly => some (2,2,false,false)
  | .GpuSharedWriteOnly => some (2,2,false,true)
  | .GpuSharedReadWrite => some (2,2,true,false)
  | .GpuPipelineShared => some (2,0,true,true)
  | .Other _ => none

/-- `Protection >= AppleAgxUatGpuSharedReadOnly`, inside the enumeration. -/
def gpuProtection : UatProtection → Bool
  | .GpuSharedReadOnly => true
  | .GpuSharedWriteOnly => true
  | .GpuSharedReadWrite => true
  | .GpuPipelineShared => true
  | _ => false

/-- `AppleAgxUatProtectionBits`. -/
def protectionBits (context : Nat) (protection : UatProtection) : Except UatResult U64 :=
  if contextCount ≤ context then .error .UnsupportedContext
  else match protectionFields protection with
    | none => .error .UnsupportedProtection
    | some (attr,ap,uxn,pxn) =>
      if (context = firmwareContext ∧ gpuProtection protection) ∨
          (context ≠ firmwareContext ∧ ¬ gpuProtection protection) then .error .UnsupportedProtection
      else .ok (1 <<< 55 ||| 1 <<< 10 ||| ap <<< 6 ||| attr <<< 2 ||| 3 |||
        (if uxn then 1 <<< 54 else 0) ||| (if pxn then 1 <<< 53 else 0) |||
        (if context ≠ firmwareContext then 1 <<< 11 else 0))

def encodeTableDescriptor (physicalAddress : U64) : Except UatResult U64 :=
  if physicalAddress &&& pageMask ≠ 0 then .error .Misaligned
  else if physicalLimit ≤ physicalAddress then .error .OutOfRange
  else .ok (physicalAddress ||| 3)

def encodePageDescriptor (context : Nat) (physicalAddress : U64) (protection : UatProtection) :
    Except UatResult U64 :=
  match protectionBits context protection with
  | .error result => .error result
  | .ok bits =>
    if physicalAddress &&& pageMask ≠ 0 then .error .Misaligned
    else if physicalLimit ≤ physicalAddress then .error .OutOfRange
    else .ok (physicalAddress ||| bits)

/-- `AppleAgxUatValidateRange`. -/
def validateRange (context : Nat) (virtualAddress physicalAddress length : U64) (protection : UatProtection) :
    Except UatResult UatHalf :=
  if length = 0 then .error .InvalidArgument
  else match protectionBits context protection with
    | .error result => .error result
    | .ok _ =>
      if (virtualAddress ||| physicalAddress ||| length) &&& pageMask ≠ 0 then .error .Misaligned
      else if ~~~virtualAddress < length - 1 then .error .Overflow
      else if physicalLimit ≤ physicalAddress ∨ physicalLimit - physicalAddress < length then .error .OutOfRange
      else if virtualAddress < lowLimit ∧ virtualAddress + length - 1 < lowLimit then .ok .Ttbr0
      else if highBase ≤ virtualAddress then .ok .Ttbr1
      else .error .OutOfRange

/-- `AppleAgxUatCheckOwnerArguments` on an inventory with storage. -/
def checkOwnerArguments (inventory : UatInventory) : Bool :=
  inventory.pages.length ≤ inventory.pageCapacity && inventory.mappings.length ≤ inventory.mappingCapacity
def findPage (pages : List UatPage) (physicalAddress : U64) (level : Nat) : Option Nat :=
  pages.findIdx? (fun page => page.physicalAddress == physicalAddress && page.level == level)
def pageIsZero (entries : Nat → U64) : Bool := (List.range 2048).all (fun index => entries index == 0)

/-- The entries of a table page that are walked. -/
def entryCount (level : Nat) : Nat := if level = 0 then 8 else 2048
def readEntry (pages : List UatPage) (page index : Nat) : U64 :=
  match pages[page]? with
  | none => 0
  | some found => found.entries index
def writeEntry (pages : List UatPage) (page index : Nat) (value : U64) : List UatPage :=
  pages.modify page (fun found => { found with entries := Function.update found.entries index value })

/-- A candidate that `AppleAgxUatAllocateRecordedPage` keeps. -/
def usable (candidate : UatCandidate) : Bool :=
  candidate.physicalAddress != 0 && candidate.entriesAddress != 0 &&
    candidate.physicalAddress &&& pageMask == 0 && candidate.entriesAddress &&& 7 == 0 &&
    candidate.physicalAddress < physicalLimit && pageIsZero candidate.entries

/-- `AppleAgxUatAllocateRecordedPage`, with the index of the new page. -/
def allocateRecordedPage (level : Nat) (allocator : UatAllocator) (inventory : UatInventory) :
    Except UatResult Nat × UatInventory :=
  if inventory.pageCapacity ≤ inventory.pages.length then (.error .Capacity,inventory)
  else
    let asked := { inventory with allocations := inventory.allocations + 1 }
    match allocator.allocatePage inventory.allocations inventory.live with
    | none => (.error .AllocationFailed,asked)
    | some candidate =>
      let handed := { asked with obtained := inventory.obtained ++ [candidate.physicalAddress] }
      if ¬ usable candidate then
        (.error .AllocationFailed,{ handed with returned := inventory.returned ++ [candidate.physicalAddress] })
      else (.ok inventory.pages.length,{ handed with
        pages := inventory.pages ++ [⟨candidate.physicalAddress,candidate.entries,level⟩] })

/-- `AppleAgxUatReleaseFrom`, from the last page to the first. -/
def releaseFrom (firstPage : Nat) (inventory : UatInventory) : UatInventory :=
  { inventory with
    pages := inventory.pages.take firstPage
    returned := inventory.returned ++ (inventory.pages.drop firstPage).reverse.map (fun page => page.physicalAddress) }

/-- `AppleAgxUatGetChild`, with the index of the child. -/
def getChild (parent entryIndex childLevel : Nat) (allocator : UatAllocator) (inventory : UatInventory) :
    Except UatResult Nat × UatInventory :=
  let descriptor := readEntry inventory.pages parent entryIndex
  if descriptor ≠ 0 then
    if descriptor &&& descriptorMask ≠ descriptorMask then (.error .AlreadyMapped,inventory)
    else match findPage inventory.pages (descriptor &&& addressMask) childLevel with
      | none => (.error .InvalidArgument,inventory)
      | some child => (.ok child,inventory)
  else match allocateRecordedPage childLevel allocator inventory with
    | (.error result,asked) => (.error result,asked)
    | (.ok child,grown) =>
      match encodeTableDescriptor ((grown.pages[child]?).elim 0 (fun page => page.physicalAddress)) with
      | .error result => (.error result,grown)
      | .ok table => (.ok child,{ grown with pages := writeEntry grown.pages parent entryIndex table })

def level0Index (virtualAddress : U64) : Nat := (virtualAddress >>> 36 &&& 7).toNat
def level1Index (virtualAddress : U64) : Nat := (virtualAddress >>> 25 &&& 2047).toNat
def level2Index (virtualAddress : U64) : Nat := (virtualAddress >>> 14 &&& 2047).toNat

/-- `AppleAgxUatFindLeaf`: the leaf of an address, where missing tables are allocated. -/
def findLeaf (root : Nat) (virtualAddress : U64) (allocator : UatAllocator) (inventory : UatInventory) :
    Except UatResult (Nat × Nat) × UatInventory :=
  match getChild root (level0Index virtualAddress) 1 allocator inventory with
  | (.error result,left) => (.error result,left)
  | (.ok level1,first) =>
    match getChild level1 (level1Index virtualAddress) 2 allocator first with
    | (.error result,left) => (.error result,left)
    | (.ok level2,second) => (.ok (level2,level2Index virtualAddress),second)

/-- `AppleAgxUatClearNewParents`: no entry points to a page from `firstPage` on. -/
def clearNewParents (firstPage : Nat) (pages : List UatPage) : List UatPage :=
  pages.map (fun page =>
    if 2 ≤ page.level then page
    else { page with entries := fun index =>
      if index < entryCount page.level ∧ page.entries index &&& addressMask ≠ 0 ∧
          (pages.drop firstPage).any (fun child => child.physicalAddress == page.entries index &&& addressMask)
      then 0 else page.entries index })

/-- `AppleAgxUatFindExistingLeaf`. -/
def findExistingLeaf (pages : List UatPage) (root : Nat) (virtualAddress : U64) : Option (Nat × Nat) :=
  match findPage pages (readEntry pages root (level0Index virtualAddress) &&& addressMask) 1 with
  | none => none
  | some level1 =>
    match findPage pages (readEntry pages level1 (level1Index virtualAddress) &&& addressMask) 2 with
    | none => none
    | some level2 => some (level2,level2Index virtualAddress)

/-- `AppleAgxUatResolvePage`, with the physical address and the descriptor. -/
def resolvePage (context : Nat) (roots : UatRoots) (virtualAddress : U64) (inventory : UatInventory) :
    Except UatResult (U64 × U64) :=
  if contextCount ≤ context then .error .InvalidArgument
  else if virtualAddress &&& pageMask ≠ 0 then .error .Misaligned
  else if lowLimit ≤ virtualAddress ∧ virtualAddress < highBase then .error .OutOfRange
  else
    match findPage inventory.pages
        (if virtualAddress < lowLimit then roots.ttbr0PhysicalAddress else roots.ttbr1PhysicalAddress) 0 with
    | none => .error .NotMapped
    | some root =>
      match findExistingLeaf inventory.pages root virtualAddress with
      | none => .error .NotMapped
      | some (page,index) =>
        let value := readEntry inventory.pages page index
        if value &&& descriptorMask ≠ descriptorMask ∨ value &&& addressMask = 0 then .error .NotMapped
        else .ok (value &&& addressMask,value)

/-- The turns of a loop over the pages of a range. -/
def pageTurns (length : U64) : Nat := (length.toNat + 0x3fff) / 0x4000

/-- The address of the page `turn` of a range. -/
def pageAddress (virtualAddress : U64) (turn : Nat) : U64 := virtualAddress + BitVec.ofNat 64 (turn * 0x4000)

/-- The leaves of the first `turns` pages of a range get the value that `value` gives
    their page; a missing leaf is skipped. -/
def writeLeaves (root : Nat) (virtualAddress : U64) (value : Nat → U64) : (turns turn : Nat) → List UatPage → List UatPage
  | 0, _, pages => pages
  | turns+1, turn, pages =>
    match findExistingLeaf pages root (pageAddress virtualAddress turn) with
    | none => writeLeaves root virtualAddress value turns (turn + 1) pages
    | some (page,index) =>
      writeLeaves root virtualAddress value turns (turn + 1) (writeEntry pages page index (value turn))

/-- `AppleAgxUatRollbackMap`. -/
def rollbackMap (root : Nat) (virtualAddress : U64) (mapped firstPage : Nat) (inventory : UatInventory) :
    UatInventory :=
  releaseFrom firstPage { inventory with
    pages := clearNewParents firstPage (writeLeaves root virtualAddress (fun _ => 0) mapped 0 inventory.pages) }

/-- The loop of `AppleAgxUatMap` and of `AppleAgxUatMapPageList`: every leaf is found or made, must be empty, and gets the
    descriptor of its physical page; a failure undoes the turns before it. -/
def mapLeaves (context root : Nat) (virtualAddress : U64) (physicalAt : Nat → U64) (protection : UatProtection)
    (allocator : UatAllocator) (firstPage : Nat) : (turns turn : Nat) → UatInventory → UatResult × UatInventory
  | 0, _, inventory => (.Ok,inventory)
  | turns+1, turn, inventory =>
    match findLeaf root (pageAddress virtualAddress turn) allocator inventory with
    | (.error result,left) => (result,rollbackMap root virtualAddress turn firstPage left)
    | (.ok (page,index),found) =>
      if readEntry found.pages page index ≠ 0 then
        (.AlreadyMapped,rollbackMap root virtualAddress turn firstPage found)
      else match encodePageDescriptor context (physicalAt turn) protection with
        | .error result => (result,rollbackMap root virtualAddress turn firstPage found)
        | .ok descriptor =>
          mapLeaves context root virtualAddress physicalAt protection allocator firstPage turns (turn + 1)
            { found with pages := writeEntry found.pages page index descriptor }

/-- A recorded mapping of the context overlaps the range. -/
def overlaps (context : Nat) (virtualAddress length : U64) (mapping : UatMapping) : Bool :=
  mapping.context == context && virtualAddress ≤ mapping.virtualAddress + mapping.length - 1 &&
    mapping.virtualAddress ≤ virtualAddress + length - 1
def addressOf (pages : List UatPage) (page : Nat) : U64 := (pages[page]?).elim 0 (fun found => found.physicalAddress)

/-- The common part of `AppleAgxUatMap` and `AppleAgxUatMapPageList` behind the validation of their ranges. -/
def mapRange (context : Nat) (roots : UatRoots) (half : UatHalf) (virtualAddress physicalAddress length : U64)
    (protection : UatProtection) (stride : U64) (physicalAt : Nat → U64) (allocator : UatAllocator)
    (inventory : UatInventory) : UatResult × UatInventory :=
  if inventory.mappingCapacity ≤ inventory.mappings.length then (.Capacity,inventory)
  else if inventory.mappings.any (overlaps context virtualAddress length) then (.AlreadyMapped,inventory)
  else match findPage inventory.pages (roots.half half) 0 with
    | none => (.InvalidArgument,inventory)
    | some root =>
      match mapLeaves context root virtualAddress physicalAt protection allocator inventory.pages.length
          (pageTurns length) 0 inventory with
      | (.Ok,mapped) => (.Ok,{ mapped with mappings := mapped.mappings ++
          [⟨context,virtualAddress,physicalAddress,length,protection,stride, addressOf inventory.pages root,physicalAt⟩] })
      | (result,left) => (result,left)

/-- `AppleAgxUatCreateAddressSpace`, with the roots. -/
def createAddressSpace (context : Nat) (allocator : UatAllocator) (inventory : UatInventory) :
    Except UatResult UatRoots × UatInventory :=
  if contextCount ≤ context then (.error .UnsupportedContext,inventory)
  else if ¬ checkOwnerArguments inventory then (.error .InvalidArgument,inventory)
  else match allocateRecordedPage 0 allocator inventory with
    | (.error result,asked) => (.error result,asked)
    | (.ok low,first) =>
      match allocateRecordedPage 0 allocator first with
      | (.error result,asked) => (.error result,releaseFrom inventory.pages.length asked)
      | (.ok high,second) => (.ok ⟨addressOf second.pages low,addressOf second.pages high⟩,second)

/-- `AppleAgxUatMap`. -/
def map (context : Nat) (roots : UatRoots) (virtualAddress physicalAddress length : U64)
    (protection : UatProtection) (allocator : UatAllocator) (inventory : UatInventory) : UatResult × UatInventory :=
  if ¬ checkOwnerArguments inventory then (.InvalidArgument,inventory)
  else match validateRange context virtualAddress physicalAddress length protection with
    | .error result => (result,inventory)
    | .ok half => mapRange context roots half virtualAddress physicalAddress length protection pageSize
        (fun turn => pageAddress physicalAddress turn) allocator inventory

/-- The per-page validation of `AppleAgxUatMapPageList`, which leaves the half of the last page. -/
def validatePages (context : Nat) (virtualAddress : U64) (protection : UatProtection) :
    (turn : Nat) → List U64 → UatHalf → Except UatResult UatHalf
  | _, [], half => .ok half
  | turn, page :: rest, _ =>
    match validateRange context (pageAddress virtualAddress turn) page pageSize protection with
    | .error result => .error result
    | .ok half => validatePages context virtualAddress protection (turn + 1) rest half

/-- `AppleAgxUatMapPageList`; the count of pages is a 32-bit number. -/
def mapPageList (context : Nat) (roots : UatRoots) (virtualAddress : U64) (physicalPages : List U64)
    (protection : UatProtection) (allocator : UatAllocator) (inventory : UatInventory) : UatResult × UatInventory :=
  match physicalPages with
  | [] => (.InvalidArgument,inventory)
  | first :: rest =>
    let length := BitVec.ofNat 64 ((first :: rest).length * 0x4000)
    if ¬ checkOwnerArguments inventory then (.InvalidArgument,inventory)
    else match validateRange context virtualAddress first length protection with
      | .error result => (result,inventory)
      | .ok whole =>
        match validatePages context virtualAddress protection 0 (first :: rest) whole with
        | .error result => (result,inventory)
        | .ok half => mapRange context roots half virtualAddress first length protection (~~~0)
            (fun turn => (first :: rest).getD turn 0) allocator inventory

/-- `AppleAgxUatClearParentReference`: the first entry that points to the child is cleared. -/
def clearParentReference (childLevel : Nat) (childPhysicalAddress : U64) : List UatPage → List UatPage
  | [] => []
  | page :: rest =>
    if page.level + 1 ≠ childLevel then page :: clearParentReference childLevel childPhysicalAddress rest
    else match (List.range (entryCount page.level)).find?
        (fun index => page.entries index &&& addressMask == childPhysicalAddress) with
      | none => page :: clearParentReference childLevel childPhysicalAddress rest
      | some index => { page with entries := Function.update page.entries index 0 } :: rest

/-- `AppleAgxUatReleaseInventoryPage`: the last page takes the place of the released one. -/
def releaseInventoryPage (pageIndex : Nat) (pages : List UatPage) : List UatPage :=
  match pages.getLast? with
  | none => pages
  | some last => (pages.set pageIndex last).dropLast

/-- The loop of `AppleAgxUatPruneEmptyTables` over one level; the pages of the inventory bound its turns. -/
def pruneLevel (level : Nat) : (turns : Nat) → List UatPage → List UatPage
  | 0, pages => pages
  | turns+1, pages =>
    match pages.findIdx? (fun page => page.level == level && pageIsZero page.entries) with
    | none => pages
    | some pageIndex =>
      pruneLevel level turns
        (releaseInventoryPage pageIndex (clearParentReference level (addressOf pages pageIndex) pages))

/-- The pages that the loop over one level returns to the allocator. -/
def levelReturns (level : Nat) : (turns : Nat) → List UatPage → List U64
  | 0, _ => []
  | turns+1, pages =>
    match pages.findIdx? (fun page => page.level == level && pageIsZero page.entries) with
    | none => []
    | some pageIndex =>
      addressOf pages pageIndex :: levelReturns level turns
        (releaseInventoryPage pageIndex (clearParentReference level (addressOf pages pageIndex) pages))

/-- `AppleAgxUatPruneEmptyTables`. -/
def pruneEmptyTables (pages : List UatPage) : List UatPage :=
  let pruned := pruneLevel 2 pages.length pages
  pruneLevel 1 pruned.length pruned

/-- The pages that `AppleAgxUatPruneEmptyTables` returns to the allocator. -/
def pruneReturns (pages : List UatPage) : List U64 :=
  let pruned := pruneLevel 2 pages.length pages
  levelReturns 2 pages.length pages ++ levelReturns 1 pruned.length pruned

/-- Every leaf of the range is there and not empty. -/
def leavesMapped (pages : List UatPage) (root : Nat) (virtualAddress : U64) (turns : Nat) : Bool :=
  (List.range turns).all (fun turn =>
    match findExistingLeaf pages root (pageAddress virtualAddress turn) with
    | none => false
    | some (page,index) => readEntry pages page index != 0)

/-- `AppleAgxUatUnmap`. -/
def unmap (context : Nat) (roots : UatRoots) (virtualAddress length : U64) (inventory : UatInventory) :
    UatResult × UatInventory :=
  if ¬ checkOwnerArguments inventory then (.InvalidArgument,inventory)
  else match inventory.mappings.findIdx? (fun candidate => candidate.context == context &&
      candidate.virtualAddress == virtualAddress && candidate.length == length) with
    | none => (.NotMapped,inventory)
    | some mappingIndex =>
      match inventory.mappings[mappingIndex]? with
      | none => (.NotMapped,inventory)
      | some mapping =>
        match validateRange context virtualAddress mapping.physicalAddress length mapping.protection with
        | .error result => (result,inventory)
        | .ok half =>
          match findPage inventory.pages (roots.half half) 0 with
          | none => (.InvalidArgument,inventory)
          | some root =>
            if ¬ leavesMapped inventory.pages root virtualAddress (pageTurns length) then (.NotMapped,inventory)
            else
              let cleared := writeLeaves root virtualAddress (fun _ => 0) (pageTurns length) 0 inventory.pages
              (.Ok,{ inventory with
                pages := pruneEmptyTables cleared
                mappings := inventory.mappings.eraseIdx mappingIndex
                returned := inventory.returned ++ pruneReturns cleared })

/-- The record is exactly the range. -/
def exactMapping (context : Nat) (range : UatRange) (mapping : UatMapping) : Bool :=
  mapping.context == context && mapping.virtualAddress == range.virtualAddress &&
    mapping.physicalAddress == range.physicalAddress && mapping.length == range.length &&
    mapping.protection == range.protection

/-- `AppleAgxUatValidateExactMapping`. -/
def validateExactMapping (context : Nat) (roots : UatRoots) (range : UatRange) (inventory : UatInventory) :
    UatResult :=
  match validateRange context range.virtualAddress range.physicalAddress range.length range.protection with
  | .error result => result
  | .ok half =>
    if ¬ inventory.mappings.any (exactMapping context range) then .NotMapped
    else match findPage inventory.pages (roots.half half) 0 with
      | none => .InvalidArgument
      | some root =>
        if leavesMapped inventory.pages root range.virtualAddress (pageTurns range.length) then .Ok else .NotMapped

/-- The loop that undoes the first mapped ranges of a batch, the last one first. -/
def unmapBack (context : Nat) (roots : UatRoots) : List UatRange → UatInventory → UatInventory
  | [], inventory => inventory
  | range :: earlier, inventory =>
    unmapBack context roots earlier (unmap context roots range.virtualAddress range.length inventory).2

/-- The loop of `AppleAgxUatMapBatch`; `done` holds the mapped ranges, the last one first. -/
def mapRanges (context : Nat) (roots : UatRoots) (allocator : UatAllocator) :
    List UatRange → List UatRange → UatInventory → UatResult × UatInventory
  | [], _, inventory => (.Ok,inventory)
  | range :: rest, done, inventory =>
    match map context roots range.virtualAddress range.physicalAddress range.length range.protection allocator
        inventory with
    | (.Ok,mapped) => mapRanges context roots allocator rest (range :: done) mapped
    | (result,left) => (result,unmapBack context roots done left)

/-- `AppleAgxUatMapBatch`. -/
def mapBatch (context : Nat) (roots : UatRoots) (ranges : List UatRange) (allocator : UatAllocator)
    (inventory : UatInventory) : UatResult × UatInventory :=
  if ranges = [] ∨ ¬ checkOwnerArguments inventory then (.InvalidArgument,inventory)
  else if inventory.mappingCapacity - inventory.mappings.length < ranges.length then (.Capacity,inventory)
  else mapRanges context roots allocator ranges [] inventory

/-- The first failure of a check over the ranges of a batch. -/
def firstFailure (check : UatRange → UatResult) : List UatRange → UatResult
  | [] => .Ok
  | range :: rest => if check range = .Ok then firstFailure check rest else check range

/-- The loop of `AppleAgxUatUnmapBatch`. -/
def unmapRanges (context : Nat) (roots : UatRoots) : List UatRange → UatInventory → UatResult × UatInventory
  | [], inventory => (.Ok,inventory)
  | range :: rest, inventory =>
    match unmap context roots range.virtualAddress range.length inventory with
    | (.Ok,unmapped) => unmapRanges context roots rest unmapped
    | (result,left) => (result,left)

/-- `AppleAgxUatUnmapBatch`. -/
def unmapBatch (context : Nat) (roots : UatRoots) (ranges : List UatRange) (inventory : UatInventory) :
    UatResult × UatInventory :=
  if ranges = [] ∨ ¬ checkOwnerArguments inventory then (.InvalidArgument,inventory)
  else match firstFailure (fun range => validateExactMapping context roots range inventory) ranges with
    | .Ok => unmapRanges context roots ranges inventory
    | result => (result,inventory)

/-- The range appears among the earlier ones, by address and length. -/
def repeated (range : UatRange) (earlier : List UatRange) : Bool :=
  earlier.any (fun other => other.virtualAddress == range.virtualAddress && other.length == range.length)

/-- What one turn of a replacement writes: the range it finds, the physical page of each
    turn and the new physical address, protection and stride of the record. -/
structure UatReplacement where
  old : UatRange
  physicalAt : Nat → U64
  physicalAddress : U64
  protection : UatProtection
  stride : U64

/-- The descriptor that a replacement stores, or 0 when it has no encoding. -/
def replacementDescriptor (context : Nat) (replacement : UatReplacement) (turn : Nat) : U64 :=
  match encodePageDescriptor context (replacement.physicalAt turn) replacement.protection with
  | .error _ => 0
  | .ok descriptor => descriptor

/-- The second loop of `AppleAgxUatReplaceBatchWithPage` and `AppleAgxUatReplaceBatch`. -/
def replaceRanges (context : Nat) (roots : UatRoots) : List UatReplacement → UatInventory → UatResult × UatInventory
  | [], inventory => (.Ok,inventory)
  | replacement :: rest, inventory =>
    let half := match validateRange context replacement.old.virtualAddress replacement.physicalAddress
        replacement.old.length replacement.protection with
      | .error _ => .Ttbr0
      | .ok half => half
    match inventory.mappings.findIdx? (exactMapping context replacement.old),
        findPage inventory.pages (roots.half half) 0 with
    | some mappingIndex, some root => replaceRanges context roots rest { inventory with
        pages := writeLeaves root replacement.old.virtualAddress (replacementDescriptor context replacement)
          (pageTurns replacement.old.length) 0 inventory.pages
        mappings := inventory.mappings.modify mappingIndex (fun mapping => { mapping with
          physicalAddress := replacement.physicalAddress, protection := replacement.protection
          physicalStride := replacement.stride, assigned := replacement.physicalAt }) }
    | _, _ => (.NotMapped,inventory)

/-- The validation loop of `AppleAgxUatReplaceBatchWithPage`. -/
def validateReplacements (context : Nat) (roots : UatRoots) (inventory : UatInventory) :
    List UatReplacement → List UatRange → UatResult
  | [], _ => .Ok
  | replacement :: rest, earlier =>
    match validateExactMapping context roots replacement.old inventory with
    | .Ok =>
      match validateRange context replacement.old.virtualAddress replacement.physicalAddress
          replacement.old.length replacement.protection with
      | .error result => result
      | .ok _ =>
        if repeated replacement.old earlier then .InvalidArgument
        else validateReplacements context roots inventory rest (replacement.old :: earlier)
    | result => result

/-- `AppleAgxUatReplaceBatchWithPage`. -/
def replaceBatchWithPage (context : Nat) (roots : UatRoots) (ranges : List UatRange)
    (replacementPhysicalAddress : U64) (replacementProtection : UatProtection) (inventory : UatInventory) :
    UatResult × UatInventory :=
  let replacements := ranges.map (fun range => (⟨range,fun _ => replacementPhysicalAddress,
    replacementPhysicalAddress,replacementProtection,0⟩ : UatReplacement))
  if ranges = [] ∨ ¬ checkOwnerArguments inventory then (.InvalidArgument,inventory)
  else if replacementPhysicalAddress &&& pageMask ≠ 0 then (.Misaligned,inventory)
  else match validateReplacements context roots inventory replacements [] with
    | .Ok => replaceRanges context roots replacements inventory
    | result => (result,inventory)

/-- The validation loop of `AppleAgxUatReplaceBatch`, which also compares the ranges. -/
def validatePairs (context : Nat) (roots : UatRoots) (inventory : UatInventory) :
    List (UatRange × UatRange) → List UatRange → UatResult
  | [], _ => .Ok
  | (old,new) :: rest, earlier =>
    if old.virtualAddress ≠ new.virtualAddress ∨ old.length ≠ new.length then .InvalidArgument
    else match validateExactMapping context roots old inventory with
      | .Ok =>
        match validateRange context new.virtualAddress new.physicalAddress new.length new.protection with
        | .error result => result
        | .ok _ =>
          if repeated old earlier then .InvalidArgument
          else validatePairs context roots inventory rest (old :: earlier)
      | result => result

/-- `AppleAgxUatReplaceBatch`; a pair is an old range with its new one. -/
def replaceBatch (context : Nat) (roots : UatRoots) (pairs : List (UatRange × UatRange)) (inventory : UatInventory) :
    UatResult × UatInventory :=
  if pairs = [] ∨ ¬ checkOwnerArguments inventory then (.InvalidArgument,inventory)
  else match validatePairs context roots inventory pairs [] with
    | .Ok => replaceRanges context roots (pairs.map (fun pair => (⟨pair.1,fun turn =>
        pageAddress pair.2.physicalAddress turn,pair.2.physicalAddress,pair.2.protection,pageSize⟩ : UatReplacement)))
        inventory
    | result => (result,inventory)

end WindowsOnM1.UatModel
