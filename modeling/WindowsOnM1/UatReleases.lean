import WindowsOnM1.UatUndo

/-!
The pages that the calls on an inventory give back to the allocator, with their entries at
that moment. Each function here goes through the operation of its name and keeps what the
operation hands to `ReleasePage`.
-/
namespace WindowsOnM1.UatReleases
open UatModel UatEncoding UatTree UatMap UatPrune List
open UatOperations

structure Release where
  address : U64
  entries : Nat → U64
def releaseOf (page : UatPage) : Release := ⟨page.physicalAddress,page.entries⟩
def Release.Blank (release : Release) : Prop := ∀ index < 2048, release.entries index = 0

/-- A page that was refused when it was handed out, as it came. -/
def Release.Refused (allocator : UatAllocator) (release : Release) : Prop :=
  ∃ turn live candidate, allocator.allocatePage turn live = some candidate ∧ usable candidate = false ∧
    release = ⟨candidate.physicalAddress,candidate.entries⟩

def allocateReleases (allocator : UatAllocator) (inventory : UatInventory) : List Release :=
  if inventory.pageCapacity ≤ inventory.pages.length then []
  else match allocator.allocatePage inventory.allocations inventory.live with
    | none => []
    | some candidate => if ¬ usable candidate then [⟨candidate.physicalAddress,candidate.entries⟩] else []

def getChildReleases (parent entryIndex : Nat) (allocator : UatAllocator) (inventory : UatInventory) : List Release :=
  if readEntry inventory.pages parent entryIndex ≠ 0 then [] else allocateReleases allocator inventory

def findLeafReleases (root : Nat) (virtualAddress : U64) (allocator : UatAllocator) (inventory : UatInventory) : List Release :=
  getChildReleases root (level0Index virtualAddress) allocator inventory ++
    match getChild root (level0Index virtualAddress) 1 allocator inventory with
    | (.error _,_) => []
    | (.ok level1,first) => getChildReleases level1 (level1Index virtualAddress) allocator first

def rollbackReleases (root : Nat) (virtualAddress : U64) (mapped firstPage : Nat) (inventory : UatInventory) : List Release :=
  ((clearNewParents firstPage (writeLeaves root virtualAddress (fun _ => 0) mapped 0 inventory.pages)).drop firstPage).reverse.map
    releaseOf

def mapLeavesReleases (context root : Nat) (virtualAddress : U64) (physicalAt : Nat → U64) (protection : UatProtection)
    (allocator : UatAllocator) (firstPage : Nat) : (turns turn : Nat) → UatInventory → List Release
  | 0, _, _ => []
  | turns+1, turn, inventory =>
    findLeafReleases root (pageAddress virtualAddress turn) allocator inventory ++
      match findLeaf root (pageAddress virtualAddress turn) allocator inventory with
      | (.error _,left) => rollbackReleases root virtualAddress turn firstPage left
      | (.ok (page,index),found) =>
        if readEntry found.pages page index ≠ 0 then rollbackReleases root virtualAddress turn firstPage found
        else match encodePageDescriptor context (physicalAt turn) protection with
          | .error _ => rollbackReleases root virtualAddress turn firstPage found
          | .ok descriptor =>
            mapLeavesReleases context root virtualAddress physicalAt protection allocator firstPage turns (turn + 1)
              { found with pages := writeEntry found.pages page index descriptor }

def mapRangeReleases (context : Nat) (roots : UatRoots) (half : UatHalf) (virtualAddress length : U64) (protection : UatProtection)
    (physicalAt : Nat → U64) (allocator : UatAllocator) (inventory : UatInventory) : List Release :=
  if inventory.mappingCapacity ≤ inventory.mappings.length then []
  else if inventory.mappings.any (overlaps context virtualAddress length) then []
  else match findPage inventory.pages (roots.half half) 0 with
    | none => []
    | some root => mapLeavesReleases context root virtualAddress physicalAt protection allocator inventory.pages.length
        (pageTurns length) 0 inventory

def mapReleases (context : Nat) (roots : UatRoots) (virtualAddress physicalAddress length : U64) (protection : UatProtection)
    (allocator : UatAllocator) (inventory : UatInventory) : List Release :=
  if ¬ checkOwnerArguments inventory then []
  else match validateRange context virtualAddress physicalAddress length protection with
    | .error _ => []
    | .ok half => mapRangeReleases context roots half virtualAddress length protection
        (fun turn => pageAddress physicalAddress turn) allocator inventory

def mapPageListReleases (context : Nat) (roots : UatRoots) (virtualAddress : U64) (physicalPages : List U64)
    (protection : UatProtection) (allocator : UatAllocator) (inventory : UatInventory) : List Release :=
  match physicalPages with
  | [] => []
  | first :: rest =>
    let length := BitVec.ofNat 64 ((first :: rest).length * 0x4000)
    if ¬ checkOwnerArguments inventory then []
    else match validateRange context virtualAddress first length protection with
      | .error _ => []
      | .ok whole =>
        match validatePages context virtualAddress protection 0 (first :: rest) whole with
        | .error _ => []
        | .ok half => mapRangeReleases context roots half virtualAddress length protection
            (fun turn => (first :: rest).getD turn 0) allocator inventory

def levelReleases (level : Nat) : (turns : Nat) → List UatPage → List Release
  | 0, _ => []
  | turns+1, pages =>
    match pages.findIdx? (fun page => page.level == level && pageIsZero page.entries) with
    | none => []
    | some pageIndex =>
      ⟨addressOf pages pageIndex,(pages[pageIndex]?).elim (fun _ => 0) (fun page => page.entries)⟩ ::
        levelReleases level turns
          (releaseInventoryPage pageIndex (clearParentReference level (addressOf pages pageIndex) pages))

def pruneReleases (pages : List UatPage) : List Release :=
  let pruned := pruneLevel 2 pages.length pages
  levelReleases 2 pages.length pages ++ levelReleases 1 pruned.length pruned

def unmapReleases (context : Nat) (roots : UatRoots) (virtualAddress length : U64) (inventory : UatInventory) : List Release :=
  match unmap context roots virtualAddress length inventory with
  | (.Ok,_) =>
    match inventory.mappings.findIdx? (fun candidate => candidate.context == context &&
      candidate.virtualAddress == virtualAddress && candidate.length == length) with
    | none => []
    | some mappingIndex =>
      match inventory.mappings[mappingIndex]? with
      | none => []
      | some mapping =>
        match validateRange context virtualAddress mapping.physicalAddress length mapping.protection with
        | .error _ => []
        | .ok half =>
          match findPage inventory.pages (roots.half half) 0 with
          | none => []
          | some root =>
            pruneReleases (writeLeaves root virtualAddress (fun _ => 0) (pageTurns length) 0 inventory.pages)
  | _ => []

def unmapBackReleases (context : Nat) (roots : UatRoots) : List UatRange → UatInventory → List Release
  | [], _ => []
  | range :: earlier, inventory =>
    unmapReleases context roots range.virtualAddress range.length inventory ++
      unmapBackReleases context roots earlier (unmap context roots range.virtualAddress range.length inventory).2

def mapRangesReleases (context : Nat) (roots : UatRoots) (allocator : UatAllocator) :
    List UatRange → List UatRange → UatInventory → List Release
  | [], _, _ => []
  | range :: rest, done, inventory =>
    mapReleases context roots range.virtualAddress range.physicalAddress range.length range.protection allocator inventory ++
      match map context roots range.virtualAddress range.physicalAddress range.length range.protection allocator inventory with
      | (.Ok,mapped) => mapRangesReleases context roots allocator rest (range :: done) mapped
      | (_,left) => unmapBackReleases context roots done left

def mapBatchReleases (context : Nat) (roots : UatRoots) (ranges : List UatRange) (allocator : UatAllocator)
    (inventory : UatInventory) : List Release :=
  if ranges = [] ∨ ¬ checkOwnerArguments inventory then []
  else if inventory.mappingCapacity - inventory.mappings.length < ranges.length then []
  else mapRangesReleases context roots allocator ranges [] inventory

/-- A call changes no capacity and stays inside them, and what it gives back is the
    releases, each of a page of zeros or of a page that was refused. -/
structure Traced (allocator : UatAllocator) (inventory left : UatInventory) (releases : List Release) : Prop where
  pageCapacity : left.pageCapacity = inventory.pageCapacity
  mappingCapacity : left.mappingCapacity = inventory.mappingCapacity
  bounded : inventory.pages.length ≤ inventory.pageCapacity → left.pages.length ≤ left.pageCapacity
  obtained : ∃ new, left.obtained = inventory.obtained ++ new
  returned : left.returned = inventory.returned ++ releases.map (fun release => release.address)
  told : ∀ release ∈ releases, release.Blank ∨ release.Refused allocator

namespace Traced

variable {allocator : UatAllocator} {inventory left : UatInventory} {releases : List Release}

theorem refl (allocator : UatAllocator) (inventory : UatInventory) : Traced allocator inventory inventory [] :=
  ⟨rfl,rfl,fun fits => fits,⟨[],(append_nil _).symm⟩,(append_nil _).symm,nofun⟩

theorem trans {last : UatInventory} {more : List Release} (first : Traced allocator inventory left releases)
    (second : Traced allocator left last more) : Traced allocator inventory last (releases ++ more) := by
  obtain ⟨new,obtained⟩ := first.obtained
  obtain ⟨new',obtained'⟩ := second.obtained
  refine ⟨second.pageCapacity.trans first.pageCapacity,second.mappingCapacity.trans first.mappingCapacity,
    fun fits => second.bounded (first.bounded fits),⟨new ++ new',?_⟩,?_,fun release mem => ?_⟩
  · rw [obtained',obtained,append_assoc]
  · rw [second.returned,first.returned,map_append,append_assoc]
  rcases mem_append.mp mem with early | late
  · exact first.told release early
  exact second.told release late

theorem rewrite (traced : Traced allocator inventory left releases) {pages : List UatPage}
    (same : SameShape left.pages pages) (mappings : List UatMapping) :
    Traced allocator inventory { left with pages := pages, mappings := mappings } releases :=
  { traced with bounded := fun fits => SameShape.length_eq same ▸ traced.bounded fits }

end Traced

variable (level : Nat)

private theorem allocate_traced (allocator : UatAllocator) (inventory : UatInventory) :
    Traced allocator inventory (allocateRecordedPage level allocator inventory).2 (allocateReleases allocator inventory) := by
  unfold allocateRecordedPage allocateReleases
  split
  · exact .refl allocator inventory
  cases answer : allocator.allocatePage inventory.allocations inventory.live with
  | none => exact ⟨rfl,rfl,fun fits => fits,⟨[],(append_nil _).symm⟩,(append_nil _).symm,by simp⟩
  | some candidate =>
  dsimp only
  by_cases keep : usable candidate = true
  · rw [if_neg (not_not.mpr keep),if_neg (not_not.mpr keep)]
    refine ⟨rfl,rfl,fun _ => ?_,⟨_,rfl⟩,(append_nil _).symm,by simp⟩
    simp only [length_append,length_singleton]
    omega
  rw [if_pos keep,if_pos keep]
  refine ⟨rfl,rfl,fun fits => fits,⟨_,rfl⟩,rfl,fun release mem => .inr ?_⟩
  rw [mem_singleton.mp mem]
  exact ⟨_,_,candidate,answer,by simpa using keep,rfl⟩

theorem getChild_traced (parent entryIndex childLevel : Nat) (allocator : UatAllocator) (inventory : UatInventory) :
    Traced allocator inventory (getChild parent entryIndex childLevel allocator inventory).2
      (getChildReleases parent entryIndex allocator inventory) := by
  have traced := allocate_traced childLevel allocator inventory
  unfold getChild getChildReleases
  dsimp only
  split
  · split
    · exact .refl allocator inventory
    split <;> exact .refl allocator inventory
  cases step : allocateRecordedPage childLevel allocator inventory with
  | mk answer grown =>
  rw [step] at traced
  cases answer with
  | error result => exact traced
  | ok child =>
  dsimp only
  split
  · exact traced
  exact traced.rewrite (writeEntry_shape ..) grown.mappings

private theorem findLeaf_traced (root : Nat) (va : U64) (allocator : UatAllocator) (inventory : UatInventory) :
    Traced allocator inventory (findLeaf root va allocator inventory).2 (findLeafReleases root va allocator inventory) := by
  have first := getChild_traced root (level0Index va) 1 allocator inventory
  unfold findLeaf findLeafReleases
  cases step : getChild root (level0Index va) 1 allocator inventory with
  | mk answer left =>
  rw [step] at first
  cases answer with
  | error result =>
    rw [append_nil]
    exact first
  | ok level1 =>
  dsimp only
  have second := getChild_traced level1 (level1Index va) 2 allocator left
  have both := first.trans second
  cases step' : getChild level1 (level1Index va) 2 allocator left with
  | mk answer' left' =>
  rw [step'] at both
  cases answer' <;> exact both

variable {start : List UatPage}

/-- The tables behind the first pages hold only entries of each other; without these they are pages of zeros. -/
private theorem blank_of_new {pages : List UatPage} (distinct : Distinct pages) (real : ∀ page ∈ pages, page.physicalAddress ≠ 0)
    (shape : SameShape start (pages.take start.length))
    (entry : ∀ address level index, index < 2048 → entryAt pages address level index ≠ entryAt start address level index →
      level < 2 ∧ index < entryCount level ∧
        ∃ page ∈ pages.drop start.length, page.physicalAddress = entryAt pages address level index &&& addressMask) :
    ∀ page ∈ (clearNewParents start.length pages).drop start.length, (releaseOf page).Blank := by
  intro cleared mem index small
  rw [clearNewParents,← map_drop] at mem
  obtain ⟨page,late,rfl⟩ := mem_map.mp mem
  have found := mem_of_mem_drop late
  have absent : entryAt start page.physicalAddress page.level index = 0 := by
    refine entryAt_absent (fun old among here => ?_) index
    obtain ⟨now,early,same,_⟩ := shape.exists among
    rw [Distinct,← take_append_drop start.length pages,map_append] at distinct
    exact (nodup_append.mp distinct).2.2 _ (mem_map_of_mem early) _ (mem_map_of_mem late) (same.trans here.1)
  have read := entryAt_mem distinct found index
  by_cases zero : page.entries index = 0
  · simp only [releaseOf]
    split_ifs
    · exact zero
    dsimp only
    split_ifs
    · rfl
    exact zero
  obtain ⟨below,inside,new,behind,points⟩ := entry page.physicalAddress page.level index small (by rw [read,absent]; exact zero)
  rw [read] at points
  simp only [releaseOf]
  rw [if_neg (by omega)]
  dsimp only
  rw [if_pos]
  refine ⟨inside,points ▸ real new (mem_of_mem_drop behind),any_eq_true.mpr ⟨new,behind,?_⟩⟩
  rw [beq_iff_eq]
  exact points

variable {half : UatHalf} {root : Nat} {page : UatPage}

private theorem rollback_traced {va physical length : U64} (valid : ValidRange half va physical length)
    (here : start[root]? = some page) (isRoot : page.level = 0)
    {value : Nat → U64} {turns : Nat} {left : UatInventory} (filled : Filled start page.physicalAddress va value turns left.pages)
    (fits : turns ≤ pageTurns length) (allocator : UatAllocator) :
    Traced allocator left (rollbackMap root va turns start.length left) (rollbackReleases root va turns start.length left) := by
  obtain ⟨page',here',sameAddress,sameLevel⟩ := filled.shape.getElem here
  have written := writeLeaves_spec valid (fun _ => 0) turns 0 filled.tree here'
    (sameLevel.trans isRoot) (by omega) (fun t _ before => by rw [sameAddress]; exact filled.table t (by omega))
  rw [sameAddress] at written
  have shape := (clearNewParents_shape start.length (writeLeaves root va (fun _ => 0) turns 0 left.pages)).trans
    (writeLeaves_shape turns 0 left.pages)
  refine ⟨rfl,rfl,fun bounded => ?_,⟨[],(append_nil _).symm⟩,?_,fun release mem => .inl ?_⟩
  · have same := SameShape.length_eq shape
    simp only [rollbackMap,releaseFrom,length_take]
    omega
  · simp only [rollbackMap,releaseFrom,rollbackReleases,map_map]
    rfl
  obtain ⟨cleared,behind,rfl⟩ := mem_map.mp mem
  refine blank_of_new written.tree.distinct (fun page mem => (written.tree.real page mem).1)
    (filled.shape.trans_take written.shape.take) (fun address level index small changed => ?_) cleared (mem_reverse.mp behind)
  exact (filled.cleared valid fits written (.inl small) changed).2

theorem mapLeaves_traced {va physical length : U64} (valid : ValidRange half va physical length)
    (here : start[root]? = some page)
    (isRoot : page.level = 0) (context : Nat) (protection : UatProtection) (physicalAt : Nat → U64)
    (allocator : UatAllocator) : ∀ {turns turn : Nat} {inventory : UatInventory}, turn + turns ≤ pageTurns length →
    Accounted inventory →
    Filled start page.physicalAddress va (descriptorAt context protection physicalAt) turn inventory.pages →
    Traced allocator inventory
      (mapLeaves context root va physicalAt protection allocator start.length turns turn inventory).2
      (mapLeavesReleases context root va physicalAt protection allocator start.length turns turn inventory) := by
  intro turns
  induction turns with
  | zero => exact fun _ _ _ => .refl allocator _
  | succ turns ih =>
  intro turn inventory fits accounted filled
  obtain ⟨page',here',sameAddress,sameLevel⟩ := filled.shape.getElem here
  have traced := findLeaf_traced root (pageAddress va turn) allocator inventory
  unfold mapLeaves mapLeavesReleases
  cases step : findLeaf root (pageAddress va turn) allocator inventory with
  | mk answer found =>
  rw [step] at traced
  obtain ⟨⟨grows,_,accounted'⟩,_,leaf⟩ := findLeaf_spec filled.tree accounted here' (sameLevel.trans isRoot) step
  have kept := filled.grow grows
  have undone := traced.trans (rollback_traced valid here isRoot kept (by omega) allocator)
  cases answer with
  | error failure => exact undone
  | ok place =>
  obtain ⟨isIndex,table,there,isLeaf,address⟩ := leaf place rfl
  dsimp only
  by_cases empty : readEntry found.pages place.1 place.2 = 0
  · rw [if_neg (not_not.mpr empty),if_neg (not_not.mpr empty)]
    cases encoded : encodePageDescriptor context (physicalAt turn) protection with
    | error failure => exact undone
    | ok descriptor =>
    rw [isIndex] at empty ⊢
    rw [sameAddress] at address
    have written := kept.write valid (by omega) there isLeaf address empty
    rw [descriptorAt_ok encoded] at written
    have shape := writeEntry_shape found.pages place.1 (level2Index (pageAddress va turn)) descriptor
    exact (traced.rewrite shape found.mappings).trans (ih (by omega) (accounted'.reshape shape) written)
  rw [if_pos empty,if_pos empty]
  exact undone

private theorem level_addresses : ∀ (turns : Nat) (pages : List UatPage),
    (levelReleases level turns pages).map (fun release => release.address) = levelReturns level turns pages := by
  intro turns
  induction turns with
  | zero => exact fun _ => rfl
  | succ turns ih =>
  intro pages
  unfold levelReleases levelReturns
  cases pages.findIdx? (fun page => page.level == level && pageIsZero page.entries) with
  | none => rfl
  | some pageIndex =>
  rw [map_cons,ih]

theorem level_blank : ∀ (turns : Nat) (pages : List UatPage), ∀ release ∈ levelReleases level turns pages,
    release.Blank := by
  intro turns
  induction turns with
  | zero => exact nofun
  | succ turns ih =>
  intro pages release mem
  unfold levelReleases at mem
  split at mem
  · cases mem
  rename_i pageIndex found
  rcases mem_cons.mp mem with rfl | later
  · obtain ⟨inside,here,_⟩ := findIdx?_eq_some_iff_getElem.mp found
    simp only [pageIsZero,Bool.and_eq_true,all_eq_true,mem_range,beq_iff_eq] at here
    intro index small
    rw [getElem?_eq_getElem inside]
    exact here.2 index small
  exact ih _ release later

variable (context : Nat) (pages : List UatPage)

private theorem prune_addresses : (pruneReleases pages).map (fun release => release.address) = pruneReturns pages := by
  simp only [pruneReleases,pruneReturns,map_append,level_addresses]

private theorem prune_blank : ∀ release ∈ pruneReleases pages, release.Blank := by
  intro release mem
  rcases mem_append.mp mem with leaves | tables
  · exact level_blank 2 _ _ release leaves
  exact level_blank 1 _ _ release tables

variable {roots : UatRoots} {inventory : UatInventory} {mapping : UatMapping}

theorem Unmapping.releases {context mappingIndex : Nat} {va length : U64}
    (unmapping : Unmapping context roots va length inventory mappingIndex root mapping half) :
    unmapReleases context roots va length inventory =
      pruneReleases (writeLeaves root va (fun _ => 0) (pageTurns length) 0 inventory.pages) := by
  rw [unmapReleases,unmapping.unmap_eq]
  rw [unmapping.search]
  dsimp only
  rw [unmapping.here]
  dsimp only
  rw [unmapping.validated]
  dsimp only
  rw [unmapping.found]

theorem unmap_traced (roots : UatRoots) (va length : U64) (allocator : UatAllocator) (inventory : UatInventory) :
    Traced allocator inventory (unmap context roots va length inventory).2
      (unmapReleases context roots va length inventory) := by
  rcases unmap_inversion context roots va length inventory with ⟨failed,same⟩ | ⟨mappingIndex,root,mapping,half,unmapping⟩
  · have none : unmapReleases context roots va length inventory = [] := by
      unfold unmapReleases
      split
      · rename_i step
        exact absurd (congrArg Prod.fst step) failed
      rfl
    rw [none,same]
    exact .refl allocator inventory
  rw [unmapping.unmap_eq,Unmapping.releases unmapping]
  refine ⟨rfl,rfl,fun bounded => ?_,⟨[],(append_nil _).symm⟩,?_,fun release mem => .inl (prune_blank _ release mem)⟩
  · have shape : SameShape inventory.pages (writeLeaves root va (fun _ => 0) (pageTurns length) 0 inventory.pages) :=
      writeLeaves_shape ..
    have same := SameShape.length_eq shape
    have perm := (pruneReturns_perm (writeLeaves root va (fun _ => 0) (pageTurns length) 0 inventory.pages)).length_eq
    simp only [length_append,addresses,length_map] at perm
    simp only [unmappedTo]
    omega
  rw [prune_addresses]
  rfl

end WindowsOnM1.UatReleases
