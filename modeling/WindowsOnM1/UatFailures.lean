import WindowsOnM1.UatReleases

/-!
Maps that fail. The loop over the leaves undoes its own turns; a batch unmaps its earlier
ranges, which takes their tables out again. In the end the inventory stores what it
stored before, and the allocator has got back every page that it handed out meanwhile.
-/
namespace WindowsOnM1.UatFailures
open UatModel UatEncoding UatTree UatMap
open UatOperations UatTranslation UatTables
open UatUndo UatReleases

/-- The page list with the contents of every page, the mapping list, and all counts. -/
structure SameStorage (inventory left : UatInventory) : Prop where
  pages : left.pages = inventory.pages
  pageCapacity : left.pageCapacity = inventory.pageCapacity
  mappings : left.mappings = inventory.mappings
  mappingCapacity : left.mappingCapacity = inventory.mappingCapacity

theorem SameStorage.refl (inventory : UatInventory) : SameStorage inventory inventory := ⟨rfl,rfl,rfl,rfl⟩

/-- A call that leaves no trace: the storage is the same, and the pages that were obtained
    meanwhile have been given back, as pages of zeros or refused as they came. -/
structure Traceless (allocator : UatAllocator) (inventory left : UatInventory) (releases : List Release) : Prop where
  same : SameStorage inventory left
  given : ∃ new, left.obtained = inventory.obtained ++ new ∧
    left.returned = inventory.returned ++ releases.map (fun release => release.address) ∧
    new.Perm (releases.map (fun release => release.address))
  told : ∀ release ∈ releases, release.Blank ∨ release.Refused allocator

theorem Traceless.of_traced {allocator : UatAllocator} {inventory left : UatInventory} {releases : List Release}
    (before : Accounted inventory) (after : Accounted left) (traced : Traced allocator inventory left releases)
    (pages : left.pages = inventory.pages) (mappings : left.mappings = inventory.mappings) :
    Traceless allocator inventory left releases := by
  obtain ⟨new,obtained⟩ := traced.obtained
  refine ⟨⟨pages,traced.pageCapacity,mappings,traced.mappingCapacity⟩,⟨new,obtained,traced.returned,?_⟩,traced.told⟩
  refine List.perm_iff_count.mpr (fun address => ?_)
  have counts := before.count_eq address
  have counts' := after.count_eq address
  rw [pages,traced.returned,obtained] at counts'
  simp only [List.count_append] at counts counts'
  omega

section Range

variable {context : Nat} {roots : UatRoots} {half : UatHalf} {va physical length stride : U64} {protection : UatProtection}
  {physicalAt : Nat → U64} {allocator : UatAllocator} {inventory left : UatInventory}

theorem mapRange_traced (kept : Kept inventory) (context : Nat) (roots : UatRoots) (protection : UatProtection) (stride : U64)
    (physicalAt : Nat → U64) (allocator : UatAllocator) (valid : ValidRange half va physical length) :
    Traced allocator inventory (mapRange context roots half va physical length protection stride physicalAt allocator inventory).2
      (mapRangeReleases context roots half va length protection physicalAt allocator inventory) := by
  unfold mapRange mapRangeReleases
  split
  · exact .refl allocator inventory
  split
  · exact .refl allocator inventory
  cases found : findPage inventory.pages (roots.half half) 0 with
  | none => exact .refl allocator inventory
  | some root =>
  obtain ⟨page,here,_,isRoot⟩ := findPage_some found
  have traced := mapLeaves_traced valid here isRoot context protection physicalAt allocator
    (Nat.le_of_eq (Nat.zero_add (pageTurns length))) kept.accounted (.zero kept.linked.tree _ _ _)
  dsimp only
  cases ran : mapLeaves context root va physicalAt protection allocator inventory.pages.length (pageTurns length) 0
    inventory with
  | mk result left =>
    rw [ran] at traced
    cases result <;> first | exact traced | exact traced.rewrite rfl _

theorem mapRange_failed (kept : Kept inventory) (valid : ValidRange half va physical length)
    (failed : (mapRange context roots half va physical length protection stride physicalAt allocator inventory).1 ≠ .Ok) :
    (mapRange context roots half va physical length protection stride physicalAt allocator inventory).2.pages = inventory.pages ∧
      (mapRange context roots half va physical length protection stride physicalAt allocator inventory).2.mappings =
        inventory.mappings := by
  unfold mapRange at failed ⊢
  split
  · exact ⟨rfl,rfl⟩
  split
  · exact ⟨rfl,rfl⟩
  split
  · exact ⟨rfl,rfl⟩
  rename_i room free _ root found
  rw [if_neg room,if_neg free,found] at failed
  obtain ⟨page,here,_,isRoot⟩ := findPage_some found
  dsimp only at failed
  cases ran : mapLeaves context root va physicalAt protection allocator inventory.pages.length (pageTurns length) 0
    inventory with
  | mk result left =>
    obtain ⟨mappings,_,failing,_⟩ := mapLeaves_spec valid kept.linked.tree here isRoot
      (Nat.le_of_eq (Nat.zero_add _)) kept.accounted (.zero kept.linked.tree _ _ _) ran
    rw [ran] at failed
    cases result <;> first | exact absurd rfl failed | exact ⟨failing (by decide),mappings⟩

/-- What a map of a range leaves when it succeeds. -/
structure Mapped (context : Nat) (roots : UatRoots) (half : UatHalf) (va physical length : U64) (protection : UatProtection)
    (physicalAt : Nat → U64) (root : Nat) (page : UatPage) (inventory left : UatInventory) : Prop where
  room : inventory.mappings.length < inventory.mappingCapacity
  free : ∀ mapping ∈ inventory.mappings, overlaps context va length mapping = false
  here : inventory.pages[root]? = some page
  isRoot : page.level = 0
  address : page.physicalAddress = roots.half half
  filled : Filled inventory.pages page.physicalAddress va (descriptorAt context protection physicalAt) (pageTurns length) left.pages
  linked : Linked left.pages 0
  encodes : ∀ turn < pageTurns length, ∃ descriptor, encodePageDescriptor context (physicalAt turn) protection = .ok descriptor
  mappings : ∃ new, left.mappings = inventory.mappings ++ [new] ∧ new.context = context ∧ new.virtualAddress = va ∧
    new.physicalAddress = physical ∧ new.length = length ∧ new.protection = protection

theorem mapRange_mapped (kept : Kept inventory) (valid : ValidRange half va physical length)
    (ran : mapRange context roots half va physical length protection stride physicalAt allocator inventory = (.Ok,left)) :
    ∃ root page, Mapped context roots half va physical length protection physicalAt root page inventory left := by
  unfold mapRange at ran
  split at ran
  · cases ran
  rename_i room
  split at ran
  · cases ran
  rename_i free
  split at ran
  · cases ran
  rename_i root found
  obtain ⟨page,here,address,isRoot⟩ := findPage_some found
  cases step : mapLeaves context root va physicalAt protection allocator inventory.pages.length (pageTurns length) 0
    inventory with
  | mk result mapped =>
    obtain ⟨mappings,_,_,filling⟩ := mapLeaves_spec valid kept.linked.tree here isRoot
      (Nat.le_of_eq (Nat.zero_add _)) kept.accounted (.zero kept.linked.tree _ _ _) step
    rw [step] at ran
    cases result <;> cases ran
    obtain ⟨filled,encodes⟩ := filling rfl
    have linked : Linked mapped.pages 0 := mapLeaves_linked kept.linked kept.accounted here isRoot step
    rw [Nat.zero_add] at filled
    refine ⟨root,page,Nat.not_le.mp room,fun mapping mem => ?_,here,isRoot,address,filled,linked,
      fun turn inside => encodes turn (Nat.zero_le _) (by omega),
      ⟨_,congrArg (· ++ _) mappings,rfl,rfl,rfl,rfl,rfl⟩⟩
    simp only [Bool.not_eq_true,List.any_eq_false] at free
    simpa using free mapping mem

/-- Unmapping a range that was just mapped takes the pages and the records back. -/
theorem Mapped.undone {root : Nat} {page : UatPage} (kept : Kept inventory)
    (validated : validateRange context va physical length protection = .ok half)
    (bounded : left.pages.length ≤ left.pageCapacity) (capacity : left.mappingCapacity = inventory.mappingCapacity)
    (mapped : Mapped context roots half va physical length protection physicalAt root page inventory left)
    {now : UatInventory} (same : SameStorage left now) : (unmap context roots va length now).2.pages = inventory.pages ∧
      (unmap context roots va length now).2.mappings = inventory.mappings := by
  obtain ⟨_,valid⟩ := validateRange_spec validated
  obtain ⟨new,mappings,isContext,isStart,isPhysical,isLength,isProtection⟩ := mapped.mappings
  obtain ⟨page',there,sameAddress,sameLevel⟩ := mapped.filled.shape.getElem mapped.here
  have isRoot := sameLevel.trans mapped.isRoot
  have nonzero : ∀ turn < pageTurns length, leafValue left.pages page.physicalAddress (pageAddress va turn) ≠ 0 := by
    intro turn inside
    obtain ⟨descriptor,encoded⟩ := mapped.encodes turn inside
    rw [mapped.filled.leaf,valid.page_key inside,if_pos ⟨rfl,by omega,by omega⟩,Nat.add_sub_cancel_left,descriptorAt_ok encoded]
    exact ne_zero_of_descriptor (encodePageDescriptor_spec encoded).2
  -- no earlier record is the range
  have search : (inventory.mappings ++ [new]).findIdx? (fun candidate => candidate.context == context &&
      candidate.virtualAddress == va && candidate.length == length) = some inventory.mappings.length := by
    rw [List.findIdx?_append,List.findIdx?_eq_none_iff.mpr]
    · simp [isContext,isStart,isLength]
    intro mapping mem
    by_contra exact
    simp only [Bool.not_eq_false,Bool.and_eq_true,beq_iff_eq] at exact
    obtain ⟨⟨sameContext,sameStart⟩,sameLength⟩ := exact
    have free := mapped.free mapping mem
    simp only [overlaps,sameContext,sameStart,sameLength,beq_self_eq_true,Bool.true_and,Bool.and_self,
      decide_eq_false_iff_not,BitVec.le_def,valid.last] at free
    have positive := valid.positive
    omega
  have unmapping : Unmapping context roots va length now inventory.mappings.length root new half := by
    refine ⟨?_,?_,?_,?_,?_,?_⟩
    · simp only [checkOwnerArguments,same.pages,same.pageCapacity,same.mappings,same.mappingCapacity,mappings,capacity,
        Bool.and_eq_true,decide_eq_true_eq,List.length_append,List.length_singleton]
      exact ⟨bounded,mapped.room⟩
    · rw [same.mappings,mappings]
      exact search
    · rw [same.mappings,mappings,List.getElem?_concat_length]
    · rw [isPhysical,isProtection]
      exact validated
    · have found := findPage_getElem mapped.filled.tree.distinct there
      rw [sameAddress,isRoot,mapped.address] at found
      rw [same.pages]
      exact found
    rw [same.pages,leavesMapped_iff mapped.filled.tree there isRoot,sameAddress]
    exact nonzero
  have written := writeLeaves_spec valid (fun _ => 0) (pageTurns length) 0 mapped.filled.tree there isRoot
    (Nat.le_of_eq (Nat.zero_add _)) (fun turn _ inside => by rw [sameAddress]; exact mapped.filled.table turn (by omega))
  have hung := mapped.linked.hung.leaves written.tree written.shape (written_same written)
  rw [sameAddress] at written
  rw [unmapping.unmap_eq,unmappedTo,same.pages,same.mappings,mappings]
  refine ⟨(emptying_of_filled valid (Nat.le_refl _) kept.linked hung mapped.filled written).restores,?_⟩
  rw [List.eraseIdx_append_of_length_le (Nat.le_refl _),Nat.sub_self]
  exact List.append_nil _

end Range

variable {inventory : UatInventory}

theorem map_traced (kept : Kept inventory) (context : Nat) (roots : UatRoots)
    (va physical length : U64) (protection : UatProtection) (allocator : UatAllocator) :
    Traced allocator inventory (map context roots va physical length protection allocator inventory).2
      (mapReleases context roots va physical length protection allocator inventory) := by
  unfold map mapReleases
  split
  · exact .refl allocator inventory
  cases validated : validateRange context va physical length protection with
  | error result => exact .refl allocator inventory
  | ok half => exact mapRange_traced kept context roots protection pageSize _ allocator (validateRange_spec validated).2

variable {context : Nat} {roots : UatRoots} {protection : UatProtection} {allocator : UatAllocator}

theorem map_failed (kept : Kept inventory) {va physical length : U64}
    (failed : (map context roots va physical length protection allocator inventory).1 ≠ .Ok) :
    (map context roots va physical length protection allocator inventory).2.pages = inventory.pages ∧
      (map context roots va physical length protection allocator inventory).2.mappings = inventory.mappings := by
  unfold map at failed ⊢
  split
  · exact ⟨rfl,rfl⟩
  rename_i owner
  rw [if_neg owner] at failed
  cases validated : validateRange context va physical length protection with
  | error result => exact ⟨rfl,rfl⟩
  | ok half =>
  rw [validated] at failed
  exact mapRange_failed kept (validateRange_spec validated).2 failed

variable {physicalPages : List U64}

private theorem mapPageList_traced (kept : Kept inventory) (context : Nat) (roots : UatRoots) (va : U64)
    (counted : physicalPages.length < 2 ^ 32) (protection : UatProtection) (allocator : UatAllocator) :
    Traced allocator inventory (mapPageList context roots va physicalPages protection allocator inventory).2
      (mapPageListReleases context roots va physicalPages protection allocator inventory) := by
  unfold mapPageList mapPageListReleases
  cases physicalPages with
  | nil => exact .refl allocator inventory
  | cons first rest =>
  dsimp only
  split
  · exact .refl allocator inventory
  cases validated : validateRange context va first (BitVec.ofNat 64 ((first :: rest).length * 0x4000)) protection with
  | error result => exact .refl allocator inventory
  | ok whole =>
  dsimp only
  cases pagesValidated : validatePages context va protection 0 (first :: rest) whole with
  | error result => exact .refl allocator inventory
  | ok half =>
  obtain ⟨_,valid⟩ := validateRange_spec validated
  rw [← half_of_pages valid counted pagesValidated] at valid
  exact mapRange_traced kept context roots protection (~~~0) _ allocator valid

private theorem mapPageList_failed (kept : Kept inventory) {va : U64} (counted : physicalPages.length < 2 ^ 32)
    (failed : (mapPageList context roots va physicalPages protection allocator inventory).1 ≠ .Ok) :
    (mapPageList context roots va physicalPages protection allocator inventory).2.pages = inventory.pages ∧
      (mapPageList context roots va physicalPages protection allocator inventory).2.mappings = inventory.mappings := by
  unfold mapPageList at failed ⊢
  cases physicalPages with
  | nil => exact ⟨rfl,rfl⟩
  | cons first rest =>
  dsimp only at failed ⊢
  split
  · exact ⟨rfl,rfl⟩
  rename_i owner
  rw [if_neg owner] at failed
  cases validated : validateRange context va first (BitVec.ofNat 64 ((first :: rest).length * 0x4000)) protection with
  | error result => exact ⟨rfl,rfl⟩
  | ok whole =>
  rw [validated] at failed
  dsimp only at failed ⊢
  cases pagesValidated : validatePages context va protection 0 (first :: rest) whole with
  | error result => exact ⟨rfl,rfl⟩
  | ok half =>
  rw [pagesValidated] at failed
  obtain ⟨_,valid⟩ := validateRange_spec validated
  rw [← half_of_pages valid counted pagesValidated] at valid
  exact mapRange_failed kept valid failed

theorem map_undone {left now : UatInventory} (kept : Kept inventory) {va physical length : U64}
    (ran : map context roots va physical length protection allocator inventory = (.Ok,left)) (same : SameStorage left now) :
    SameStorage inventory (unmap context roots va length now).2 := by
  have traced := map_traced kept context roots va physical length protection allocator
  rw [ran] at traced
  unfold map at ran
  split at ran
  · cases ran
  rename_i owner
  rw [not_not] at owner
  split at ran
  · rename_i result failed
    cases ran
    exact absurd failed validateRange_error
  rename_i half validated
  obtain ⟨root,page,mapped⟩ := mapRange_mapped kept (validateRange_spec validated).2 ran
  have fits := owner
  simp only [checkOwnerArguments,Bool.and_eq_true,decide_eq_true_eq] at fits
  obtain ⟨pages,mappings⟩ := mapped.undone kept validated (traced.bounded fits.1) traced.mappingCapacity same
  have unmapped := unmap_traced context roots va length allocator now
  exact ⟨pages,unmapped.pageCapacity.trans (same.pageCapacity.trans traced.pageCapacity),mappings,
    unmapped.mappingCapacity.trans (same.mappingCapacity.trans traced.mappingCapacity)⟩

private theorem unmapBack_traced (context : Nat) (roots : UatRoots) (allocator : UatAllocator) : ∀ (ranges : List UatRange)
    (inventory : UatInventory), Traced allocator inventory (unmapBack context roots ranges inventory)
      (unmapBackReleases context roots ranges inventory) := by
  intro ranges
  induction ranges with
  | nil => exact .refl allocator
  | cons range earlier ih =>
  exact fun inventory => (unmap_traced context roots range.virtualAddress range.length allocator inventory).trans (ih _)

private theorem mapRanges_traced (context : Nat) (roots : UatRoots) (allocator : UatAllocator) : ∀ (ranges done : List UatRange)
    {inventory : UatInventory}, Kept inventory →
    Traced allocator inventory (mapRanges context roots allocator ranges done inventory).2
      (mapRangesReleases context roots allocator ranges done inventory) := by
  intro ranges
  induction ranges with
  | nil => exact fun _ inventory _ => .refl allocator inventory
  | cons range rest ih =>
  intro done inventory kept
  have traced := map_traced kept context roots range.virtualAddress range.physicalAddress range.length range.protection allocator
  have kept' := map_kept kept context roots range.virtualAddress range.physicalAddress range.length range.protection allocator
  unfold mapRanges mapRangesReleases
  cases step : map context roots range.virtualAddress range.physicalAddress range.length range.protection allocator
    inventory with
  | mk result left =>
    rw [step] at traced kept'
    cases result <;>
      first | exact traced.trans (ih _ kept') | exact traced.trans (unmapBack_traced context roots allocator done left)

/-- A batch that fails goes back to the inventory to which its mapped ranges are undone. -/
private theorem mapRanges_failed {start : UatInventory} :
    ∀ {ranges done : List UatRange} {inventory : UatInventory}, Kept inventory →
    (∀ now, SameStorage inventory now → SameStorage start (unmapBack context roots done now)) →
    (mapRanges context roots allocator ranges done inventory).1 ≠ .Ok →
    SameStorage start (mapRanges context roots allocator ranges done inventory).2 := by
  intro ranges
  induction ranges with
  | nil => exact fun _ _ bad => absurd rfl bad
  | cons range rest ih =>
  intro done inventory kept undoes failed
  have traced := map_traced kept context roots range.virtualAddress range.physicalAddress range.length range.protection allocator
  have kept' := map_kept kept context roots range.virtualAddress range.physicalAddress range.length range.protection allocator
  unfold mapRanges at failed ⊢
  cases step : map context roots range.virtualAddress range.physicalAddress range.length range.protection allocator
    inventory with
  | mk result left =>
    rw [step] at failed traced kept'
    by_cases isOk : result = .Ok
    · subst isOk
      exact ih kept' (fun now same => undoes _ (map_undone kept step same)) failed
    obtain ⟨pages,mappings⟩ := map_failed kept (by rw [step]; exact isOk)
    rw [step] at pages mappings
    have back := undoes left ⟨pages,traced.pageCapacity,mappings,traced.mappingCapacity⟩
    cases result <;> first | exact absurd rfl isOk | exact back

private theorem mapBatch_traceless (kept : Kept inventory) (context : Nat) (roots : UatRoots)
    (ranges : List UatRange) (allocator : UatAllocator) (failed : (mapBatch context roots ranges allocator inventory).1 ≠ .Ok) :
    Traceless allocator inventory (mapBatch context roots ranges allocator inventory).2
      (mapBatchReleases context roots ranges allocator inventory) := by
  unfold mapBatch mapBatchReleases at *
  have nothing := Traceless.of_traced kept.accounted kept.accounted (.refl allocator inventory) rfl rfl
  split
  · exact nothing
  rename_i arguments
  split
  · exact nothing
  rename_i room
  rw [if_neg arguments,if_neg room] at failed
  have same := mapRanges_failed kept (fun _ same => same) failed
  have kept' : Kept (mapRanges context roots allocator ranges [] inventory).2 :=
    mapRanges_keeps Kept (fun va length _ kept => unmap_kept kept context roots va length)
      (fun range _ _ kept => map_kept kept context roots _ _ _ _ allocator) kept
  exact Traceless.of_traced kept.accounted kept'.accounted (mapRanges_traced context roots allocator ranges [] kept)
    same.pages same.mappings

/-- In every reachable inventory a map that fails leaves no trace, whatever its arguments
    and the allocator are, and so does a batch of maps. -/
theorem failed_maps_leave_no_trace (allocator asked : UatAllocator) (pageCapacity mappingCapacity : Nat) (ops : List Op) :
    let inventory := (run allocator (initial pageCapacity mappingCapacity) ops).inventory
    (∀ context roots va physical length protection,
      (map context roots va physical length protection asked inventory).1 ≠ .Ok →
        Traceless asked inventory (map context roots va physical length protection asked inventory).2
          (mapReleases context roots va physical length protection asked inventory)) ∧
    (∀ context roots va physicalPages protection, physicalPages.length < 2 ^ 32 →
      (mapPageList context roots va physicalPages protection asked inventory).1 ≠ .Ok →
        Traceless asked inventory (mapPageList context roots va physicalPages protection asked inventory).2
          (mapPageListReleases context roots va physicalPages protection asked inventory)) ∧
    (∀ context roots ranges, (mapBatch context roots ranges asked inventory).1 ≠ .Ok →
      Traceless asked inventory (mapBatch context roots ranges asked inventory).2
        (mapBatchReleases context roots ranges asked inventory)) := by
  intro inventory
  have kept : Kept inventory := run_kept (initial_kept pageCapacity mappingCapacity)
  refine ⟨fun context roots va physical length protection failed => ?_,
    fun context roots va physicalPages protection counted failed => ?_,
    fun context roots ranges failed => mapBatch_traceless kept context roots ranges asked failed⟩
  · obtain ⟨pages,mappings⟩ := map_failed kept failed
    exact .of_traced kept.accounted (map_kept kept context roots va physical length protection asked).accounted
      (map_traced kept context roots va physical length protection asked) pages mappings
  obtain ⟨pages,mappings⟩ := mapPageList_failed kept counted failed
  exact .of_traced kept.accounted (mapPageList_kept kept context roots va counted protection asked).accounted
    (mapPageList_traced kept context roots va counted protection asked) pages mappings

/-- An allocator that hands out pages that were not cleared. -/
def uncleared : UatAllocator where
  allocatePage := fun turn live => (inTurn.allocatePage turn live).map (fun candidate => { candidate with entries := fun _ => 1 })
  fresh := fun turn live candidate answer => by
    obtain ⟨cleared,given,rfl⟩ := Option.map_eq_some_iff.mp answer
    exact inTurn.fresh turn live cleared given

/-- A page that is refused is given back as it came. -/
theorem refused_page_not_cleared : ¬ ∀ (allocator asked : UatAllocator) (pageCapacity mappingCapacity : Nat) (ops : List Op)
    (context : Nat) (roots : UatRoots) (va physical length : U64) (protection : UatProtection),
    (map context roots va physical length protection asked
      (run allocator (initial pageCapacity mappingCapacity) ops).inventory).1 ≠ .Ok →
    ∀ release ∈ mapReleases context roots va physical length protection asked
      (run allocator (initial pageCapacity mappingCapacity) ops).inventory, release.Blank := by
  intro claimed
  have blank := claimed inTurn uncleared 8 4 [.createAddressSpace 1] 1 ⟨0x4000,0x8000⟩ 0x8000 0x100000 0x4000
    .GpuSharedReadWrite (by decide +kernel)
  have first : (mapReleases 1 ⟨0x4000,0x8000⟩ 0x8000 0x100000 0x4000 .GpuSharedReadWrite uncleared
      (run inTurn (initial 8 4) [.createAddressSpace 1]).inventory).map (fun release => release.entries 0) = [1] := by
    decide +kernel
  obtain ⟨release,mem,entry⟩ := List.mem_map.mp (first ▸ List.mem_singleton_self (1 : U64))
  have zero := blank release mem 0 (by decide)
  rw [zero] at entry
  cases entry

section
variable {context : Nat} {roots : UatRoots} {allocator : UatAllocator}

/-- Behind a batch that was mapped the ranges are taken back, the last one first. -/
private theorem mapRanges_undone {start left : UatInventory} :
    ∀ {ranges done : List UatRange} {inventory : UatInventory}, Kept inventory →
    (∀ now, SameStorage inventory now → SameStorage start (unmapBack context roots done now)) →
    mapRanges context roots allocator ranges done inventory = (.Ok,left) →
    ∀ now, SameStorage left now → SameStorage start (unmapBack context roots (ranges.reverse ++ done) now) := by
  intro ranges
  induction ranges with
  | nil =>
    intro done inventory _ undoes ran
    cases ran
    exact undoes
  | cons range rest ih =>
  intro done inventory kept undoes ran
  have kept' := map_kept kept context roots range.virtualAddress range.physicalAddress range.length range.protection allocator
  unfold mapRanges at ran
  cases step : map context roots range.virtualAddress range.physicalAddress range.length range.protection allocator
    inventory with
  | mk result mapped =>
    rw [step] at ran kept'
    cases result <;> try cases ran
    rw [List.reverse_cons,List.append_assoc]
    exact ih kept' (fun now same => undoes _ (map_undone kept step same)) ran

end

/-- **Unmapping undoes mapping.** In every reachable inventory, when a batch of any length was mapped, unmapping its ranges from
    the last to the first leaves the pages with all their contents, and the mappings, that there were before. -/
theorem unmaps_undo_maps (allocator asked : UatAllocator) (pageCapacity mappingCapacity : Nat) (ops : List Op)
    (context : Nat) (roots : UatRoots) (ranges : List UatRange)
    (mapped : (mapBatch context roots ranges asked (run allocator (initial pageCapacity mappingCapacity) ops).inventory).1 = .Ok) :
    SameStorage (run allocator (initial pageCapacity mappingCapacity) ops).inventory (unmapBack context roots ranges.reverse
      (mapBatch context roots ranges asked (run allocator (initial pageCapacity mappingCapacity) ops).inventory).2) := by
  unfold mapBatch at mapped ⊢
  split at mapped
  · cases mapped
  rename_i arguments
  split at mapped
  · cases mapped
  rename_i room
  rw [if_neg arguments,if_neg room]
  have undone := mapRanges_undone (run_kept (initial_kept pageCapacity mappingCapacity)) (fun _ same => same)
    (Prod.ext mapped rfl) _ (.refl _)
  rwa [List.append_nil] at undone

theorem unmaps_undo_maps_two : let inventory := (run inTurn (initial 8 4) [.createAddressSpace 1]).inventory
    let ranges : List UatRange := [⟨0x8000,0x100000,0x4000,.GpuSharedReadWrite⟩,⟨0xc000,0x200000,0x4000,.GpuSharedReadWrite⟩]
    SameStorage inventory (unmapBack 1 ⟨0x4000,0x8000⟩ ranges.reverse (mapBatch 1 ⟨0x4000,0x8000⟩ ranges inTurn inventory).2) :=
  unmaps_undo_maps inTurn inTurn 8 4 [.createAddressSpace 1] 1 ⟨0x4000,0x8000⟩ _ (by decide +kernel)

end WindowsOnM1.UatFailures
