import WindowsOnM1.UatFailures

/-!
Batches of unmaps and of replacements. Every batch looks at all of its ranges before it
writes; what it then does depends on which of them share a leaf. The records of a context
never overlap, so ranges with different addresses have different records.
-/
namespace WindowsOnM1.UatBatches
open UatModel UatEncoding UatTree UatMap UatPrune
open UatRecords UatOperations UatTranslation UatTables
open UatReleases UatFailures

/-- The entry that the tables of a root hold for an address, or 0. -/
def walk (inventory : UatInventory) (root va : U64) : U64 :=
  match findPage inventory.pages root 0 with
  | none => 0
  | some page =>
    match findExistingLeaf inventory.pages page va with
    | none => 0
    | some (table,index) => readEntry inventory.pages table index

/-- The address has the leaf of a page of the range. -/
def NamesAt (roots : UatRoots) (range : UatRange) (turn : Nat) (root va : U64) : Prop :=
  rootOf roots range.virtualAddress = root ∧ turn < pageTurns range.length ∧
    key (pageAddress range.virtualAddress turn) = key va
def Names (roots : UatRoots) (range : UatRange) (root va : U64) : Prop := ∃ turn, NamesAt roots range turn root va
def Shares (roots : UatRoots) (first second : UatRange) : Prop :=
  ∃ root va, Names roots first root va ∧ Names roots second root va

theorem walk_eq {inventory : UatInventory} (tree : Tree inventory.pages) (root va : U64) :
    walk inventory root va = leafValue inventory.pages root va := by
  unfold walk
  split
  · rename_i missing
    have absent := findPage_none missing
    rw [leafValue,leafTable,entryAt_absent absent,masked_zero,tree.entryAt_zero,masked_zero,tree.entryAt_zero]
  rename_i j found
  obtain ⟨page,here,address,isRoot⟩ := findPage_some found
  rw [← address]
  exact findExistingLeaf_value tree here isRoot va

/-- The records have ranges of a half, and those of one context do not overlap. -/
structure Ranged (mappings : List UatMapping) : Prop where
  valid : ∀ mapping ∈ mappings, ∃ half, ValidRange half mapping.virtualAddress mapping.physicalAddress mapping.length
  apart : mappings.Pairwise Apart

namespace Ranged

variable {mappings : List UatMapping} (ranged : Ranged mappings)
include ranged

theorem unique {i j : Nat} {first second : UatMapping} (here : mappings[i]? = some first) (there : mappings[j]? = some second)
    (context : first.context = second.context) (start : first.virtualAddress = second.virtualAddress)
    (length : first.length = second.length) : i = j := by
  refine eq_of_not_apart ranged.apart here there (fun apart => ?_)
  obtain ⟨half,valid⟩ := ranged.valid first (List.mem_of_getElem? here)
  have positive := valid.positive
  have disjoint := apart context
  rw [start,length] at disjoint
  rw [length] at positive
  omega

theorem erase (i : Nat) : Ranged (mappings.eraseIdx i) :=
  ⟨fun mapping mem => ranged.valid mapping (List.mem_of_mem_eraseIdx mem),
    ranged.apart.sublist (List.eraseIdx_sublist ..)⟩

theorem append {new : UatMapping} {half : UatHalf} (valid : ValidRange half new.virtualAddress new.physicalAddress new.length)
    (free : ∀ mapping ∈ mappings, overlaps new.context new.virtualAddress new.length mapping = false) :
    Ranged (mappings ++ [new]) := by
  refine ⟨fun mapping mem => ?_,List.pairwise_append.mpr ⟨ranged.apart,List.pairwise_singleton _ _,fun old mem last isNew => ?_⟩⟩
  · rcases List.mem_append.mp mem with old | last
    · exact ranged.valid mapping old
    rw [List.mem_singleton.mp last]
    exact ⟨half,valid⟩
  obtain ⟨half',valid'⟩ := ranged.valid old mem
  rw [List.mem_singleton.mp isNew]
  exact apart_of_overlaps valid' valid (free old mem)

theorem modify (i : Nat) {f : UatMapping → UatMapping} (same : ∀ mapping, (f mapping).context = mapping.context ∧
      (f mapping).virtualAddress = mapping.virtualAddress ∧ (f mapping).length = mapping.length)
    (valid : ∀ mapping, mappings[i]? = some mapping →
      ∃ half, ValidRange half mapping.virtualAddress (f mapping).physicalAddress mapping.length) :
    Ranged (mappings.modify i f) := by
  have place : ∀ {j : Nat} {mapping : UatMapping}, (mappings.modify i f)[j]? = some mapping →
      ∃ old, mappings[j]? = some old ∧ mapping = if i = j then f old else old := by
    intro j mapping there
    rw [List.getElem?_modify] at there
    obtain ⟨old,here,rfl⟩ := Option.map_eq_some_iff.mp there
    exact ⟨old,here,by split_ifs <;> rfl⟩
  refine ⟨fun mapping mem => ?_,?_⟩
  · obtain ⟨j,there⟩ := List.getElem?_of_mem mem
    obtain ⟨old,here,rfl⟩ := place there
    split_ifs with atNew
    · subst atNew
      obtain ⟨_,start,length⟩ := same old
      rw [start,length]
      exact valid old here
    exact ranged.valid old (List.mem_of_getElem? here)
  refine apart_of_places (List.ext_getElem? (fun j => ?_)) ranged.apart
  rw [List.getElem?_map,List.getElem?_map,List.getElem?_modify]
  cases mappings[j]? with
  | none => rfl
  | some old =>
  obtain ⟨context,start,length⟩ := same old
  by_cases atNew : i = j
  · simp [atNew,placeOf,context,start,length]
  simp [atNew]

end Ranged

/-- What every call keeps of the pages and of the records, whatever roots it names. -/
structure Held (inventory : UatInventory) : Prop where
  kept : Kept inventory
  ranged : Ranged inventory.mappings

theorem allocateRecordedPage_mappings (level : Nat) (allocator : UatAllocator) (inventory : UatInventory) :
    (allocateRecordedPage level allocator inventory).2.mappings = inventory.mappings := by
  unfold allocateRecordedPage
  split
  · rfl
  split
  · rfl
  split <;> rfl

private theorem createAddressSpace_mappings (context : Nat) (allocator : UatAllocator) (inventory : UatInventory) :
    (createAddressSpace context allocator inventory).2.mappings = inventory.mappings := by
  have low := allocateRecordedPage_mappings 0 allocator inventory
  unfold createAddressSpace
  split
  · rfl
  split
  · rfl
  cases first : allocateRecordedPage 0 allocator inventory with
  | mk answer left =>
  rw [first] at low
  cases answer with
  | error result => exact low
  | ok page =>
  have high := allocateRecordedPage_mappings 0 allocator left
  dsimp only
  cases second : allocateRecordedPage 0 allocator left with
  | mk answer' left' =>
  rw [second] at high
  cases answer' <;> exact high.trans low

variable {inventory : UatInventory} {context : Nat} {roots : UatRoots} {half : UatHalf} {allocator : UatAllocator}

theorem mapRange_ranged (held : Held inventory)
    {va physical length stride : U64} {protection : UatProtection} {physicalAt : Nat → U64}
    (valid : ValidRange half va physical length) :
    Ranged (mapRange context roots half va physical length protection stride physicalAt allocator inventory).2.mappings := by
  cases ran : mapRange context roots half va physical length protection stride physicalAt allocator inventory with
  | mk result left =>
  by_cases isOk : result = .Ok
  · subst isOk
    obtain ⟨root,page,mapped⟩ := mapRange_mapped held.kept valid ran
    obtain ⟨new,mappings,isContext,isStart,isPhysical,isLength,_⟩ := mapped.mappings
    rw [mappings]
    refine @Ranged.append _ held.ranged new half ?_ ?_
    · rw [isStart,isPhysical,isLength]
      exact valid
    rw [isContext,isStart,isLength]
    exact mapped.free
  have same := (mapRange_failed held.kept valid (by rw [ran]; exact isOk)).2
  rw [ran] at same
  rw [same]
  exact held.ranged

theorem map_held (held : Held inventory) (context : Nat) (roots : UatRoots)
    (va physical length : U64) (protection : UatProtection) (allocator : UatAllocator) :
    Held (map context roots va physical length protection allocator inventory).2 := by
  refine ⟨map_kept held.kept context roots va physical length protection allocator,?_⟩
  unfold map
  split
  · exact held.ranged
  split
  · exact held.ranged
  rename_i half validated
  exact mapRange_ranged held (validateRange_spec validated).2

private theorem mapPageList_held (held : Held inventory) (context : Nat) (roots : UatRoots) (va : U64)
    {physicalPages : List U64} (counted : physicalPages.length < 2 ^ 32) (protection : UatProtection) (allocator : UatAllocator) :
    Held (mapPageList context roots va physicalPages protection allocator inventory).2 := by
  refine ⟨mapPageList_kept held.kept context roots va counted protection allocator,?_⟩
  unfold mapPageList
  split
  · exact held.ranged
  dsimp only
  split
  · exact held.ranged
  split
  · exact held.ranged
  rename_i whole validated
  split
  · exact held.ranged
  rename_i half pagesValidated
  obtain ⟨_,valid⟩ := validateRange_spec validated
  rw [half_of_pages valid counted pagesValidated]
  exact mapRange_ranged held valid

theorem unmap_held (held : Held inventory) (context : Nat) (roots : UatRoots) (va length : U64) :
    Held (unmap context roots va length inventory).2 := by
  refine ⟨unmap_kept held.kept context roots va length,?_⟩
  rcases unmap_inversion context roots va length inventory with ⟨_,same⟩ | ⟨mappingIndex,root,mapping,half,unmapping⟩
  · rw [same]
    exact held.ranged
  rw [unmapping.unmap_eq]
  exact held.ranged.erase mappingIndex

theorem replaceRanges_ranged (context : Nat) (roots : UatRoots) : ∀ {replacements : List UatReplacement}
    {inventory : UatInventory}, Ranged inventory.mappings →
    (∀ replacement ∈ replacements, ∃ half, validateRange context replacement.old.virtualAddress replacement.physicalAddress
      replacement.old.length replacement.protection = .ok half) →
    Ranged (replaceRanges context roots replacements inventory).2.mappings := by
  intro replacements
  induction replacements with
  | nil => exact fun ranged _ => ranged
  | cons replacement rest ih =>
  intro inventory ranged validated
  obtain ⟨half,valid⟩ := validated replacement List.mem_cons_self
  unfold replaceRanges
  simp only [valid]
  split
  · rename_i i root search found
    refine ih (ranged.modify i (fun _ => ⟨rfl,rfl,rfl⟩) (fun mapping here => ⟨half,?_⟩))
      (fun other later => validated other (List.mem_cons_of_mem _ later))
    obtain ⟨inside,isExact,_⟩ := List.findIdx?_eq_some_iff_getElem.mp search
    obtain ⟨_,start,_,length,_⟩ := exactMapping_iff.mp isExact
    rw [Option.some.inj ((List.getElem?_eq_getElem inside).symm.trans here)] at start length
    rw [start,length]
    exact (validateRange_spec valid).2
  exact ranged

private theorem replaceBatchWithPage_held (held : Held inventory) (context : Nat) (roots : UatRoots)
    (ranges : List UatRange) (page : U64) (protection : UatProtection) :
    Held (replaceBatchWithPage context roots ranges page protection inventory).2 := by
  refine ⟨replaceBatchWithPage_kept held.kept context roots ranges page protection,?_⟩
  unfold replaceBatchWithPage
  dsimp only
  split
  · exact held.ranged
  split
  · exact held.ranged
  split
  · rename_i valid
    exact replaceRanges_ranged context roots held.ranged
      (fun replacement mem => ((validateReplacements_accepted valid).valid replacement mem).2)
  exact held.ranged

private theorem replaceBatch_held (held : Held inventory) (context : Nat) (roots : UatRoots)
    (pairs : List (UatRange × UatRange)) : Held (replaceBatch context roots pairs inventory).2 := by
  refine ⟨replaceBatch_kept held.kept context roots pairs,?_⟩
  unfold replaceBatch
  split
  · exact held.ranged
  split
  · rename_i valid
    exact replaceRanges_ranged context roots held.ranged (fun replacement mem =>
      ((validatePairs_accepted (fun range => pageAddress range.physicalAddress) valid).valid replacement mem).2)
  exact held.ranged

private theorem step_held {state : UatState} (held : Held state.inventory) (op : Op) :
    Held (step allocator state op).inventory := by
  have unmaps := fun context roots va length inventory (held : Held inventory) => unmap_held held context roots va length
  cases op with
  | createAddressSpace context =>
    have kept : Kept (step allocator state (.createAddressSpace context)).inventory := step_kept held.kept _
    have mappings := createAddressSpace_mappings context allocator state.inventory
    refine ⟨kept,?_⟩
    have same : (step allocator state (.createAddressSpace context)).inventory.mappings = state.inventory.mappings := by
      unfold step
      dsimp only
      cases created : createAddressSpace context allocator state.inventory with
      | mk answer left =>
      rw [created] at mappings
      cases answer <;> exact mappings
    rw [same]
    exact held.ranged
  | map context roots va physical length protection => exact map_held held context roots va physical length protection allocator
  | mapPageList context roots va pages counted protection =>
    exact mapPageList_held held context roots va counted protection allocator
  | unmap context roots va length => exact unmap_held held context roots va length
  | mapBatch context roots ranges =>
    exact mapBatch_keeps Held (unmaps context roots) (fun _ _ _ held => map_held held context roots _ _ _ _ allocator) held
  | unmapBatch context roots ranges => exact unmapBatch_keeps Held (unmaps context roots) held
  | replaceBatch context roots pairs => exact replaceBatch_held held context roots pairs
  | replaceBatchWithPage context roots ranges page protection =>
  exact replaceBatchWithPage_held held context roots ranges page protection

theorem run_held : ∀ {ops : List Op} {state : UatState}, Held state.inventory →
    Held (run allocator state ops).inventory := by
  intro ops
  induction ops with
  | nil => exact fun held => held
  | cons op rest ih => exact fun held => ih (step_held held op)

theorem initial_held (pageCapacity mappingCapacity : Nat) : Held (initial pageCapacity mappingCapacity).inventory :=
  ⟨initial_kept pageCapacity mappingCapacity,⟨fun _ bad => absurd bad List.not_mem_nil,.nil⟩⟩

/-- A range that its validation accepts: a record is the range, and each of its pages has an entry. -/
structure Valid (context : Nat) (roots : UatRoots) (range : UatRange) (inventory : UatInventory) (half : UatHalf) : Prop where
  validated : validateRange context range.virtualAddress range.physicalAddress range.length range.protection = .ok half
  recorded : ∃ mapping ∈ inventory.mappings, exactMapping context range mapping = true
  mapped : ∀ turn < pageTurns range.length,
    leafValue inventory.pages (roots.half half) (pageAddress range.virtualAddress turn) ≠ 0

private theorem isRoot_of_leaf {pages : List UatPage} (tree : Tree pages) {root va : U64} (there : leafValue pages root va ≠ 0) :
    IsRoot pages root := by
  have nonzero : entryAt pages root 0 (level0Index va) ≠ 0 := by
    intro zero
    apply there
    rw [leafValue,leafTable,zero,masked_zero,tree.entryAt_zero,masked_zero,tree.entryAt_zero]
  obtain ⟨page,mem,address,level⟩ := exists_of_entryAt nonzero
  exact ⟨page,mem,address,level⟩

variable {range : UatRange}

theorem validateExactMapping_ok (tree : Tree inventory.pages)
    (accepted : validateExactMapping context roots range inventory = .Ok) :
    ∃ half, Valid context roots range inventory half := by
  unfold validateExactMapping at accepted
  split at accepted
  · rename_i result failed
    exact absurd (failed.trans (congrArg Except.error accepted)) validateRange_error
  rename_i half validated
  split at accepted
  · cases accepted
  rename_i recorded
  split at accepted
  · cases accepted
  rename_i root found
  split at accepted
  · rename_i mapped
    obtain ⟨page,there,address,isRoot⟩ := findPage_some found
    have leaves := (leavesMapped_iff tree there isRoot _ _).mp mapped
    rw [address] at leaves
    exact ⟨half,validated,List.any_eq_true.mp (not_not.mp recorded),leaves⟩
  cases accepted

private theorem leafValue_key (pages : List UatPage) (root : U64) {va va' : U64} (same : key va = key va') :
    leafValue pages root va = leafValue pages root va' := by
  rw [leafValue,leafValue,leafTable,leafTable,level0Index_eq,level0Index_eq,level1Index_eq,level1Index_eq,level2Index_eq,
    level2Index_eq,same]

theorem names_iff {physical root va : U64}
    (valid : ValidRange half range.virtualAddress physical range.length) : Names roots range root va ↔
      root = roots.half half ∧ key range.virtualAddress + 0 ≤ key va ∧
        key va < key range.virtualAddress + 0 + pageTurns range.length := by
  rw [Names]
  simp only [NamesAt,rootOf_half valid.start]
  constructor
  · rintro ⟨turn,rfl,inside,same⟩
    rw [valid.page_key inside] at same
    exact ⟨rfl,by omega,by omega⟩
  rintro ⟨rfl,after,before⟩
  have inside : key va - key range.virtualAddress < pageTurns range.length := by omega
  refine ⟨_,rfl,inside,?_⟩
  rw [valid.page_key inside]
  omega

namespace Valid

variable {context : Nat} {roots : UatRoots} {range : UatRange} {inventory : UatInventory} {half : UatHalf}
  (valid : Valid context roots range inventory half)
include valid

theorem range_valid : ValidRange half range.virtualAddress range.physicalAddress range.length :=
  (validateRange_spec valid.validated).2
private theorem rootOf_eq : rootOf roots range.virtualAddress = roots.half half := rootOf_half valid.range_valid.start roots

theorem findPage (tree : Tree inventory.pages) : ∃ root page, UatModel.findPage inventory.pages (roots.half half) 0 = some root ∧
    inventory.pages[root]? = some page ∧ page.physicalAddress = roots.half half ∧ page.level = 0 := by
  have first := valid.mapped 0 (ValidRange.turns_pos valid.range_valid)
  obtain ⟨root,page,found,here,address,isRoot⟩ := (isRoot_of_leaf tree first).findPage
  exact ⟨root,page,found,here,address,isRoot⟩

theorem unmapping (held : Held inventory) (owner : checkOwnerArguments inventory = true) :
    ∃ mappingIndex root mapping, Unmapping context roots range.virtualAddress range.length inventory mappingIndex root mapping half := by
  obtain ⟨mapping,mem,exact⟩ := valid.recorded
  obtain ⟨sameContext,sameStart,samePhysical,sameLength,sameProtection⟩ := exactMapping_iff.mp exact
  obtain ⟨root,page,found,here,address,isRoot⟩ := valid.findPage held.kept.linked.tree
  obtain ⟨j,there⟩ := List.getElem?_of_mem mem
  have search : ∃ i, inventory.mappings.findIdx? (fun candidate => candidate.context == context &&
      candidate.virtualAddress == range.virtualAddress && candidate.length == range.length) = some i := by
    rw [← Option.isSome_iff_exists,List.findIdx?_isSome,List.any_eq_true]
    exact ⟨mapping,mem,by simp [sameContext,sameStart,sameLength]⟩
  obtain ⟨i,search⟩ := search
  obtain ⟨inside,isRange,_⟩ := List.findIdx?_eq_some_iff_getElem.mp search
  simp only [Bool.and_eq_true,beq_iff_eq] at isRange
  obtain ⟨⟨sameContext',sameStart'⟩,sameLength'⟩ := isRange
  have same : i = j := held.ranged.unique (List.getElem?_eq_getElem inside) there (sameContext'.trans sameContext.symm)
    (sameStart'.trans sameStart.symm) (sameLength'.trans sameLength.symm)
  subst same
  refine ⟨i,root,mapping,owner,search,there,?_,found,?_⟩
  · rw [samePhysical,sameProtection]
    exact valid.validated
  rw [leavesMapped_iff held.kept.linked.tree here isRoot,address]
  exact valid.mapped

end Valid

/-- The entries of the range are gone, and no other one. -/
structure Cleared (roots : UatRoots) (range : UatRange) (inventory left : UatInventory) : Prop where
  named : ∀ root va, Names roots range root va → leafValue left.pages root va = 0
  others : ∀ root va, ¬ Names roots range root va → leafValue left.pages root va = leafValue inventory.pages root va

section Unmapping

variable {context mappingIndex root : Nat} {roots : UatRoots} {range : UatRange} {inventory : UatInventory}
  {mapping : UatMapping} {half : UatHalf}
  (unmapping : Unmapping context roots range.virtualAddress range.length inventory mappingIndex root mapping half)
include unmapping

theorem Unmapping.cleared (kept : Kept inventory) :
    Cleared roots range inventory (unmappedTo range.virtualAddress range.length mappingIndex root inventory) := by
  obtain ⟨_,valid⟩ := validateRange_spec unmapping.validated
  obtain ⟨page,there,address,isRoot⟩ := findPage_some unmapping.found
  have tree := kept.linked.tree
  have leaves := (leavesMapped_iff tree there isRoot _ _).mp unmapping.mapped
  have written := writeLeaves_spec valid (fun _ => 0) (pageTurns range.length) 0 tree there isRoot (Nat.le_of_eq (Nat.zero_add _))
    (fun t _ before => leafTable_ne_zero tree (leaves t (by omega)))
  have pruned := pruneEmptyTables_spec written.tree
  rw [address] at written
  refine ⟨fun root' va names => ?_,fun root' va other => ?_⟩
  · rw [unmappedTo,pruned.leaf,written.leaf,if_pos ((names_iff valid).mp names)]
  rw [unmappedTo,pruned.leaf,written.leaf,if_neg (fun names => other ((names_iff valid).mpr names))]

theorem Unmapping.named (kept : Kept inventory) {root' va : U64} (names : Names roots range root' va) :
    leafValue inventory.pages root' va ≠ 0 := by
  obtain ⟨_,valid⟩ := validateRange_spec unmapping.validated
  obtain ⟨page,there,address,isRoot⟩ := findPage_some unmapping.found
  have leaves := (leavesMapped_iff kept.linked.tree there isRoot _ _).mp unmapping.mapped
  obtain ⟨turn,named,inside,same⟩ := names
  rw [← named,rootOf_half valid.start,← leafValue_key _ _ same,← address]
  exact leaves turn inside

theorem Unmapping.other (held : Held inventory) {other : UatRange} {half' : UatHalf} (valid' : Valid context roots other inventory half')
    (separate : ¬ Shares roots range other) :
    Valid context roots other (unmappedTo range.virtualAddress range.length mappingIndex root inventory) half' := by
  obtain ⟨_,valid⟩ := validateRange_spec unmapping.validated
  have cleared := Unmapping.cleared unmapping held.kept
  refine ⟨valid'.validated,?_,fun turn inside => ?_⟩
  · obtain ⟨record,mem,exact⟩ := valid'.recorded
    obtain ⟨j,there⟩ := List.getElem?_of_mem mem
    refine ⟨record,List.mem_eraseIdx_iff_getElem?.mpr ⟨j,?_,there⟩,exact⟩
    rintro rfl
    -- a record of both ranges would give them one leaf
    obtain ⟨inside,isRange,_⟩ := List.findIdx?_eq_some_iff_getElem.mp unmapping.search
    rw [Option.some.inj ((List.getElem?_eq_getElem inside).symm.trans there)] at isRange
    simp only [Bool.and_eq_true,beq_iff_eq] at isRange
    obtain ⟨_,start,_,length,_⟩ := exactMapping_iff.mp exact
    have positive := ValidRange.turns_pos valid
    refine separate ⟨_,_,⟨0,rfl,positive,rfl⟩,⟨0,?_,?_,?_⟩⟩
    · rw [← start,isRange.1.2]
    · rw [← length,isRange.2]
      exact positive
    rw [← start,isRange.1.2]
  rw [cleared.others]
  · exact valid'.mapped turn inside
  exact fun names => separate ⟨_,_,names,⟨turn,valid'.rootOf_eq,inside,rfl⟩⟩

end Unmapping

/-- No two of the ranges have a common leaf. -/
def Separate (roots : UatRoots) (ranges : List UatRange) : Prop :=
  ranges.Pairwise (fun first second => ¬ Shares roots first second)

/-- What an unmap of ranges is for: their addresses have no entry, and all others keep theirs. -/
structure UnmapsAll (roots : UatRoots) (ranges : List UatRange) (inventory left : UatInventory) : Prop where
  named : ∀ range ∈ ranges, ∀ root va, Names roots range root va → walk left root va = 0
  others : ∀ root va, (∀ range ∈ ranges, ¬ Names roots range root va) → walk left root va = walk inventory root va

variable {context : Nat} {roots : UatRoots}

/-- Ranges without common leaves are unmapped one after the other. -/
theorem unmapRanges_all : ∀ {ranges : List UatRange} {inventory : UatInventory},
    Held inventory → checkOwnerArguments inventory = true →
    (∀ range ∈ ranges, ∃ half, Valid context roots range inventory half) → Separate roots ranges →
    (unmapRanges context roots ranges inventory).1 = .Ok ∧
      UnmapsAll roots ranges inventory (unmapRanges context roots ranges inventory).2 := by
  intro ranges
  induction ranges with
  | nil => exact fun _ _ _ _ => ⟨rfl,fun _ bad => absurd bad List.not_mem_nil,fun _ _ _ => rfl⟩
  | cons range rest ih =>
  intro inventory held owner valid separate
  obtain ⟨apart,separate'⟩ := List.pairwise_cons.mp separate
  obtain ⟨half,here⟩ := valid range List.mem_cons_self
  obtain ⟨mappingIndex,root,mapping,unmapping⟩ := here.unmapping held owner
  have cleared := Unmapping.cleared unmapping held.kept
  have held' := unmap_held held context roots range.virtualAddress range.length
  have owner' : checkOwnerArguments (unmappedTo range.virtualAddress range.length mappingIndex root inventory) = true := by
    have traced := unmap_traced context roots range.virtualAddress range.length inTurn inventory
    rw [unmapping.unmap_eq] at traced
    simp only [checkOwnerArguments,Bool.and_eq_true,decide_eq_true_eq] at owner ⊢
    refine ⟨traced.bounded owner.1,?_⟩
    exact (List.length_eraseIdx_le _ _).trans owner.2
  rw [unmapping.unmap_eq] at held'
  obtain ⟨isOk,all⟩ := ih held' owner' (fun other later => by
    obtain ⟨half',valid'⟩ := valid other (List.mem_cons_of_mem _ later)
    exact ⟨half',Unmapping.other unmapping held valid' (apart other later)⟩) separate'
  rw [unmapRanges,unmapping.unmap_eq]
  refine ⟨isOk,fun other mem root' va names => ?_,fun root' va absent => ?_⟩
  · by_cases again : ∃ second ∈ rest, Names roots second root' va
    · obtain ⟨second,later,names'⟩ := again
      exact all.named second later root' va names'
    rcases List.mem_cons.mp mem with rfl | later
    · rw [all.others root' va (fun second later names' => again ⟨second,later,names'⟩),walk_eq held'.kept.linked.tree]
      exact cleared.named root' va names
    exact absurd ⟨other,later,names⟩ again
  rw [all.others root' va (fun second later => absent second (List.mem_cons_of_mem _ later)),
    walk_eq held'.kept.linked.tree,walk_eq held.kept.linked.tree]
  exact cleared.others root' va (absent range List.mem_cons_self)

/-- Ranges that are all unmapped had no common leaf, and an entry for each of their pages. -/
theorem unmapRanges_separate : ∀ {ranges : List UatRange} {inventory : UatInventory},
    Held inventory → (unmapRanges context roots ranges inventory).1 = .Ok → Separate roots ranges ∧
      ∀ range ∈ ranges, ∀ root va, Names roots range root va → leafValue inventory.pages root va ≠ 0 := by
  intro ranges
  induction ranges with
  | nil => exact fun _ _ => ⟨.nil,fun _ bad => absurd bad List.not_mem_nil⟩
  | cons range rest ih =>
  intro inventory held isOk
  rcases unmap_inversion context roots range.virtualAddress range.length inventory with
    ⟨failed,same⟩ | ⟨mappingIndex,root,mapping,half,unmapping⟩
  · unfold unmapRanges at isOk
    split at isOk
    · rename_i left step
      rw [step] at failed
      exact absurd rfl failed
    rename_i result left other step
    exact absurd isOk other
  have held' := unmap_held held context roots range.virtualAddress range.length
  have cleared := Unmapping.cleared unmapping held.kept
  rw [unmapping.unmap_eq] at held'
  rw [unmapRanges,unmapping.unmap_eq] at isOk
  obtain ⟨separate,mapped⟩ := ih held' isOk
  refine ⟨List.pairwise_cons.mpr ⟨fun other later shares => ?_,separate⟩,fun other mem root' va names => ?_⟩
  · obtain ⟨root',va,names,names'⟩ := shares
    exact mapped other later root' va names' (cleared.named root' va names)
  by_cases first : Names roots range root' va
  · exact Unmapping.named unmapping held.kept first
  rcases List.mem_cons.mp mem with rfl | later
  · exact absurd names first
  rw [← cleared.others root' va first]
  exact mapped other later root' va names

theorem unmapRanges_mappings (context : Nat) (roots : UatRoots) : ∀ (ranges : List UatRange) (inventory : UatInventory),
    (unmapRanges context roots ranges inventory).2.mappings.length ≤ inventory.mappings.length := by
  intro ranges
  induction ranges with
  | nil => exact fun _ => Nat.le_refl _
  | cons range rest ih =>
  intro inventory
  have shorter : (unmap context roots range.virtualAddress range.length inventory).2.mappings.length ≤
      inventory.mappings.length := by
    rcases unmap_inversion context roots range.virtualAddress range.length inventory with ⟨_,same⟩ | ⟨i,root,mapping,half,unmapping⟩
    · rw [same]
    rw [unmapping.unmap_eq]
    exact List.length_eraseIdx_le _ _
  unfold unmapRanges
  split
  · rename_i left step
    rw [step] at shorter
    exact (ih left).trans shorter
  rename_i result left _ step
  rw [step] at shorter
  exact shorter

end WindowsOnM1.UatBatches
