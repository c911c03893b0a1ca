import WindowsOnM1.UatRecords

/-!
Every operation on an inventory keeps the agreement of its tables and its records,
whether it succeeds or fails, when its roots belong to address spaces of its context.
-/
namespace WindowsOnM1.UatOperations
open UatModel UatEncoding UatTree UatMap UatPrune
open UatRecords

/-- The tables of the inventory agree with its records, and its pages with the allocator. -/
structure Sound (spaces : List Space) (inventory : UatInventory) : Prop
    extends agrees : Agrees spaces inventory.pages inventory.mappings where
  accounted : Accounted inventory

/-- A root that belongs to an address space belongs to one of the context, as the half that it is used for. -/
def Called (spaces : List Space) (context : Nat) (roots : UatRoots) : Prop :=
  ∀ half, (∃ context' half', Owns spaces context' half' (roots.half half)) → Owns spaces context half (roots.half half)

variable {half : UatHalf} {va : U64}

theorem InHalf.unique {half' : UatHalf} (first : InHalf half va) (second : InHalf half' va) : half = half' := by
  cases half <;> cases half' <;> simp only [InHalf] at first second <;> first | rfl | omega

variable {physical : U64}

theorem ValidRange.turns_pos {length : U64} (valid : ValidRange half va physical length) : 0 < pageTurns length := by
  have turns := valid.turns
  have positive := valid.positive
  have aligned := valid.lengthAligned
  omega

/-- The page of every turn is the first page. -/
theorem ValidRange.page_aligned {length : U64} (valid : ValidRange half va physical length) :
    physical &&& pageMask = 0 ∧ physical < physicalLimit := by
  have first := valid.physical_aligned (ValidRange.turns_pos valid)
  rwa [show pageAddress physical 0 = physical by simp [pageAddress]] at first

variable {pages : List UatPage} {root : U64}

theorem leafTable_ne_zero (tree : Tree pages) (there : leafValue pages root va ≠ 0) : leafTable pages root va ≠ 0 := by
  intro zero
  rw [leafValue,zero] at there
  exact there (tree.entryAt_zero _ _)

theorem leavesMapped_iff (tree : Tree pages) {j : Nat} {root : UatPage}
    (here : pages[j]? = some root) (isRoot : root.level = 0) (va : U64) (turns : Nat) :
    leavesMapped pages j va turns = true ↔
      ∀ turn < turns, leafValue pages root.physicalAddress (pageAddress va turn) ≠ 0 := by
  simp only [leavesMapped,List.all_eq_true,List.mem_range]
  refine forall_congr' (fun turn => forall_congr' (fun _ => ?_))
  have value := findExistingLeaf_value tree here isRoot (pageAddress va turn)
  cases found : findExistingLeaf pages j (pageAddress va turn) with
  | none =>
    rw [found] at value
    simp [← value]
  | some leaf =>
  rw [found] at value
  simp [← value]

variable {spaces : List Space} {mappings : List UatMapping} {context : Nat} {roots : UatRoots}

theorem root_of_call (agrees : Agrees spaces pages mappings) {root : Nat} (called : Called spaces context roots)
    (found : findPage pages (roots.half half) 0 = some root) : Owns spaces context half (roots.half half) ∧
      ∃ page, pages[root]? = some page ∧ page.physicalAddress = roots.half half ∧ page.level = 0 :=
  ⟨called half ((agrees.roots _).mp (isRoot_of_findPage found)),findPage_some found⟩

variable {inventory : UatInventory} {protection : UatProtection}

section
variable (sound : Sound spaces inventory) (called : Called spaces context roots)
include sound called

theorem mapRange_sound {length stride : U64} {physicalAt : Nat → U64} (allocator : UatAllocator)
    (valid : ValidRange half va physical length) (nonzero : ∀ turn < pageTurns length, physicalAt turn ≠ 0)
    (assigns : ∀ root, Assigns ⟨context,va,physical,length,protection,stride,root,physicalAt⟩) :
    Sound spaces (mapRange context roots half va physical length protection stride physicalAt allocator inventory).2 := by
  unfold mapRange
  split
  · exact sound
  split
  · exact sound
  rename_i free
  split
  · exact sound
  rename_i root found
  obtain ⟨owned,page,here,address,isRoot⟩ := root_of_call sound.agrees called found
  have named : addressOf inventory.pages root = page.physicalAddress := by rw [addressOf,here]; rfl
  cases ran : mapLeaves context root va physicalAt protection allocator inventory.pages.length (pageTurns length) 0
    inventory with
  | mk result left =>
    obtain ⟨mappings,accounted,failing,filling⟩ := mapLeaves_spec valid sound.tree here isRoot
      (Nat.le_of_eq (Nat.zero_add _)) sound.accounted (.zero sound.tree _ _ _) ran
    by_cases isOk : result = .Ok
    · subst isOk
      obtain ⟨filled,encodes⟩ := filling rfl
      rw [Nat.zero_add] at filled
      simp only [mappings,named]
      refine ⟨Agrees.insert sound.agrees half ⟨address ▸ owned,valid,fun turn inside => ?_,assigns _⟩
        (fun old mem => ?_) filled,accounted⟩
      · exact ⟨nonzero turn inside,encodes turn (Nat.zero_le _) (by rw [Nat.zero_add]; exact inside)⟩
      simp only [Bool.not_eq_true,List.any_eq_false] at free
      simpa using free old mem
    have agrees : Agrees spaces left.pages left.mappings := by
      rw [failing isOk,mappings]
      exact sound.agrees
    cases result <;> first | exact absurd rfl isOk | exact ⟨agrees,accounted⟩

theorem map_sound (va : U64) (length : U64)
    (protection : UatProtection) (nonzero : physical ≠ 0) (allocator : UatAllocator) :
    Sound spaces (map context roots va physical length protection allocator inventory).2 := by
  unfold map
  split
  · exact sound
  split
  · exact sound
  rename_i half validated
  obtain ⟨_,valid⟩ := validateRange_spec validated
  exact mapRange_sound sound called allocator valid (fun turn inside => valid.physical_ne_zero nonzero inside)
    (fun _ => .inl ⟨rfl,fun _ => rfl⟩)

end

private theorem validatePages_half : ∀ {pages : List U64} {turn : Nat}
    {whole half : UatHalf}, validatePages context va protection turn pages whole = .ok half →
    half = whole ∨ ∃ t, turn ≤ t ∧ t < turn + pages.length ∧ InHalf half (pageAddress va t) := by
  intro pages
  induction pages with
  | nil =>
    intro turn whole half validated
    cases validated
    exact .inl rfl
  | cons page rest ih =>
  intro turn whole half validated
  unfold validatePages at validated
  split at validated
  · cases validated
  rename_i first one
  rcases ih validated with rfl | ⟨t,after,before,inHalf⟩
  · exact .inr ⟨turn,Nat.le_refl _,by simp,(validateRange_spec one).2.start⟩
  exact .inr ⟨t,by omega,by rw [List.length_cons]; omega,inHalf⟩

theorem turns_of_pages {pages : List U64}
    (valid : ValidRange half va physical (BitVec.ofNat 64 (pages.length * 0x4000))) (counted : pages.length < 2 ^ 32) :
    pageTurns (BitVec.ofNat 64 (pages.length * 0x4000)) = pages.length := by
  rw [valid.turns,BitVec.toNat_ofNat]
  omega

theorem half_of_pages {whole : UatHalf} {pages : List U64}
    (valid : ValidRange whole va physical (BitVec.ofNat 64 (pages.length * 0x4000))) (counted : pages.length < 2 ^ 32)
    (validated : validatePages context va protection 0 pages whole = .ok half) : half = whole := by
  rcases validatePages_half validated with same | ⟨t,_,before,inHalf⟩
  · exact same
  exact InHalf.unique inHalf (valid.page_inHalf (by rw [turns_of_pages valid counted]; omega))

theorem mapPageList_sound (sound : Sound spaces inventory)
    (called : Called spaces context roots) {physicalPages : List U64}
    (counted : physicalPages.length < 2 ^ 32) (nonzero : ∀ page ∈ physicalPages, page ≠ 0) (allocator : UatAllocator) :
    Sound spaces (mapPageList context roots va physicalPages protection allocator inventory).2 := by
  unfold mapPageList
  split
  · exact sound
  simp only
  split
  · exact sound
  split
  · exact sound
  rename_i whole validated
  split
  · exact sound
  rename_i half pagesValidated
  obtain ⟨_,valid⟩ := validateRange_spec validated
  have turns := turns_of_pages valid counted
  rw [half_of_pages valid counted pagesValidated]
  refine mapRange_sound sound called allocator valid (fun turn inside => ?_) (fun _ => .inr (.inr ⟨rfl,rfl⟩))
  rw [turns] at inside
  rw [List.getD_eq_getElem?_getD,List.getElem?_eq_getElem inside]
  exact nonzero _ (List.getElem_mem inside)

theorem root_of_range
    (agrees : Agrees spaces pages mappings) {i : Nat} {mapping : UatMapping} (here : mappings[i]? = some mapping)
    (owned : Owns spaces mapping.context half root)
    (valid : ValidRange half mapping.virtualAddress physical mapping.length)
    (mapped : leafValue pages root (pageAddress mapping.virtualAddress 0) ≠ 0) : mapping.root = root := by
  have positive := ValidRange.turns_pos valid
  obtain ⟨other,mem,sameRoot,covers⟩ := agrees.covered _ _ mapped
  obtain ⟨j,there⟩ := List.getElem?_of_mem mem
  obtain ⟨context,recorded⟩ := agrees.record_of_root mem (sameRoot ▸ owned)
  obtain ⟨half',recorded'⟩ := agrees.records mapping (List.mem_of_getElem? here)
  have sameHalf : half' = half := InHalf.unique recorded'.valid.start valid.start
  rw [valid.page_key positive] at covers
  have same : i = j := by
    refine eq_of_not_apart agrees.apart here there (fun apart => ?_)
    exact apart.covers context.symm (sameHalf ▸ recorded'.valid) recorded.valid ⟨by omega,by omega⟩ covers
  subst same
  rw [here] at there
  cases there
  exact sameRoot

theorem prune_accounted (accounted : Accounted inventory) {cleared : List UatPage}
    (shape : SameShape inventory.pages cleared) : Accounted { inventory with
      pages := pruneEmptyTables cleared, mappings := mappings
      returned := inventory.returned ++ pruneReturns cleared } := by
  refine List.perm_iff_count.mpr (fun address => ?_)
  have counts := accounted.count_eq address
  have pruned := (pruneReturns_perm cleared).count_eq address
  have same := congrArg (fun list => list.count address) shape.addresses
  simp only [addresses,List.count_append] at counts pruned same ⊢
  omega

theorem validateRange_error {va physical length : U64} {protection : UatProtection} :
    validateRange context va physical length protection ≠ .error .Ok := by
  unfold validateRange protectionBits
  split
  · simp
  split
  · rename_i result failed
    split at failed
    · cases failed; simp
    split at failed
    · cases failed; simp
    split at failed
    · cases failed; simp
    cases failed
  split_ifs <;> simp

/-- An unmap that finds its record and its leaves. -/
structure Unmapping (context : Nat) (roots : UatRoots) (va length : U64) (inventory : UatInventory) (mappingIndex root : Nat)
    (mapping : UatMapping) (half : UatHalf) : Prop where
  owner : checkOwnerArguments inventory = true
  search : inventory.mappings.findIdx? (fun candidate => candidate.context == context &&
    candidate.virtualAddress == va && candidate.length == length) = some mappingIndex
  here : inventory.mappings[mappingIndex]? = some mapping
  validated : validateRange context va mapping.physicalAddress length mapping.protection = .ok half
  found : findPage inventory.pages (roots.half half) 0 = some root
  mapped : leavesMapped inventory.pages root va (pageTurns length) = true

def unmappedTo (va length : U64) (mappingIndex root : Nat) (inventory : UatInventory) : UatInventory :=
  let cleared := writeLeaves root va (fun _ => 0) (pageTurns length) 0 inventory.pages
  { inventory with
    pages := pruneEmptyTables cleared
    mappings := inventory.mappings.eraseIdx mappingIndex
    returned := inventory.returned ++ pruneReturns cleared }

theorem Unmapping.unmap_eq {mappingIndex root : Nat} {length : U64} {mapping : UatMapping}
    (unmapping : Unmapping context roots va length inventory mappingIndex root mapping half) :
    unmap context roots va length inventory = (.Ok,unmappedTo va length mappingIndex root inventory) := by
  unfold unmap
  rw [if_neg (not_not.mpr unmapping.owner),unmapping.search]
  dsimp only
  rw [unmapping.here]
  dsimp only
  rw [unmapping.validated]
  dsimp only
  rw [unmapping.found]
  dsimp only
  rw [if_neg (not_not.mpr unmapping.mapped)]
  rfl

theorem unmap_inversion (context : Nat) (roots : UatRoots) (va length : U64) (inventory : UatInventory) :
    ((unmap context roots va length inventory).1 ≠ .Ok ∧ (unmap context roots va length inventory).2 = inventory) ∨
      ∃ mappingIndex root mapping half, Unmapping context roots va length inventory mappingIndex root mapping half := by
  unfold unmap
  split
  · exact .inl ⟨by simp,rfl⟩
  rename_i owner
  split
  · exact .inl ⟨by simp,rfl⟩
  rename_i mappingIndex search
  split
  · exact .inl ⟨by simp,rfl⟩
  rename_i mapping here
  split
  · rename_i failed
    exact .inl ⟨fun isOk => validateRange_error (failed.trans (congrArg Except.error isOk)),rfl⟩
  rename_i half validated
  split
  · exact .inl ⟨by simp,rfl⟩
  rename_i root found
  split
  · exact .inl ⟨by simp,rfl⟩
  rename_i mapped
  exact .inr ⟨mappingIndex,root,mapping,half,not_not.mp owner,search,here,validated,found,not_not.mp mapped⟩

theorem unmap_sound (sound : Sound spaces inventory) (called : Called spaces context roots) (va length : U64) :
    Sound spaces (unmap context roots va length inventory).2 := by
  rcases unmap_inversion context roots va length inventory with ⟨_,same⟩ | ⟨i,root,mapping,half,unmapping⟩
  · exact same.symm ▸ sound
  obtain ⟨inside,isMapping,_⟩ := List.findIdx?_eq_some_iff_getElem.mp unmapping.search
  have place : inventory.mappings[i] = mapping :=
    Option.some.inj ((List.getElem?_eq_getElem inside).symm.trans unmapping.here)
  rw [place] at isMapping
  simp only [Bool.and_eq_true,beq_iff_eq] at isMapping
  obtain ⟨⟨rfl,rfl⟩,rfl⟩ := isMapping
  obtain ⟨_,valid⟩ := validateRange_spec unmapping.validated
  obtain ⟨owned,page,there,address,isRoot⟩ := root_of_call sound.agrees called unmapping.found
  have leaves := (leavesMapped_iff sound.tree there isRoot _ _).mp unmapping.mapped
  have sameRoot : mapping.root = page.physicalAddress :=
    root_of_range sound.agrees unmapping.here (address ▸ owned) valid (leaves 0 (ValidRange.turns_pos valid))
  have written := writeLeaves_spec valid (fun _ => 0) (pageTurns mapping.length) 0 sound.tree there isRoot
    (by omega) (fun t _ before => leafTable_ne_zero sound.tree (leaves t (by omega)))
  rw [← sameRoot] at written
  have removed := Agrees.remove sound.agrees unmapping.here written
  rw [unmapping.unmap_eq]
  refine ⟨removed.translation (pruneEmptyTables_spec removed.tree),?_⟩
  exact prune_accounted sound.accounted written.shape

section Batches

variable (keep : UatInventory → Prop) {context : Nat} {roots : UatRoots}
  (unmaps : ∀ va length inventory, keep inventory → keep (unmap context roots va length inventory).2)
include unmaps

private theorem unmapBack_keeps : ∀ {ranges : List UatRange} {inventory : UatInventory}, keep inventory →
    keep (unmapBack context roots ranges inventory) := by
  intro ranges
  induction ranges with
  | nil => exact fun kept => kept
  | cons range earlier ih => exact fun kept => ih (unmaps _ _ _ kept)

variable {allocator : UatAllocator}

theorem mapRanges_keeps : ∀ {ranges done : List UatRange} {inventory : UatInventory},
    (∀ range ∈ ranges, ∀ inventory, keep inventory → keep (map context roots range.virtualAddress range.physicalAddress
      range.length range.protection allocator inventory).2) → keep inventory →
    keep (mapRanges context roots allocator ranges done inventory).2 := by
  intro ranges
  induction ranges with
  | nil => exact fun _ kept => kept
  | cons range rest ih =>
  intro done inventory maps kept
  have mapped := maps range List.mem_cons_self inventory kept
  unfold mapRanges
  split
  · rename_i left step
    rw [step] at mapped
    exact ih (fun other later => maps other (List.mem_cons_of_mem _ later)) mapped
  rename_i result left _ step
  rw [step] at mapped
  exact unmapBack_keeps keep unmaps mapped

variable {ranges : List UatRange} {inventory : UatInventory}

theorem mapBatch_keeps
    (maps : ∀ range ∈ ranges, ∀ inventory, keep inventory → keep (map context roots range.virtualAddress
      range.physicalAddress range.length range.protection allocator inventory).2) (kept : keep inventory) :
    keep (mapBatch context roots ranges allocator inventory).2 := by
  unfold mapBatch
  split_ifs
  · exact kept
  · exact kept
  exact mapRanges_keeps keep unmaps maps kept

private theorem unmapRanges_keeps : ∀ {ranges : List UatRange} {inventory : UatInventory}, keep inventory →
    keep (unmapRanges context roots ranges inventory).2 := by
  intro ranges
  induction ranges with
  | nil => exact fun kept => kept
  | cons range rest ih =>
  intro inventory kept
  have unmapped := unmaps range.virtualAddress range.length inventory kept
  unfold unmapRanges
  split
  · rename_i left step
    rw [step] at unmapped
    exact ih unmapped
  rename_i result left _ step
  rw [step] at unmapped
  exact unmapped

theorem unmapBatch_keeps (kept : keep inventory) : keep (unmapBatch context roots ranges inventory).2 := by
  unfold unmapBatch
  split
  · exact kept
  split
  · exact unmapRanges_keeps keep unmaps kept
  exact kept

end Batches

variable {spaces : List Space} {inventory : UatInventory} {context : Nat} {roots : UatRoots}

section
variable (sound : Sound spaces inventory) (called : Called spaces context roots)
include sound called

theorem mapBatch_sound {ranges : List UatRange}
    (nonzero : ∀ range ∈ ranges, range.physicalAddress ≠ 0) (allocator : UatAllocator) :
    Sound spaces (mapBatch context roots ranges allocator inventory).2 :=
  mapBatch_keeps (Sound spaces) (fun va length _ kept => unmap_sound kept called va length)
    (fun range mem _ kept => map_sound kept called _ _ _ (nonzero range mem) allocator) sound

theorem unmapBatch_sound (ranges : List UatRange) : Sound spaces (unmapBatch context roots ranges inventory).2 :=
  unmapBatch_keeps (Sound spaces) (fun va length _ kept => unmap_sound kept called va length) sound

end

/-- What the validation of a replacement establishes: its range is a record under the
    root that it names, and its new pages have descriptors. -/
structure Ready (context : Nat) (roots : UatRoots) (mappings : List UatMapping) (replacement : UatReplacement) :
    Prop where
  valid : ∃ half, validateRange context replacement.old.virtualAddress replacement.physicalAddress
      replacement.old.length replacement.protection = .ok half ∧
    ∃ mapping ∈ mappings, exactMapping context replacement.old mapping = true ∧ mapping.root = roots.half half
  encoded : ∀ turn < pageTurns replacement.old.length, replacement.physicalAt turn ≠ 0 ∧
    ∃ descriptor, encodePageDescriptor context (replacement.physicalAt turn) replacement.protection = .ok descriptor
  assigns : ∀ mapping : UatMapping, Assigns { mapping with
    physicalAddress := replacement.physicalAddress, protection := replacement.protection
    physicalStride := replacement.stride, assigned := replacement.physicalAt }

variable {range : UatRange}

theorem exactMapping_iff {mapping : UatMapping} :
    exactMapping context range mapping = true ↔ mapping.context = context ∧
      mapping.virtualAddress = range.virtualAddress ∧ mapping.physicalAddress = range.physicalAddress ∧
      mapping.length = range.length ∧ mapping.protection = range.protection := by
  simp only [exactMapping,Bool.and_eq_true,beq_iff_eq,and_assoc]

variable {half : UatHalf}

/-- A range that validation accepts is a record under the root that it names. -/
theorem validateExactMapping_spec (sound : Sound spaces inventory) (called : Called spaces context roots)
    (accepted : validateExactMapping context roots range inventory = .Ok) (inHalf : InHalf half range.virtualAddress) :
    ∃ mapping ∈ inventory.mappings, exactMapping context range mapping = true ∧ mapping.root = roots.half half := by
  unfold validateExactMapping at accepted
  split at accepted
  · rename_i result failed
    exact absurd (failed.trans (congrArg Except.error accepted)) validateRange_error
  rename_i half' validated
  obtain ⟨_,valid⟩ := validateRange_spec validated
  have sameHalf := InHalf.unique valid.start inHalf
  subst sameHalf
  split at accepted
  · cases accepted
  rename_i any
  split at accepted
  · cases accepted
  rename_i root found
  split at accepted
  · rename_i mapped
    obtain ⟨owned,page,there,address,isRoot⟩ := root_of_call sound.agrees called found
    obtain ⟨mapping,mem,exact⟩ := List.any_eq_true.mp (not_not.mp any)
    obtain ⟨sameContext,sameStart,_,sameLength,_⟩ := exactMapping_iff.mp exact
    obtain ⟨i,here⟩ := List.getElem?_of_mem mem
    have leaves := (leavesMapped_iff sound.tree there isRoot _ _).mp mapped
    have inMapping : ValidRange half' mapping.virtualAddress range.physicalAddress mapping.length := by
      rw [sameStart,sameLength]
      exact valid
    refine ⟨mapping,mem,exact,root_of_range sound.agrees here (sameContext ▸ owned) inMapping ?_⟩
    · rw [sameStart,← address]
      exact leaves 0 (ValidRange.turns_pos valid)
  cases accepted

private theorem descriptorOf_replacement (replacement : UatReplacement) (mapping : UatMapping) : descriptorOf { mapping with
      physicalAddress := replacement.physicalAddress, protection := replacement.protection
      physicalStride := replacement.stride, assigned := replacement.physicalAt } =
        replacementDescriptor mapping.context replacement := by
  funext turn
  cases encoded : encodePageDescriptor mapping.context (replacement.physicalAt turn) replacement.protection <;>
    simp only [descriptorOf,replacementDescriptor,descriptorAt,encoded]

variable {replacement : UatReplacement}

private theorem replaceOne_sound (sound : Sound spaces inventory) (ready : Ready context roots inventory.mappings replacement)
    (validated : validateRange context replacement.old.virtualAddress replacement.physicalAddress
      replacement.old.length replacement.protection = .ok half) {i root : Nat}
    (search : inventory.mappings.findIdx? (exactMapping context replacement.old) = some i)
    (found : findPage inventory.pages (roots.half half) 0 = some root) : Sound spaces { inventory with
      pages := writeLeaves root replacement.old.virtualAddress (replacementDescriptor context replacement)
        (pageTurns replacement.old.length) 0 inventory.pages
      mappings := inventory.mappings.modify i (fun mapping => { mapping with
        physicalAddress := replacement.physicalAddress, protection := replacement.protection
        physicalStride := replacement.stride, assigned := replacement.physicalAt }) } := by
  obtain ⟨inside,isExact,_⟩ := List.findIdx?_eq_some_iff_getElem.mp search
  obtain ⟨sameContext,sameStart,_,sameLength,_⟩ := exactMapping_iff.mp isExact
  have here := List.getElem?_eq_getElem inside
  obtain ⟨_,valid⟩ := validateRange_spec validated
  obtain ⟨half',validated',mapping,mem,exact,isRootOf⟩ := ready.valid
  rw [validated] at validated'
  cases validated'
  -- the record found is the one that was validated
  have isRecord : inventory.mappings[i].root = roots.half half := by
    obtain ⟨context',start',_,length',_⟩ := exactMapping_iff.mp exact
    obtain ⟨j,there⟩ := List.getElem?_of_mem mem
    obtain ⟨half',recorded⟩ := sound.records mapping mem
    have same : i = j := by
      refine eq_of_not_apart sound.apart here there (fun apart => ?_)
      have bytes := recorded.valid.positive
      have disjoint := apart (sameContext.trans context'.symm)
      rw [sameStart,sameLength,← start',← length'] at disjoint
      omega
    subst same
    rw [Option.some.inj (here.symm.trans there)]
    exact isRootOf
  obtain ⟨page,there,address,isRoot⟩ := findPage_some found
  have sameRoot : inventory.mappings[i].root = page.physicalAddress := isRecord.trans address.symm
  have owned : Owns spaces context half inventory.mappings[i].root := by
    obtain ⟨half',recorded⟩ := sound.records _ (List.mem_of_getElem? here)
    have sameHalf : half' = half := by
      refine InHalf.unique recorded.valid.start ?_
      rw [sameStart]
      exact valid.start
    rw [← sameContext,← sameHalf]
    exact recorded.owned
  have leaves : ∀ t, 0 ≤ t → t < 0 + pageTurns replacement.old.length →
      leafTable inventory.pages page.physicalAddress (pageAddress replacement.old.virtualAddress t) ≠ 0 := by
    intro t _ before
    rw [← sameRoot]
    refine leafTable_ne_zero sound.tree (sound.leaf_ne_zero (List.mem_of_getElem? here) ?_)
    rw [Covers,sameStart,sameLength,valid.page_key (by omega)]
    omega
  have written := writeLeaves_spec valid (replacementDescriptor context replacement) _ 0 sound.tree there isRoot
    (Nat.le_of_eq (Nat.zero_add _)) leaves
  refine ⟨?_,(sound.accounted.reshape written.shape :)⟩
  rw [List.modify_eq_set_getElem?,here]
  refine Agrees.replace sound.agrees here half ⟨?_,?_,?_,ready.assigns _⟩ rfl rfl rfl rfl ?_
  · rw [sameContext]
    exact owned
  · simp only [sameStart,sameLength]
    exact valid
  · simp only [sameContext,sameLength]
    exact ready.encoded
  rw [descriptorOf_replacement,sameRoot,sameStart,sameLength,sameContext]
  exact written

theorem Ready.other {mappings : List UatMapping} {other : UatReplacement} (ready : Ready context roots mappings other)
    (different : ¬ (other.old.virtualAddress = replacement.old.virtualAddress ∧ other.old.length = replacement.old.length))
    {i : Nat} (search : mappings.findIdx? (exactMapping context replacement.old) = some i) (f : UatMapping → UatMapping) :
    Ready context roots (mappings.modify i f) other := by
  obtain ⟨half,validated,mapping,mem,exact,isRoot⟩ := ready.valid
  obtain ⟨j,there⟩ := List.getElem?_of_mem mem
  refine ⟨⟨half,validated,mapping,List.mem_of_getElem? (i := j) ?_,exact,isRoot⟩,ready.encoded,ready.assigns⟩
  have apart : i ≠ j := by
    rintro rfl
    obtain ⟨inside,isExact,_⟩ := List.findIdx?_eq_some_iff_getElem.mp search
    rw [Option.some.inj ((List.getElem?_eq_getElem inside).symm.trans there)] at isExact
    obtain ⟨_,start,_,length,_⟩ := exactMapping_iff.mp isExact
    obtain ⟨_,start',_,length',_⟩ := exactMapping_iff.mp exact
    exact different ⟨start'.symm.trans start,length'.symm.trans length⟩
  rw [List.getElem?_modify,there]
  simp [apart]

theorem replaceRanges_sound :
    ∀ {replacements : List UatReplacement} {inventory : UatInventory}, Sound spaces inventory →
    (∀ replacement ∈ replacements, Ready context roots inventory.mappings replacement) →
    replacements.Pairwise (fun first second =>
      ¬ (second.old.virtualAddress = first.old.virtualAddress ∧ second.old.length = first.old.length)) →
    Sound spaces (replaceRanges context roots replacements inventory).2 := by
  intro replacements
  induction replacements with
  | nil => exact fun sound _ _ => sound
  | cons replacement rest ih =>
  intro inventory sound ready different
  obtain ⟨first,others⟩ := List.pairwise_cons.mp different
  obtain ⟨half,validated,_⟩ := (ready replacement List.mem_cons_self).valid
  unfold replaceRanges
  simp only [validated]
  split
  · rename_i i root search found
    refine ih (replaceOne_sound sound (ready replacement List.mem_cons_self) validated search found)
      (fun other later => ?_) others
    exact (ready other (List.mem_cons_of_mem _ later)).other (first other later) search _
  exact sound

variable {earlier : List UatRange}

theorem repeated_iff : repeated range earlier = true ↔
    ∃ other ∈ earlier, other.virtualAddress = range.virtualAddress ∧ other.length = range.length := by
  simp only [repeated,List.any_eq_true,Bool.and_eq_true,beq_iff_eq]

/-- What both validation loops of a replacement establish about the replacements that they accept. -/
structure Accepted (context : Nat) (roots : UatRoots) (inventory : UatInventory) (earlier : List UatRange)
    (replacements : List UatReplacement) : Prop where
  valid : ∀ replacement ∈ replacements, validateExactMapping context roots replacement.old inventory = .Ok ∧
    ∃ half, validateRange context replacement.old.virtualAddress replacement.physicalAddress
      replacement.old.length replacement.protection = .ok half
  new : ∀ replacement ∈ replacements, repeated replacement.old earlier = false
  different : replacements.Pairwise (fun first second =>
    ¬ (second.old.virtualAddress = first.old.virtualAddress ∧ second.old.length = first.old.length))

theorem Accepted.cons {rest : List UatReplacement}
    (exact : validateExactMapping context roots replacement.old inventory = .Ok)
    (validated : validateRange context replacement.old.virtualAddress replacement.physicalAddress
      replacement.old.length replacement.protection = .ok half) (new : ¬ repeated replacement.old earlier = true)
    (accepted : Accepted context roots inventory (replacement.old :: earlier) rest) :
    Accepted context roots inventory earlier (replacement :: rest) := by
  refine ⟨fun other mem => ?_,fun other mem => ?_,List.pairwise_cons.mpr ⟨fun other later same => ?_,accepted.different⟩⟩
  · rcases List.mem_cons.mp mem with rfl | later
    · exact ⟨exact,half,validated⟩
    exact accepted.valid other later
  · rcases List.mem_cons.mp mem with rfl | later
    · simpa using new
    have fresh := accepted.new other later
    rw [← Bool.not_eq_true,repeated_iff] at fresh ⊢
    rintro ⟨range,found,same⟩
    exact fresh ⟨range,List.mem_cons_of_mem _ found,same⟩
  have fresh := accepted.new other later
  rw [← Bool.not_eq_true,repeated_iff] at fresh
  exact fresh ⟨replacement.old,List.mem_cons_self,same.1.symm,same.2.symm⟩

theorem Accepted.ready {replacements : List UatReplacement} (sound : Sound spaces inventory)
    (called : Called spaces context roots) (accepted : Accepted context roots inventory earlier replacements)
    (mem : replacement ∈ replacements)
    (pages : ∀ {half}, ValidRange half replacement.old.virtualAddress replacement.physicalAddress replacement.old.length →
      ∀ turn < pageTurns replacement.old.length, replacement.physicalAt turn ≠ 0 ∧
        replacement.physicalAt turn &&& pageMask = 0 ∧ replacement.physicalAt turn < physicalLimit)
    (assigns : ∀ mapping : UatMapping, Assigns { mapping with
      physicalAddress := replacement.physicalAddress, protection := replacement.protection
      physicalStride := replacement.stride, assigned := replacement.physicalAt }) :
    Ready context roots inventory.mappings replacement := by
  obtain ⟨exact,half,validated⟩ := accepted.valid replacement mem
  obtain ⟨⟨bits,allowed⟩,valid⟩ := validateRange_spec validated
  refine ⟨⟨half,validated,validateExactMapping_spec sound called exact valid.start⟩,fun turn inside => ?_,assigns⟩
  obtain ⟨nonzero,aligned,small⟩ := pages valid turn inside
  exact ⟨nonzero,_,encodePageDescriptor_ok allowed aligned small⟩

theorem validateReplacements_accepted : ∀ {replacements : List UatReplacement} {earlier : List UatRange},
    validateReplacements context roots inventory replacements earlier = .Ok →
    Accepted context roots inventory earlier replacements := by
  intro replacements
  induction replacements with
  | nil => exact fun _ => ⟨by simp,by simp,.nil⟩
  | cons replacement rest ih =>
  intro earlier accepted
  unfold validateReplacements at accepted
  split at accepted
  · rename_i exact
    split at accepted
    · rename_i result failed
      exact absurd (failed.trans (congrArg Except.error accepted)) validateRange_error
    rename_i half validated
    split at accepted
    · cases accepted
    rename_i new
    exact .cons exact validated new (ih accepted)
  rename_i failed
  exact absurd accepted failed

theorem validatePairs_accepted
    (physicalAt : UatRange → Nat → U64) : ∀ {pairs : List (UatRange × UatRange)} {earlier : List UatRange},
    validatePairs context roots inventory pairs earlier = .Ok →
    Accepted context roots inventory earlier (pairs.map (fun pair =>
      ⟨pair.1,physicalAt pair.2,pair.2.physicalAddress,pair.2.protection,pageSize⟩)) := by
  intro pairs
  induction pairs with
  | nil => exact fun _ => ⟨by simp,by simp,.nil⟩
  | cons pair rest ih =>
  intro earlier accepted
  unfold validatePairs at accepted
  split at accepted
  · cases accepted
  rename_i sameRange
  obtain ⟨start,length⟩ := not_or.mp sameRange
  split at accepted
  · rename_i exact
    split at accepted
    · rename_i result failed
      exact absurd (failed.trans (congrArg Except.error accepted)) validateRange_error
    rename_i half validated
    split at accepted
    · cases accepted
    rename_i fresh
    rw [← not_not.mp start,← not_not.mp length] at validated
    exact .cons exact validated fresh (ih accepted)
  rename_i failed
  exact absurd accepted failed

section
variable (sound : Sound spaces inventory) (called : Called spaces context roots)
include sound called

theorem replaceBatchWithPage_sound (ranges : List UatRange) {page : U64}
    (nonzero : page ≠ 0) (protection : UatProtection) :
    Sound spaces (replaceBatchWithPage context roots ranges page protection inventory).2 := by
  unfold replaceBatchWithPage
  dsimp only
  split
  · exact sound
  split
  · exact sound
  split
  · rename_i valid
    have accepted := validateReplacements_accepted valid
    refine replaceRanges_sound sound (fun replacement mem => ?_) accepted.different
    obtain ⟨range,_,rfl⟩ := List.mem_map.mp mem
    refine accepted.ready sound called mem (fun validRange _ _ => ⟨nonzero,ValidRange.page_aligned validRange⟩)
      (fun _ => .inr (.inl ⟨rfl,fun _ => rfl⟩))
  exact sound

theorem replaceBatch_sound {pairs : List (UatRange × UatRange)} (nonzero : ∀ pair ∈ pairs, pair.2.physicalAddress ≠ 0) :
    Sound spaces (replaceBatch context roots pairs inventory).2 := by
  unfold replaceBatch
  split
  · exact sound
  split
  · rename_i valid
    have accepted := validatePairs_accepted (fun range => pageAddress range.physicalAddress) valid
    refine replaceRanges_sound sound (fun replacement mem => ?_) accepted.different
    obtain ⟨pair,found,rfl⟩ := List.mem_map.mp mem
    refine accepted.ready sound called mem (fun validRange turn inside => ⟨?_,validRange.physical_aligned inside⟩)
      (fun _ => .inl ⟨rfl,fun _ => rfl⟩)
    exact validRange.physical_ne_zero (nonzero pair found) inside
  exact sound

end

end WindowsOnM1.UatOperations
