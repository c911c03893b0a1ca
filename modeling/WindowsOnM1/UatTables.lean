import WindowsOnM1.DrainLoop
import WindowsOnM1.UatTranslation

/-!
The tables of an inventory over whole runs, with any roots. Every table is named by one
entry of a page of the level above and holds an entry itself; a pruning takes away exactly
the tables that were emptied and returns them to the allocator.
-/
namespace WindowsOnM1.UatTables
open UatModel UatEncoding UatTree UatMap UatPrune
open UatOperations UatTranslation DrainLoop

/-- A page with an address and a level. -/
def IsPage (pages : List UatPage) (address : U64) (level : Nat) : Prop :=
  ∃ page ∈ pages, page.physicalAddress = address ∧ page.level = level

/-- A page whose entries are all zero. -/
def Idle (pages : List UatPage) (address : U64) (level : Nat) : Prop :=
  ∀ index < 2048, entryAt pages address level index = 0

/-- Every table is named by an entry of a page above it. -/
structure Hung (pages : List UatPage) : Prop where
  tree : Tree pages
  ends : ∀ address index, entryCount 0 ≤ index → index < 2048 → entryAt pages address 0 index = 0
  named : ∀ address level, IsPage pages address (level + 1) →
    ∃ parent, ∃ index < entryCount level, entryAt pages parent level index &&& addressMask = address

/-- Every table but a spare one also holds an entry; no page has the address 0. -/
structure Linked (pages : List UatPage) (spare : U64) : Prop extends hung : Hung pages where
  busy : ∀ address level, IsPage pages address (level + 1) → address ≠ spare → ¬ Idle pages address (level + 1)

variable {pages : List UatPage} {address : U64} {level : Nat}

theorem isPage_of_shape {pages' : List UatPage} (shape : SameShape pages pages') :
    IsPage pages' address level ↔ IsPage pages address level := by
  constructor
  · rintro ⟨page,mem,isAddress,isLevel⟩
    obtain ⟨page',found,same,sameLevel⟩ := shape.symm.exists mem
    exact ⟨page',found,same.trans isAddress,sameLevel.trans isLevel⟩
  rintro ⟨page,mem,isAddress,isLevel⟩
  obtain ⟨page',found,same,sameLevel⟩ := shape.exists mem
  exact ⟨page',found,same.trans isAddress,sameLevel.trans isLevel⟩

theorem IsPage.address_ne_zero (tree : Tree pages) (isPage : IsPage pages address level) : address ≠ 0 := by
  obtain ⟨page,mem,rfl,_⟩ := isPage
  exact (tree.real page mem).1
theorem Linked.spare (linked : Linked pages 0) (spare : U64) : Linked pages spare :=
  ⟨linked.hung,fun address level isPage _ => linked.busy address level isPage (isPage.address_ne_zero linked.tree)⟩

theorem Linked.used {spare : U64} (linked : Linked pages spare)
    (used : ∀ level, IsPage pages spare (level + 1) → ¬ Idle pages spare (level + 1)) : Linked pages 0 := by
  refine ⟨linked.hung,fun address level isPage _ => ?_⟩
  by_cases here : address = spare
  · exact here ▸ used level (here ▸ isPage)
  exact linked.busy address level isPage here

theorem Hung.leaves {pages' : List UatPage} (hung : Hung pages) (tree : Tree pages') (shape : SameShape pages pages')
    (same : ∀ address level index, level ≠ 2 → entryAt pages' address level index = entryAt pages address level index) :
    Hung pages' := by
  refine ⟨tree,fun address index after before => ?_,fun address level isPage => ?_⟩
  · rw [same _ _ _ (by decide)]
    exact hung.ends address index after before
  obtain ⟨page,mem,_,isLevel⟩ := isPage
  have below := tree.levels page mem
  obtain ⟨parent,index,inside,names⟩ := hung.named address level ((isPage_of_shape shape).mp ⟨page,mem,‹_›,isLevel⟩)
  exact ⟨parent,index,inside,by rw [same _ _ _ (by omega)]; exact names⟩

variable {root va : U64} {value : Nat → U64}

theorem written_same {turn turns : Nat} {pages' : List UatPage}
    (written : Written root va value turn turns pages pages') (address : U64) (level index : Nat) (table : level ≠ 2) :
    entryAt pages' address level index = entryAt pages address level index := by
  by_contra changed
  exact table (written.slot address level index changed).1

variable {half : UatHalf}

theorem Linked.written {physical length : U64} (valid : ValidRange half va physical length)
    {turns : Nat} {pages' : List UatPage} (linked : Linked pages 0)
    (written : Written root va value 0 turns pages pages') (fits : turns ≤ pageTurns length)
    (nonzero : ∀ turn < turns, value turn ≠ 0) : Linked pages' 0 := by
  refine ⟨linked.hung.leaves written.tree written.shape (written_same written),fun address level isPage real idle => ?_⟩
  refine linked.busy address level ((isPage_of_shape written.shape).mp isPage) real (fun index inside => ?_)
  by_contra there
  have changed : entryAt pages' address (level + 1) index ≠ entryAt pages address (level + 1) index := by
    rw [idle index inside]
    exact Ne.symm there
  obtain ⟨isLeaf,t,_,before,isTable,isIndex⟩ := written.slot _ _ _ changed
  -- what was written there is the value of a page
  have read := written.leaf root (pageAddress va t)
  have number := valid.page_key (by omega : t < pageTurns length)
  rw [if_pos ⟨rfl,by omega,by omega⟩,show key (pageAddress va t) - key va = t by omega,leafValue,written.table,← isTable,
    ← isIndex,← isLeaf,idle index inside] at read
  exact nonzero t (by omega) read.symm

variable {j index : Nat} {page : UatPage}

theorem Linked.write {value : U64}
    (linked : Linked pages page.physicalAddress) (here : pages[j]? = some page) (leaf : page.level = 2)
    (inside : index < 2048) (nonzero : value ≠ 0) : Linked (writeEntry pages j index value) 0 := by
  have shape := writeEntry_shape pages j index value
  have hung : Hung (writeEntry pages j index value) := by
    refine linked.hung.leaves (linked.tree.writeLeaf here leaf index value) shape (fun address level i table => ?_)
    rw [entryAt_write linked.tree.distinct here,if_neg]
    rintro ⟨_,isLeaf,_⟩
    omega
  refine ⟨hung,fun address level isPage _ idle => ?_⟩
  by_cases atPage : address = page.physicalAddress ∧ level + 1 = page.level
  · have read := idle index inside
    rw [entryAt_write linked.tree.distinct here,if_pos ⟨atPage.1,atPage.2,rfl⟩] at read
    exact nonzero read
  have isOld := (isPage_of_shape shape).mp isPage
  refine linked.busy address level isOld (fun same => ?_) (fun i small => ?_)
  · -- one address has one level
    obtain ⟨old,mem,isAddress,isLevel⟩ := isOld
    rw [linked.tree.distinct.eq_of_address mem (List.mem_of_getElem? here) (isAddress.trans same)] at isLevel
    exact atPage ⟨same,isLevel.symm⟩
  have read := idle i small
  rwa [entryAt_write linked.tree.distinct here,if_neg (fun all => atPage ⟨all.1,all.2.1⟩)] at read

variable {parent : UatPage}

/-- A fresh page of zeros becomes the spare table when an empty entry comes to name it. -/
theorem Linked.addChild (page : UatPage)
    (linked : Linked pages parent.physicalAddress) (fresh : Fresh pages page)
    (here : pages[j]? = some parent) (below : parent.level < 2) (level : page.level = parent.level + 1)
    (inside : index < entryCount parent.level) (empty : entryAt pages parent.physicalAddress parent.level index = 0) :
    Linked (writeEntry (pages ++ [page]) j index (page.physicalAddress ||| 3)) page.physicalAddress := by
  have shape := writeEntry_shape (pages ++ [page]) j index (page.physicalAddress ||| 3)
  obtain ⟨grows,_⟩ := linked.tree.addChild page fresh here below level inside empty
  have distinct : Distinct (pages ++ [page]) := shape.symm.distinct grows.tree.distinct
  have entries := fun address l i small =>
    entryAt_added distinct here fresh.zero index (page.physicalAddress ||| 3) address l i (.inl small)
  have small : index < 2048 := inside.trans_le (entryCount_le _)
  have nonzero : (page.physicalAddress ||| 3 : U64) ≠ 0 := ne_zero_of_descriptor (table_descriptor _)
  have isPage : ∀ address l, IsPage (writeEntry (pages ++ [page]) j index (page.physicalAddress ||| 3)) address l ↔
      IsPage pages address l ∨ (page.physicalAddress = address ∧ page.level = l) := by
    intro address l
    rw [isPage_of_shape shape]
    simp only [IsPage,List.mem_append,List.mem_singleton,or_and_right,exists_or,exists_eq_left]
  refine ⟨⟨grows.tree,fun address i after before => ?_,fun address l isTable => ?_⟩,fun address l isTable apart idle => ?_⟩
  · rw [entries _ _ _ before,if_neg,linked.ends address i after before]
    rintro ⟨_,isRoot,rfl⟩
    rw [← isRoot] at inside
    omega
  · rcases (isPage address (l + 1)).mp isTable with old | ⟨rfl,isLevel⟩
    · obtain ⟨above,i,walk,names⟩ := linked.named address l old
      refine ⟨above,i,walk,?_⟩
      rw [entries _ _ _ (walk.trans_le (entryCount_le l)),if_neg]
      · exact names
      -- an entry that names a table is not the empty one
      rintro ⟨rfl,rfl,rfl⟩
      rw [empty,masked_zero] at names
      exact old.address_ne_zero linked.tree names.symm
    obtain rfl : l = parent.level := by omega
    refine ⟨parent.physicalAddress,index,inside,?_⟩
    rw [entries _ _ _ small,if_pos ⟨rfl,rfl,rfl⟩]
    exact table_masked fresh.real.2
  rcases (isPage address (l + 1)).mp isTable with old | ⟨same,_⟩
  · by_cases atParent : address = parent.physicalAddress ∧ l + 1 = parent.level
    · have read := idle index small
      rw [entries _ _ _ small,if_pos ⟨atParent.1,atParent.2,rfl⟩] at read
      exact nonzero read
    refine linked.busy address l old (fun same => ?_) (fun i bound => ?_)
    · obtain ⟨found,mem,isAddress,isLevel⟩ := old
      rw [linked.tree.distinct.eq_of_address mem (List.mem_of_getElem? here) (isAddress.trans same)] at isLevel
      exact atParent ⟨same,isLevel.symm⟩
    have read := idle i bound
    rwa [entries _ _ _ bound,if_neg (fun all => atParent ⟨all.1,all.2.1⟩)] at read
  exact apart same.symm

variable {allocator : UatAllocator} {inventory : UatInventory}

/-- A child that is found or made: only it may be without an entry. -/
theorem getChild_linked {parent childLevel child : Nat} {inventory' : UatInventory}
    (linked : Linked inventory.pages page.physicalAddress) (accounted : Accounted inventory)
    (here : inventory.pages[parent]? = some page) (level : childLevel = page.level + 1) (below : page.level < 2)
    (inside : index < entryCount page.level)
    (ran : getChild parent index childLevel allocator inventory = (.ok child,inventory')) :
    ∃ found, inventory'.pages[child]? = some found ∧ Linked inventory'.pages found.physicalAddress := by
  have entry := readEntry_eq linked.tree.distinct here index
  unfold getChild at ran
  rw [entry] at ran
  simp only at ran
  split at ran
  · rename_i there
    split at ran
    · cases ran
    split at ran
    · cases ran
    rename_i found lookup
    cases ran
    obtain ⟨table,place,_⟩ := findPage_some lookup
    refine ⟨table,place,(linked.used (fun l isTable idle => ?_)).spare _⟩
    -- the parent holds the entry that names the child
    obtain ⟨same,mem,isAddress,isLevel⟩ := isTable
    rw [linked.tree.distinct.eq_of_address mem (List.mem_of_getElem? here) isAddress] at isLevel
    rw [← isLevel] at idle
    exact there (idle index (inside.trans_le (entryCount_le _)))
  rename_i empty
  split at ran
  · cases ran
  rename_i made grown allocated
  obtain ⟨_,rfl,candidate,keep,fresh,pages,_⟩ := allocateRecordedPage_ok accounted allocated
  obtain ⟨real,_,_,zero⟩ := usable_spec keep
  have place : (grown.pages[inventory.pages.length]?).elim 0 (fun page => page.physicalAddress) =
      candidate.physicalAddress := by
    rw [pages,List.getElem?_concat_length]
    rfl
  rw [place,encodeTableDescriptor_usable keep] at ran
  cases ran
  obtain ⟨_,_,added,there,address,_⟩ := linked.tree.addChild
    { candidate with level := childLevel } ⟨fresh,zero,real⟩ here below level inside (not_not.mp empty)
  have grown' := linked.addChild { candidate with level := childLevel } ⟨fresh,zero,real⟩ here below
    level inside (not_not.mp empty)
  rw [pages]
  exact ⟨added,there,address ▸ grown'⟩

/-- A leaf that is found or made: only its table may be without an entry. -/
private theorem findLeaf_linked {root : Nat} {inventory' : UatInventory}
    {leaf : Nat × Nat} (linked : Linked inventory.pages 0) (accounted : Accounted inventory)
    (here : inventory.pages[root]? = some page) (isRoot : page.level = 0)
    (ran : findLeaf root va allocator inventory = (.ok leaf,inventory')) :
    ∃ found, inventory'.pages[leaf.1]? = some found ∧ Linked inventory'.pages found.physicalAddress := by
  have walk0 : level0Index va < entryCount page.level := by rw [isRoot]; exact level0Index_lt va
  unfold findLeaf at ran
  cases first : getChild root (level0Index va) 1 allocator inventory with
  | mk answer1 inventory1 =>
  obtain ⟨grew1,_,child1⟩ := getChild_spec linked.tree accounted here (by rw [isRoot]) (by omega) walk0 first
  rw [first] at ran
  cases answer1 with
  | error result => cases ran
  | ok level1 =>
  obtain ⟨page1,here1,isLevel1,_⟩ := child1 level1 rfl
  obtain ⟨same,there,linked1⟩ :=
    getChild_linked (linked.spare page.physicalAddress) accounted here (by rw [isRoot]) (by omega) walk0 first
  obtain rfl : same = page1 := Option.some.inj (there.symm.trans here1)
  have walk1 : level1Index va < entryCount same.level := by rw [isLevel1]; exact level1Index_lt va
  simp only at ran
  cases second : getChild level1 (level1Index va) 2 allocator inventory1 with
  | mk answer2 inventory2 =>
  rw [second] at ran
  cases answer2 with
  | error result => cases ran
  | ok level2 =>
  cases ran
  exact getChild_linked linked1 grew1.2.2 here1 (by rw [isLevel1]) (by omega) walk1 second

variable {context : Nat}

theorem mapLeaves_linked {protection : UatProtection} {physicalAt : Nat → U64}
    {root firstPage : Nat} : ∀ {turns turn : Nat} {inventory left : UatInventory} {page : UatPage},
    Linked inventory.pages 0 → Accounted inventory → inventory.pages[root]? = some page → page.level = 0 →
    mapLeaves context root va physicalAt protection allocator firstPage turns turn inventory = (.Ok,left) →
    Linked left.pages 0 := by
  intro turns
  induction turns with
  | zero =>
    intro turn inventory left page linked _ _ _ ran
    cases ran
    exact linked
  | succ turns ih =>
  intro turn inventory left page linked accounted here isRoot ran
  unfold mapLeaves at ran
  cases step : findLeaf root (pageAddress va turn) allocator inventory with
  | mk answer found =>
  obtain ⟨⟨grows,_,accounted'⟩,real,leaf⟩ := findLeaf_spec linked.tree accounted here isRoot step
  rw [step] at ran
  cases answer with
  | error failure =>
    cases ran
    exact absurd rfl real
  | ok place =>
  obtain ⟨isIndex,table,there,isLeaf,_⟩ := leaf place rfl
  obtain ⟨same,there',linked'⟩ := findLeaf_linked linked accounted here isRoot step
  obtain rfl : same = table := Option.some.inj (there'.symm.trans there)
  simp only at ran
  split at ran
  · cases ran
  split at ran
  · rename_i failure failed
    cases ran
    exact absurd failed encodePageDescriptor_error
  rename_i descriptor encoded
  have nonzero := ne_zero_of_descriptor (encodePageDescriptor_spec encoded).2
  have written := linked'.write there isLeaf (isIndex ▸ level2Index_lt _ : place.2 < 2048) nonzero
  have shape := writeEntry_shape found.pages place.1 place.2 descriptor
  obtain ⟨page',here',_,sameLevel⟩ := (grows.shape.trans_take shape.take).getElem here
  exact ih written (accounted'.reshape shape) here' (sameLevel.trans isRoot) ran

/-- What every call keeps, whatever roots it names. -/
structure Kept (inventory : UatInventory) : Prop where
  linked : Linked inventory.pages 0
  accounted : Accounted inventory

theorem mapRange_kept (kept : Kept inventory) (roots : UatRoots)
    {physical length : U64} (protection : UatProtection) (stride : U64) (physicalAt : Nat → U64)
    (allocator : UatAllocator) (valid : ValidRange half va physical length) :
    Kept (mapRange context roots half va physical length protection stride physicalAt allocator inventory).2 := by
  unfold mapRange
  split
  · exact kept
  split
  · exact kept
  split
  · exact kept
  rename_i root found
  obtain ⟨page,here,_,isRoot⟩ := findPage_some found
  cases ran : mapLeaves context root va physicalAt protection allocator inventory.pages.length (pageTurns length) 0
    inventory with
  | mk result left =>
    obtain ⟨_,accounted,failing,_⟩ := mapLeaves_spec valid kept.linked.tree here isRoot
      (Nat.le_of_eq (Nat.zero_add _)) kept.accounted (.zero kept.linked.tree _ _ _) ran
    by_cases isOk : result = .Ok
    · subst isOk
      have linked := mapLeaves_linked kept.linked kept.accounted here isRoot ran
      exact ⟨linked,accounted⟩
    have linked : Linked left.pages 0 := by
      rw [failing isOk]
      exact kept.linked
    cases result <;> first | exact absurd rfl isOk | exact ⟨linked,accounted⟩

theorem map_kept (kept : Kept inventory) (context : Nat) (roots : UatRoots)
    (va physical length : U64) (protection : UatProtection) (allocator : UatAllocator) :
    Kept (map context roots va physical length protection allocator inventory).2 := by
  unfold map
  split
  · exact kept
  split
  · exact kept
  rename_i half validated
  exact mapRange_kept kept roots protection _ _ allocator (validateRange_spec validated).2

theorem mapPageList_kept (kept : Kept inventory) (context : Nat) (roots : UatRoots) (va : U64)
    {physicalPages : List U64} (counted : physicalPages.length < 2 ^ 32) (protection : UatProtection)
    (allocator : UatAllocator) :
    Kept (mapPageList context roots va physicalPages protection allocator inventory).2 := by
  unfold mapPageList
  split
  · exact kept
  simp only
  split
  · exact kept
  split
  · exact kept
  rename_i whole validated
  split
  · exact kept
  rename_i half pagesValidated
  obtain ⟨_,valid⟩ := validateRange_spec validated
  rw [half_of_pages valid counted pagesValidated]
  exact mapRange_kept kept roots protection _ _ allocator valid

/-- The table that a turn of the loop over one level removes. -/
def emptyTable (level : Nat) (pages : List UatPage) : Option Nat :=
  pages.findIdx? (fun page => page.level == level && pageIsZero page.entries)

/-- A turn of the loop over one level. -/
def removeTable (level pageIndex : Nat) (pages : List UatPage) : Bool × List UatPage :=
  (true,releaseInventoryPage pageIndex (clearParentReference level (addressOf pages pageIndex) pages))

/-- One table is gone, with the entry that named it. -/
structure Cut (level : Nat) (child : U64) (pages pages' : List UatPage) : Prop where
  tree : Tree pages'
  left : ∀ address l, IsPage pages' address l ↔ IsPage pages address l ∧ address ≠ child
  zero : ∀ address l, ∀ index < 2048, entryAt pages address l index = 0 → entryAt pages' address l index = 0
  entry : ∀ address l index, index < entryCount l → entryAt pages' address l index =
    if l + 1 = level ∧ entryAt pages address l index &&& addressMask = child then 0 else entryAt pages address l index

theorem idle_iff (tree : Tree pages) (mem : page ∈ pages) :
    Idle pages page.physicalAddress page.level ↔ pageIsZero page.entries = true := by
  simp only [Idle,pageIsZero,List.all_eq_true,List.mem_range,beq_iff_eq,entryAt_mem tree.distinct mem]

private theorem emptyTable_none (tree : Tree pages) (none : emptyTable level pages = none)
    (isPage : IsPage pages address level) : ¬ Idle pages address level := by
  obtain ⟨page,mem,rfl,rfl⟩ := isPage
  rw [idle_iff tree mem]
  intro zero
  have absent := List.findIdx?_eq_none_iff.mp none page mem
  simp [zero] at absent

theorem emptyTable_some (tree : Tree pages) (found : emptyTable level pages = some j) :
    j < pages.length ∧ IsPage pages (addressOf pages j) level ∧ Idle pages (addressOf pages j) level ∧
      (0 < level → Cut level (addressOf pages j) pages (removeTable level j pages).2) := by
  obtain ⟨inside,here,_⟩ := List.findIdx?_eq_some_iff_getElem.mp found
  simp only [Bool.and_eq_true,beq_iff_eq] at here
  obtain ⟨rfl,zero⟩ := here
  have there := List.getElem?_eq_getElem inside
  have mem := List.getElem_mem inside
  have address : addressOf pages j = pages[j].physicalAddress := by rw [addressOf,there]; rfl
  rw [removeTable,address]
  refine ⟨inside,⟨_,mem,rfl,rfl⟩,(idle_iff tree mem).mpr zero,fun table => ?_⟩
  have unlinked := clearParentReference_unlinked tree there
  have same := unlinked.release tree table zero
  obtain ⟨_,left⟩ := Unlinked.left tree unlinked
  have entries := Unlinked.entries tree unlinked zero
  refine ⟨same.tree,fun address l => ?_,fun address l index small isZero => ?_,fun address l index walk => ?_⟩
  · rw [← isPage_of_shape unlinked.shape]
    constructor
    · rintro ⟨page,found,rfl,rfl⟩
      exact ⟨⟨page,((left page).mp found).1,rfl,rfl⟩,((left page).mp found).2⟩
    rintro ⟨⟨page,found,rfl,rfl⟩,apart⟩
    exact ⟨page,(left page).mpr ⟨found,apart⟩,rfl,rfl⟩
  · rw [entries _ _ small]
    rcases unlinked.entry address l index with same | ⟨gone,_⟩
    · exact same.trans isZero
    exact gone
  rw [entries _ _ (walk.trans_le (entryCount_le l))]
  rcases unlinked.entry address l index with same | ⟨gone,above,points⟩
  · rw [same,if_neg]
    rintro ⟨above,points⟩
    have levels := tree.levels _ mem
    exact unlinked.free address l index (by omega) walk (same ▸ points)
  rw [gone,if_pos ⟨above,points⟩]

/-- The loop over one level: exactly its empty tables are gone, with the entries that named them. -/
structure LevelPruned (level : Nat) (returned : List U64) (pages pages' : List UatPage) : Prop where
  tree : Tree pages'
  gone : ∀ address, address ∈ returned ↔ IsPage pages address level ∧ Idle pages address level
  left : ∀ address l, IsPage pages' address l ↔ IsPage pages address l ∧ address ∉ returned
  zero : ∀ address l, ∀ index < 2048, entryAt pages address l index = 0 → entryAt pages' address l index = 0
  entry : ∀ address l index, index < entryCount l → entryAt pages' address l index =
    if l + 1 = level ∧ entryAt pages address l index &&& addressMask ∈ returned then 0 else entryAt pages address l index

theorem entryCount_pos (table : 0 < level) : entryCount level = 2048 := by
  rw [entryCount,if_neg (by omega)]

theorem pruneLevel_pruned (table : 0 < level) : ∀ {turns : Nat} {pages : List UatPage}, Tree pages →
    pages.length ≤ turns → LevelPruned level (levelReturns level turns pages) pages (pruneLevel level turns pages) := by
  intro turns
  induction turns with
  | zero =>
    intro pages tree enough
    obtain rfl := List.length_eq_zero_iff.mp (Nat.le_zero.mp enough)
    refine ⟨tree,fun address => ?_,fun address l => ?_,fun _ _ _ _ zero => zero,fun address l index _ => ?_⟩
    · simp [levelReturns,IsPage]
    · simp [pruneLevel,IsPage]
    simp [pruneLevel,levelReturns]
  | succ turns ih =>
  intro pages tree enough
  cases found : emptyTable level pages with
  | none =>
    have missing := found
    rw [emptyTable] at missing
    rw [pruneLevel,levelReturns,missing]
    refine ⟨tree,fun address => ?_,fun address l => ?_,fun _ _ _ _ zero => zero,fun address l index _ => ?_⟩
    · simp only [List.not_mem_nil,false_iff,not_and]
      exact emptyTable_none tree found
    · simp
    simp
  | some j =>
  obtain ⟨inside,isPage,idle,cut⟩ := emptyTable_some tree found
  obtain cut := cut table
  rw [emptyTable] at found
  rw [pruneLevel,levelReturns,found]
  dsimp only
  have shorter := (release_addresses level inside).length_eq
  simp only [addresses,List.length_cons,List.length_map] at shorter
  rw [removeTable] at cut
  generalize releaseInventoryPage j (clearParentReference level (addressOf pages j) pages) = next at cut shorter
  generalize addressOf pages j = child at isPage idle cut
  have rest := ih cut.tree (by omega : next.length ≤ turns)
  generalize levelReturns level turns next = returned at rest
  -- at this level every entry is as it was
  have idle_next : ∀ address, Idle next address level ↔ Idle pages address level := by
    intro address
    refine forall_congr' (fun index => forall_congr' (fun small => ?_))
    rw [cut.entry _ _ _ (by rw [entryCount_pos table]; exact small),if_neg (by omega)]
  refine ⟨rest.tree,fun address => ?_,fun address l => ?_,fun address l index small zero => ?_,fun address l index walk => ?_⟩
  · rw [List.mem_cons,rest.gone,cut.left,idle_next]
    by_cases here : address = child
    · subst here
      simp [isPage,idle]
    simp [here]
  · rw [rest.left,cut.left,List.mem_cons]
    tauto
  · exact rest.zero _ _ _ small (cut.zero _ _ _ small zero)
  rw [rest.entry _ _ _ walk,cut.entry _ _ _ walk]
  split
  · rename_i points
    rw [ite_self]
    exact (if_pos ⟨points.1,List.mem_cons.mpr (.inl points.2)⟩).symm
  rename_i points
  refine if_congr (and_congr_right (fun above => ?_)) rfl rfl
  rw [List.mem_cons,or_iff_right (fun here => points ⟨above,here⟩)]

variable {returned : List U64}

theorem LevelPruned.hung {pages' : List UatPage}
    (pruned : LevelPruned level returned pages pages') (hung : Hung pages) : Hung pages' := by
  refine ⟨pruned.tree,fun address index after before => ?_,fun address l isPage => ?_⟩
  · exact pruned.zero _ _ _ before (hung.ends address index after before)
  obtain ⟨isOld,remains⟩ := (pruned.left _ _).mp isPage
  obtain ⟨parent,index,inside,names⟩ := hung.named address l isOld
  refine ⟨parent,index,inside,?_⟩
  rw [pruned.entry _ _ _ inside,if_neg]
  · exact names
  rintro ⟨_,gone⟩
  exact remains (names ▸ gone)

theorem LevelPruned.idle {pages' : List UatPage}
    (pruned : LevelPruned level returned pages pages') {l : Nat} (table : 0 < l) (below : level ≤ l) :
    Idle pages' address l ↔ Idle pages address l := by
  refine forall_congr' (fun index => forall_congr' (fun small => ?_))
  rw [pruned.entry _ _ _ (by rw [entryCount_pos table]; exact small),if_neg (by omega)]

/-- The tables that were emptied: those without an entry, and those of level 1 whose
    entries all name tables without an entry. -/
def Emptied (pages : List UatPage) (address : U64) : Prop :=
  (IsPage pages address 2 ∧ Idle pages address 2) ∨
  (IsPage pages address 1 ∧ ∀ index < 2048, entryAt pages address 1 index = 0 ∨
    (IsPage pages (entryAt pages address 1 index &&& addressMask) 2 ∧
      Idle pages (entryAt pages address 1 index &&& addressMask) 2))

/-- A pruning that ends and takes away exactly the tables that were emptied. -/
structure Pruned (pages pages' : List UatPage) (returned : List U64) : Prop where
  leavesEnd : Ends (emptyTable 2) (removeTable 2) pages
  tablesEnd : Ends (emptyTable 1) (removeTable 1) (pruneLevel 2 pages.length pages)
  done : ∀ level, level = 1 ∨ level = 2 → emptyTable level pages' = none
  once : returned.Nodup
  emptied : ∀ address, address ∈ returned ↔ Emptied pages address
  others : ∀ address level, IsPage pages' address level ↔ IsPage pages address level ∧ address ∉ returned

theorem pruning_ends (level : Nat) (pages : List UatPage) : Ends (emptyTable level) (removeTable level) pages := by
  refine @drain_ends _ _ (emptyTable level) (removeTable level) (fun _ _ => True) List.length (fun _ => trivial)
    (fun _ _ _ _ _ => trivial) _ (fun state j next removed _ found cleared => ⟨trivial,fun _ => ?_⟩)
  obtain ⟨inside,_⟩ := List.findIdx?_eq_some_iff_getElem.mp found
  cases cleared
  have shorter := (release_addresses level inside).length_eq
  simp only [addresses,List.length_cons,List.length_map] at shorter
  omega

private theorem pruneEmptyTables_pruned (hung : Hung pages) :
    Linked (pruneEmptyTables pages) 0 ∧ Pruned pages (pruneEmptyTables pages) (pruneReturns pages) := by
  have leaves := pruneLevel_pruned (by decide : 0 < 2) hung.tree (Nat.le_refl _)
  have tables := pruneLevel_pruned (by decide : 0 < 1) leaves.tree (Nat.le_refl _)
  have perm := pruneReturns_perm pages
  have distinct : (addresses pages).Nodup := hung.tree.distinct
  have once : (pruneReturns pages).Nodup := (List.nodup_append.mp (perm.nodup_iff.mpr distinct)).2.1
  have linked : Linked (pruneEmptyTables pages) 0 := by
    refine ⟨tables.hung (leaves.hung hung),fun address level isPage _ idle => ?_⟩
    obtain ⟨isTable,remains⟩ := (tables.left _ _).mp isPage
    obtain ⟨isOld,remains'⟩ := (leaves.left _ _).mp isTable
    have small : level + 1 ≤ 2 := by
      obtain ⟨page,mem,_,isLevel⟩ := isOld
      exact isLevel ▸ hung.tree.levels page mem
    have idle' : Idle (pruneLevel 2 pages.length pages) address (level + 1) :=
      (tables.idle (Nat.succ_pos level) (Nat.succ_le_succ (Nat.zero_le _))).mp idle
    rcases Nat.lt_or_eq_of_le small with first | second
    · obtain rfl : level = 0 := by omega
      exact remains ((tables.gone address).mpr ⟨isTable,idle'⟩)
    rw [second] at isOld idle'
    exact remains' ((leaves.gone address).mpr ⟨isOld,(leaves.idle (by decide) (Nat.le_refl _)).mp idle'⟩)
  refine ⟨linked,pruning_ends 2 _,pruning_ends 1 _,fun level table => ?_,once,fun address => ?_,fun address level => ?_⟩
  · cases found : emptyTable level (pruneEmptyTables pages) with
    | none => rfl
    | some j =>
      obtain ⟨_,isPage,idle,_⟩ := emptyTable_some linked.tree found
      obtain ⟨l,rfl⟩ : ∃ l, level = l + 1 := ⟨level - 1,by omega⟩
      exact absurd idle (linked.busy _ _ isPage (isPage.address_ne_zero linked.tree))
  · rw [pruneReturns,List.mem_append,leaves.gone,tables.gone,leaves.left,Emptied]
    refine or_congr Iff.rfl ?_
    have idle_iff' : Idle (pruneLevel 2 pages.length pages) address 1 ↔ ∀ index < 2048, entryAt pages address 1 index = 0 ∨
        (IsPage pages (entryAt pages address 1 index &&& addressMask) 2 ∧
          Idle pages (entryAt pages address 1 index &&& addressMask) 2) := by
      refine forall_congr' (fun index => forall_congr' (fun small => ?_))
      rw [leaves.entry _ _ _ (by rw [entryCount_pos (by decide)]; exact small),← leaves.gone]
      split_ifs with names
      · exact ⟨fun _ => .inr names.2,fun _ => rfl⟩
      exact ⟨.inl,fun either => either.resolve_right (fun gone => names ⟨rfl,gone⟩)⟩
    rw [idle_iff']
    constructor
    · rintro ⟨⟨isTable,_⟩,empty⟩
      exact ⟨isTable,empty⟩
    rintro ⟨isTable,empty⟩
    refine ⟨⟨isTable,fun gone => ?_⟩,empty⟩
    -- a page has one level
    obtain ⟨page,mem,isAddress,isLevel⟩ := isTable
    obtain ⟨⟨page',mem',isAddress',isLevel'⟩,_⟩ := (leaves.gone address).mp gone
    rw [hung.tree.distinct.eq_of_address mem mem' (isAddress.trans isAddress'.symm)] at isLevel
    omega
  rw [pruneEmptyTables,tables.left,leaves.left,pruneReturns,List.mem_append]
  tauto

/-- What a successful unmap leaves: the leaves of its range are cleared and the tables that this emptied are gone. -/
structure Unmapped (inventory left : UatInventory) (va length : U64) (root : Nat) : Prop where
  pruned : Pruned (writeLeaves root va (fun _ => 0) (pageTurns length) 0 inventory.pages) left.pages
    (pruneReturns (writeLeaves root va (fun _ => 0) (pageTurns length) 0 inventory.pages))
  returned : left.returned = inventory.returned ++
    pruneReturns (writeLeaves root va (fun _ => 0) (pageTurns length) 0 inventory.pages)

theorem unmap_cases (kept : Kept inventory) (context : Nat) (roots : UatRoots) (va length : U64) :
    ((unmap context roots va length inventory).1 ≠ .Ok ∧ (unmap context roots va length inventory).2 = inventory) ∨
      (Kept (unmap context roots va length inventory).2 ∧
        ∃ root, Unmapped inventory (unmap context roots va length inventory).2 va length root) := by
  rcases unmap_inversion context roots va length inventory with failed | ⟨mappingIndex,root,mapping,half,unmapping⟩
  · exact .inl failed
  obtain ⟨_,valid⟩ := validateRange_spec unmapping.validated
  obtain ⟨page,there,_,isRoot⟩ := findPage_some unmapping.found
  have tree := kept.linked.tree
  have leaves := (leavesMapped_iff tree there isRoot _ _).mp unmapping.mapped
  have written := writeLeaves_spec valid (fun _ => 0) (pageTurns length) 0 tree there isRoot (Nat.le_of_eq (Nat.zero_add _))
    (fun t _ before => leafTable_ne_zero tree (leaves t (by omega)))
  obtain ⟨linked,pruned⟩ := pruneEmptyTables_pruned (kept.linked.hung.leaves written.tree written.shape (written_same written))
  rw [unmapping.unmap_eq]
  exact .inr ⟨⟨linked,prune_accounted kept.accounted written.shape⟩,root,pruned,rfl⟩

theorem unmap_kept (kept : Kept inventory) (context : Nat) (roots : UatRoots) (va length : U64) :
    Kept (unmap context roots va length inventory).2 := by
  rcases unmap_cases kept context roots va length with ⟨_,same⟩ | ⟨kept',_⟩
  · exact same.symm ▸ kept
  exact kept'

/-- A replacement whose leaf tables are there and whose new pages have descriptors. -/
def Placed (context : Nat) (roots : UatRoots) (pages : List UatPage) (replacement : UatReplacement) : Prop :=
  ∃ half, validateRange context replacement.old.virtualAddress replacement.physicalAddress replacement.old.length
      replacement.protection = .ok half ∧
    ∀ turn < pageTurns replacement.old.length,
      leafTable pages (roots.half half) (pageAddress replacement.old.virtualAddress turn) ≠ 0 ∧
        replacementDescriptor context replacement turn ≠ 0

theorem replaceRanges_kept (context : Nat) (roots : UatRoots) : ∀ {replacements : List UatReplacement}
    {inventory : UatInventory}, Kept inventory →
    (∀ replacement ∈ replacements, Placed context roots inventory.pages replacement) →
    Kept (replaceRanges context roots replacements inventory).2 := by
  intro replacements
  induction replacements with
  | nil => exact fun kept _ => kept
  | cons replacement rest ih =>
  intro inventory kept placed
  obtain ⟨half,validated,there⟩ := placed replacement List.mem_cons_self
  unfold replaceRanges
  simp only [validated]
  split
  · rename_i i root _ found
    obtain ⟨page,here,address,isRoot⟩ := findPage_some found
    obtain ⟨_,valid⟩ := validateRange_spec validated
    have written := writeLeaves_spec valid (replacementDescriptor context replacement) _ 0 kept.linked.tree here isRoot
      (Nat.le_of_eq (Nat.zero_add _)) (fun t _ before => by rw [address]; exact (there t (by omega)).1)
    have linked := kept.linked.written valid written (Nat.le_refl _) (fun turn before => (there turn before).2)
    refine ih ⟨linked,kept.accounted.reshape written.shape⟩ (fun other later => ?_)
    obtain ⟨half',validated',there'⟩ := placed other (List.mem_cons_of_mem _ later)
    exact ⟨half',validated',fun turn before => by rw [written.table]; exact there' turn before⟩
  exact kept

/-- A replacement that was accepted and whose pages are aligned is placed. -/
theorem Accepted.placed {roots : UatRoots} {earlier : List UatRange}
    {replacements : List UatReplacement} (tree : Tree inventory.pages)
    (accepted : Accepted context roots inventory earlier replacements) {replacement : UatReplacement}
    (mem : replacement ∈ replacements)
    (aligned : ∀ {half}, ValidRange half replacement.old.virtualAddress replacement.physicalAddress replacement.old.length →
      ∀ turn < pageTurns replacement.old.length, replacement.physicalAt turn &&& pageMask = 0 ∧
        replacement.physicalAt turn < physicalLimit) : Placed context roots inventory.pages replacement := by
  obtain ⟨exact,half,validated⟩ := accepted.valid replacement mem
  obtain ⟨⟨bits,allowed⟩,valid⟩ := validateRange_spec validated
  refine ⟨half,validated,fun turn inside => ⟨?_,?_⟩⟩
  · unfold validateExactMapping at exact
    split at exact
    · rename_i failed
      exact absurd (failed.trans (congrArg Except.error exact)) validateRange_error
    rename_i half' validated'
    obtain rfl : half' = half := InHalf.unique (validateRange_spec validated').2.start valid.start
    split at exact
    · cases exact
    split at exact
    · cases exact
    rename_i root found
    split at exact
    · rename_i mapped
      obtain ⟨page,there,address,isRoot⟩ := findPage_some found
      rw [← address]
      exact leafTable_ne_zero tree ((leavesMapped_iff tree there isRoot _ _).mp mapped turn inside)
    cases exact
  obtain ⟨isAligned,small⟩ := aligned valid turn inside
  have encoded := encodePageDescriptor_ok allowed isAligned small
  rw [replacementDescriptor,encoded]
  exact ne_zero_of_descriptor (encodePageDescriptor_spec encoded).2

theorem replaceBatchWithPage_kept (kept : Kept inventory) (context : Nat) (roots : UatRoots)
    (ranges : List UatRange) (page : U64) (protection : UatProtection) :
    Kept (replaceBatchWithPage context roots ranges page protection inventory).2 := by
  unfold replaceBatchWithPage
  dsimp only
  split
  · exact kept
  split
  · exact kept
  split
  · rename_i valid
    have accepted := validateReplacements_accepted valid
    refine replaceRanges_kept context roots kept (fun replacement mem => ?_)
    obtain ⟨range,_,rfl⟩ := List.mem_map.mp mem
    exact Accepted.placed kept.linked.tree accepted mem (fun validRange _ _ => ValidRange.page_aligned validRange)
  exact kept

theorem replaceBatch_kept (kept : Kept inventory) (context : Nat) (roots : UatRoots)
    (pairs : List (UatRange × UatRange)) : Kept (replaceBatch context roots pairs inventory).2 := by
  unfold replaceBatch
  split
  · exact kept
  split
  · rename_i valid
    have accepted := validatePairs_accepted (fun range => pageAddress range.physicalAddress) valid
    refine replaceRanges_kept context roots kept (fun replacement mem => ?_)
    obtain ⟨pair,_,rfl⟩ := List.mem_map.mp mem
    exact Accepted.placed kept.linked.tree accepted mem (fun validRange turn inside => validRange.physical_aligned inside)
  exact kept

theorem Linked.addRoot (page : UatPage) (linked : Linked pages 0) (fresh : Fresh pages page)
    (level : page.level = 0) : Linked (pages ++ [page]) 0 := by
  obtain ⟨tree,_⟩ := linked.tree.append page fresh (by omega)
  have entries : ∀ address l index, index < 2048 →
      entryAt (pages ++ [page]) address l index = entryAt pages address l index :=
    fun _ _ _ small => entryAt_append tree.distinct fresh.zero (.inl small)
  have isPage : ∀ address l, IsPage (pages ++ [page]) address (l + 1) → IsPage pages address (l + 1) := by
    rintro address l ⟨found,mem,isAddress,isLevel⟩
    rcases List.mem_append.mp mem with old | new
    · exact ⟨found,old,isAddress,isLevel⟩
    rw [List.mem_singleton.mp new,level] at isLevel
    cases isLevel
  refine ⟨⟨tree,fun address index after before => ?_,fun address l isTable => ?_⟩,fun address l isTable apart idle => ?_⟩
  · rw [entries _ _ _ before]
    exact linked.ends address index after before
  · obtain ⟨parent,index,inside,names⟩ := linked.named address l (isPage _ _ isTable)
    exact ⟨parent,index,inside,by rw [entries _ _ _ (inside.trans_le (entryCount_le l))]; exact names⟩
  refine linked.busy address l (isPage _ _ isTable) apart (fun index small => ?_)
  rw [← entries _ _ _ small]
  exact idle index small

theorem allocateRoot_kept {grown : UatInventory} {child : Nat} (kept : Kept inventory)
    (allocated : allocateRecordedPage 0 allocator inventory = (.ok child,grown)) : Kept grown := by
  obtain ⟨accounted,_,candidate,keep,fresh,pages,_⟩ := allocateRecordedPage_ok kept.accounted allocated
  obtain ⟨real,_,_,zero⟩ := usable_spec keep
  refine ⟨?_,accounted⟩
  rw [pages]
  exact kept.linked.addRoot { candidate with level := 0 } ⟨fresh,zero,real⟩ rfl

private theorem createAddressSpace_kept (kept : Kept inventory) (context : Nat)
    (allocator : UatAllocator) : Kept (createAddressSpace context allocator inventory).2 := by
  unfold createAddressSpace
  split
  · exact kept
  split
  · exact kept
  split
  · rename_i failed
    obtain ⟨accounted,_,pages,_⟩ := allocateRecordedPage_error kept.accounted failed
    exact ⟨pages.symm ▸ kept.linked,accounted⟩
  rename_i low first allocatedLow
  obtain ⟨_,_,candidate,_,_,lowPages,_⟩ := allocateRecordedPage_ok kept.accounted allocatedLow
  have keptLow := allocateRoot_kept kept allocatedLow
  split
  · rename_i failed
    obtain ⟨accounted,_,pages,_⟩ := allocateRecordedPage_error keptLow.accounted failed
    refine ⟨?_,releaseFrom_accounted accounted _⟩
    simp only [releaseFrom,pages,lowPages,List.take_left]
    exact kept.linked
  rename_i allocatedHigh
  exact allocateRoot_kept keptLow allocatedHigh

theorem step_kept {state : UatState} (kept : Kept state.inventory) (op : Op) :
    Kept (step allocator state op).inventory := by
  have unmaps := fun context roots va length inventory (kept : Kept inventory) => unmap_kept kept context roots va length
  cases op with
  | createAddressSpace context =>
    have created := createAddressSpace_kept kept context allocator
    cases ran : createAddressSpace context allocator state.inventory with
    | mk answer left =>
    rw [ran] at created
    simp only [step,ran]
    cases answer <;> exact created
  | map context roots virtualAddress physicalAddress length protection => exact map_kept kept context roots _ _ _ _ allocator
  | mapPageList context roots virtualAddress physicalPages counted protection =>
    exact mapPageList_kept kept context roots _ counted protection allocator
  | unmap context roots virtualAddress length => exact unmap_kept kept context roots virtualAddress length
  | mapBatch context roots ranges =>
    exact mapBatch_keeps Kept (unmaps context roots)
      (fun range _ _ kept => map_kept kept context roots _ _ _ range.protection allocator) kept
  | unmapBatch context roots ranges => exact unmapBatch_keeps Kept (unmaps context roots) kept
  | replaceBatch context roots pairs => exact replaceBatch_kept kept context roots pairs
  | replaceBatchWithPage context roots ranges physicalAddress protection =>
  exact replaceBatchWithPage_kept kept context roots ranges physicalAddress protection

theorem run_kept : ∀ {ops : List Op} {state : UatState}, Kept state.inventory →
    Kept (run allocator state ops).inventory := by
  intro ops
  induction ops with
  | nil => exact fun kept => kept
  | cons op rest ih => exact fun kept => ih (step_kept kept op)

/-- An entry of a page one level above holds the address of the page; the slot is the place
    of the one above and the index of the entry. -/
def Names (pages : List UatPage) (slot : Nat × Nat) (page : UatPage) : Prop :=
  ∃ parent, pages[slot.1]? = some parent ∧ parent.level + 1 = page.level ∧ slot.2 < 2048 ∧
    parent.entries slot.2 &&& addressMask = page.physicalAddress

/-- No table leaks and none dangles. -/
structure Tidy (inventory : UatInventory) : Prop where
  levels : ∀ page ∈ inventory.pages, page.level ≤ 2
  used : ∀ page ∈ inventory.pages, 0 < page.level → ∃ index < 2048, page.entries index ≠ 0
  named : ∀ page ∈ inventory.pages, 0 < page.level → ∃! slot, Names inventory.pages slot page
  children : ∀ parent ∈ inventory.pages, parent.level < 2 → ∀ index < 2048, parent.entries index ≠ 0 →
    ∃ page ∈ inventory.pages, page.level = parent.level + 1 ∧ parent.entries index &&& addressMask = page.physicalAddress
  distinct : (addresses inventory.pages).Nodup
  live : (addresses inventory.pages).Perm inventory.live
  account : (addresses inventory.pages ++ inventory.returned).Perm inventory.obtained

theorem Linked.children (linked : Linked pages 0) (mem : parent ∈ pages)
    (below : parent.level < 2) (small : index < 2048) (nonzero : parent.entries index ≠ 0) :
    index < entryCount parent.level ∧
      ∃ page ∈ pages, page.level = parent.level + 1 ∧ parent.entries index &&& addressMask = page.physicalAddress := by
  rw [← entryAt_mem linked.tree.distinct mem] at nonzero ⊢
  have inside : index < entryCount parent.level := by
    by_contra outside
    by_cases isRoot : parent.level = 0
    · rw [isRoot] at nonzero outside
      exact nonzero (linked.ends _ index (Nat.le_of_not_lt outside) small)
    rw [entryCount_pos (Nat.pos_of_ne_zero isRoot)] at outside
    exact outside small
  obtain ⟨page,found,level,entry⟩ := linked.tree.child _ _ index below inside nonzero
  exact ⟨inside,page,found,level,by rw [entry]; exact table_masked (linked.tree.real page found).2⟩

theorem Linked.named_once (linked : Linked pages 0) (mem : page ∈ pages)
    (table : 0 < page.level) : ∃! slot, Names pages slot page := by
  obtain ⟨l,isLevel⟩ : ∃ l, page.level = l + 1 := ⟨page.level - 1,by omega⟩
  have real := (linked.tree.real page mem).1
  have levels := linked.tree.levels page mem
  obtain ⟨above,index,inside,names⟩ := linked.named _ _ ⟨page,mem,rfl,isLevel⟩
  have nonzero : entryAt pages above l index ≠ 0 := by
    intro zero
    rw [zero,masked_zero] at names
    exact real names.symm
  obtain ⟨parent,found,rfl,rfl⟩ := exists_of_entryAt nonzero
  obtain ⟨j,here⟩ := List.getElem?_of_mem found
  have small : index < 2048 := inside.trans_le (entryCount_le _)
  refine ⟨(j,index),⟨parent,here,isLevel.symm,small,?_⟩,?_⟩
  · rw [← entryAt_mem linked.tree.distinct found]
    exact names
  rintro ⟨k,other⟩ ⟨parent',there,sameLevel,small',names'⟩
  have found' := List.mem_of_getElem? there
  have levelSame : parent'.level = parent.level := by omega
  have nonzero' : parent'.entries other ≠ 0 := by
    intro zero
    rw [zero,masked_zero] at names'
    exact real names'.symm
  obtain ⟨inside',_⟩ := linked.children found' (by omega) small' nonzero'
  rw [← entryAt_mem linked.tree.distinct found'] at names'
  rw [levelSame] at inside' names'
  -- two entries with one address are one entry
  obtain ⟨sameAddress,sameIndex⟩ := linked.tree.entry_of_masked (by omega) inside inside' (names.symm ▸ real)
    (names.trans names'.symm)
  have place := findPage_getElem linked.tree.distinct here
  rw [sameAddress,← levelSame,findPage_getElem linked.tree.distinct there] at place
  exact Prod.ext (Option.some.inj place) sameIndex.symm

theorem Kept.tidy (kept : Kept inventory) : Tidy inventory := by
  refine ⟨kept.linked.tree.levels,fun page mem table => ?_,fun page mem table => kept.linked.named_once mem table,
    fun parent mem below index small nonzero => (kept.linked.children mem below small nonzero).2,
    kept.linked.tree.distinct,kept.accounted.live.symm,kept.accounted⟩
  obtain ⟨l,isLevel⟩ : ∃ l, page.level = l + 1 := ⟨page.level - 1,by omega⟩
  have busy := kept.linked.busy _ l ⟨page,mem,rfl,isLevel⟩ (kept.linked.tree.real page mem).1
  rw [← isLevel,idle_iff kept.linked.tree mem] at busy
  simpa [pageIsZero] using busy

theorem initial_kept (pageCapacity mappingCapacity : Nat) : Kept (initial pageCapacity mappingCapacity).inventory := by
  have sound := initial_sound pageCapacity mappingCapacity
  have nothing : ∀ address level, ¬ IsPage (initial pageCapacity mappingCapacity).inventory.pages address level := by
    simp [IsPage,initial]
  exact ⟨⟨⟨sound.tree,fun _ _ _ _ => rfl,fun _ _ isPage => absurd isPage (nothing _ _)⟩,
    fun _ _ isPage => absurd isPage (nothing _ _)⟩,sound.accounted⟩

/-- After every run no table leaks or dangles, and an unmap that succeeds returns exactly the tables that it emptied. -/
theorem run_tidy (allocator : UatAllocator) (pageCapacity mappingCapacity : Nat) (ops : List Op) :
    let inventory := (run allocator (initial pageCapacity mappingCapacity) ops).inventory
    Tidy inventory ∧ ∀ context roots va length,
      ((unmap context roots va length inventory).1 ≠ .Ok ∧ (unmap context roots va length inventory).2 = inventory) ∨
        ∃ root, Unmapped inventory (unmap context roots va length inventory).2 va length root := by
  intro inventory
  have kept : Kept inventory := run_kept (initial_kept pageCapacity mappingCapacity)
  exact ⟨kept.tidy,fun context roots va length => (unmap_cases kept context roots va length).imp_right And.right⟩

end WindowsOnM1.UatTables
