import WindowsOnM1.UatTree

/-!
Mapping a range. While the loop runs, the leaves of its first turns hold their
descriptors, tables were only added, and every slot that changed was empty before; so
a failed turn takes the inventory back to the pages that it started from.
-/
namespace WindowsOnM1.UatMap
open UatModel UatEncoding UatTree

/-- The addresses of the pages of an inventory. -/
def addresses (pages : List UatPage) : List U64 := pages.map (fun page => page.physicalAddress)

/-- The pages of an inventory and the returned ones are the pages that were obtained. -/
def Accounted (inventory : UatInventory) : Prop :=
  (addresses inventory.pages ++ inventory.returned).Perm inventory.obtained

variable {inventory : UatInventory}

theorem Accounted.live (accounted : Accounted inventory) : inventory.live.Perm (addresses inventory.pages) := by
  refine List.perm_iff_count.mpr (fun address => ?_)
  have counts := accounted.count_eq address
  rw [List.count_append] at counts
  rw [UatInventory.live,List.count_diff]
  omega

variable {pages : List UatPage}

theorem Accounted.reshape (accounted : Accounted inventory)
    (shape : SameShape inventory.pages pages) : Accounted { inventory with pages := pages } := by
  rw [Accounted,addresses,shape.addresses]
  exact accounted

theorem releaseFrom_accounted (accounted : Accounted inventory) (firstPage : Nat) :
    Accounted (releaseFrom firstPage inventory) := by
  refine List.perm_iff_count.mpr (fun address => ?_)
  have counts := accounted.count_eq address
  have split := congrArg (fun pages => (addresses pages).count address) (List.take_append_drop firstPage inventory.pages)
  simp only [addresses,List.map_append,List.count_append] at counts split
  simp only [releaseFrom,addresses,List.count_append,List.map_reverse,List.count_reverse]
  omega

theorem usable_spec {candidate : UatCandidate} (keep : usable candidate = true) :
    (candidate.physicalAddress ≠ 0 ∧ candidate.physicalAddress &&& addressMask = candidate.physicalAddress) ∧
      candidate.physicalAddress &&& pageMask = 0 ∧ candidate.physicalAddress < physicalLimit ∧
      pageIsZero candidate.entries = true := by
  simp only [usable,Bool.and_eq_true,bne_iff_ne,beq_iff_eq,decide_eq_true_eq] at keep
  obtain ⟨⟨⟨⟨⟨nonzero,_⟩,aligned⟩,_⟩,small⟩,zero⟩ := keep
  exact ⟨⟨nonzero,address_masked aligned small⟩,aligned,small,zero⟩

theorem encodeTableDescriptor_usable {candidate : UatCandidate} (keep : usable candidate = true) :
    encodeTableDescriptor candidate.physicalAddress = .ok (candidate.physicalAddress ||| 3) := by
  obtain ⟨_,aligned,small,_⟩ := usable_spec keep
  rw [encodeTableDescriptor,if_neg (not_not.mpr aligned),if_neg (BitVec.not_le.mpr small)]

variable {allocator : UatAllocator}

theorem allocateRecordedPage_ok {level child : Nat} {grown : UatInventory} (accounted : Accounted inventory)
    (allocated : allocateRecordedPage level allocator inventory = (.ok child,grown)) :
    Accounted grown ∧ child = inventory.pages.length ∧ ∃ candidate, usable candidate = true ∧
      (∀ page ∈ inventory.pages, page.physicalAddress ≠ candidate.physicalAddress) ∧
      grown.pages = inventory.pages ++ [⟨candidate.physicalAddress,candidate.entries,level⟩] ∧
      grown.mappings = inventory.mappings := by
  unfold allocateRecordedPage at allocated
  split at allocated
  · cases allocated
  split at allocated
  · cases allocated
  rename_i candidate answer
  split at allocated
  · cases allocated
  rename_i keep
  cases allocated
  refine ⟨List.perm_iff_count.mpr (fun address => ?_),rfl,candidate,not_not.mp keep,fun page mem same => ?_,rfl,rfl⟩
  · have counts := accounted.count_eq address
    simp only [addresses,List.count_append,List.map_append,List.map_cons,List.map_nil] at counts ⊢
    omega
  refine allocator.fresh _ _ _ answer (accounted.live.mem_iff.mpr ?_)
  exact same ▸ List.mem_map_of_mem mem

variable {left : UatInventory}

theorem allocateRecordedPage_error {level : Nat} {result : UatResult} (accounted : Accounted inventory)
    (failed : allocateRecordedPage level allocator inventory = (.error result,left)) :
    Accounted left ∧ result ≠ .Ok ∧ left.pages = inventory.pages ∧ left.mappings = inventory.mappings := by
  unfold allocateRecordedPage at failed
  split at failed
  · cases failed; exact ⟨accounted,by decide,rfl,rfl⟩
  split at failed
  · cases failed; exact ⟨accounted,by decide,rfl,rfl⟩
  split at failed
  · cases failed
    refine ⟨?_,by decide,rfl,rfl⟩
    rw [Accounted,← List.append_assoc]
    exact accounted.append_right _
  cases failed

/-- What a step over the tables leaves: the mappings as they were, and tables added. -/
def GrewTo (inventory inventory' : UatInventory) : Prop :=
  Grows inventory.pages inventory'.pages ∧ inventory'.mappings = inventory.mappings ∧ Accounted inventory'

variable {page : UatPage}

/-- A child is the page that the entry of its parent points to. -/
theorem getChild_spec {parent index childLevel : Nat} {inventory' : UatInventory}
    {answer : Except UatResult Nat} (tree : Tree inventory.pages) (accounted : Accounted inventory)
    (here : inventory.pages[parent]? = some page) (level : childLevel = page.level + 1) (below : page.level < 2)
    (inside : index < entryCount page.level)
    (ran : getChild parent index childLevel allocator inventory = (answer,inventory')) :
    GrewTo inventory inventory' ∧ answer ≠ .error .Ok ∧
      ∀ child, answer = .ok child → ∃ found, inventory'.pages[child]? = some found ∧ found.level = childLevel ∧
        found.physicalAddress = entryAt inventory'.pages page.physicalAddress page.level index &&& addressMask := by
  have entry := readEntry_eq tree.distinct here index
  unfold getChild at ran
  rw [entry] at ran
  simp only at ran
  split at ran
  · -- an existing entry
    split at ran
    · cases ran
      exact ⟨⟨.refl tree,rfl,accounted⟩,by decide,nofun⟩
    split at ran
    · cases ran
      exact ⟨⟨.refl tree,rfl,accounted⟩,by decide,nofun⟩
    rename_i child lookup
    cases ran
    refine ⟨⟨.refl tree,rfl,accounted⟩,by simp,fun _ same => ?_⟩
    cases same
    obtain ⟨found,there,address,isLevel⟩ := findPage_some lookup
    exact ⟨found,there,isLevel,address⟩
  rename_i empty
  have empty := not_not.mp empty
  split at ran
  · rename_i failed
    cases ran
    obtain ⟨accounted',real,pages,mappings⟩ := allocateRecordedPage_error accounted failed
    refine ⟨⟨?_,mappings,accounted'⟩,by simpa using real,nofun⟩
    rw [pages]
    exact .refl tree
  rename_i child grown allocated
  obtain ⟨accounted',rfl,candidate,keep,fresh,pages,mappings⟩ := allocateRecordedPage_ok accounted allocated
  obtain ⟨real,_,_,zero⟩ := usable_spec keep
  have place : (grown.pages[inventory.pages.length]?).elim 0 (fun page => page.physicalAddress) =
      candidate.physicalAddress := by
    rw [pages,List.getElem?_concat_length]
    rfl
  rw [place,encodeTableDescriptor_usable keep] at ran
  cases ran
  obtain ⟨grows,entry',page',there,address,isLevel⟩ :=
    tree.addChild { candidate with level := childLevel } ⟨fresh,zero,real⟩ here below level inside empty
  have written := accounted'.reshape (writeEntry_shape grown.pages parent index (candidate.physicalAddress ||| 3))
  rw [pages] at written
  simp only [GrewTo,pages]
  refine ⟨⟨grows,mappings,written⟩,by simp,fun _ same => ?_⟩
  cases same
  refine ⟨page',there,isLevel,?_⟩
  rw [entry',address]
  exact (table_masked real.2).symm

variable {root : Nat} {va : U64}

/-- The leaf that the code finds or makes is the slot of the address under the root. -/
theorem findLeaf_spec {inventory' : UatInventory}
    {answer : Except UatResult (Nat × Nat)} (tree : Tree inventory.pages) (accounted : Accounted inventory)
    (here : inventory.pages[root]? = some page) (isRoot : page.level = 0)
    (ran : findLeaf root va allocator inventory = (answer,inventory')) :
    GrewTo inventory inventory' ∧ answer ≠ .error .Ok ∧
      ∀ leaf, answer = .ok leaf → leaf.2 = level2Index va ∧ ∃ found, inventory'.pages[leaf.1]? = some found ∧
        found.level = 2 ∧ found.physicalAddress = leafTable inventory'.pages page.physicalAddress va := by
  have walk0 : level0Index va < entryCount page.level := by rw [isRoot]; exact level0Index_lt va
  unfold findLeaf at ran
  cases first : getChild root (level0Index va) 1 allocator inventory with
  | mk answer1 inventory1 =>
  obtain ⟨grew1,real1,child1⟩ := getChild_spec tree accounted here (by rw [isRoot]) (by omega) walk0 first
  rw [first] at ran
  cases answer1 with
  | error result =>
    cases ran
    exact ⟨grew1,by simpa using real1,nofun⟩
  | ok level1 =>
  obtain ⟨page1,here1,isLevel1,address1⟩ := child1 level1 rfl
  have walk1 : level1Index va < entryCount page1.level := by rw [isLevel1]; exact level1Index_lt va
  simp only at ran
  cases second : getChild level1 (level1Index va) 2 allocator inventory1 with
  | mk answer2 inventory2 =>
  obtain ⟨grew2,real2,child2⟩ := getChild_spec grew1.1.tree grew1.2.2 here1 (by rw [isLevel1]) (by omega) walk1 second
  rw [second] at ran
  have grew : GrewTo inventory inventory2 := ⟨grew1.1.trans grew2.1,grew2.2.1.trans grew1.2.1,grew2.2.2⟩
  cases answer2 with
  | error result =>
    cases ran
    exact ⟨grew,by simpa using real2,nofun⟩
  | ok level2 =>
  cases ran
  refine ⟨grew,by simp,fun leaf same => ?_⟩
  cases same
  obtain ⟨page2,here2,isLevel2,address2⟩ := child2 level2 rfl
  refine ⟨rfl,page2,here2,isLevel2,?_⟩
  -- the entry of the root did not change in the second step
  have nonzero : entryAt inventory1.pages page.physicalAddress 0 (level0Index va) ≠ 0 := by
    intro zero
    rw [isRoot,zero] at address1
    exact (grew1.1.tree.real page1 (List.mem_of_getElem? here1)).1 address1
  have kept : entryAt inventory'.pages page.physicalAddress 0 (level0Index va) =
      entryAt inventory1.pages page.physicalAddress 0 (level0Index va) := by
    by_contra changed
    have small := level0Index_lt va
    exact nonzero (grew2.1.keeps _ _ _ (.inl (by omega)) changed).1
  rw [isRoot] at address1
  rw [leafTable,kept,← address1,address2,isLevel1]

private theorem leafTable_page (tree : Tree pages) {root : U64} (there : leafTable pages root va ≠ 0) :
    ∃ j page, findPage pages (leafTable pages root va) 2 = some j ∧ pages[j]? = some page ∧ page.level = 2 ∧
      page.physicalAddress = leafTable pages root va := by
  have nonzero : entryAt pages (entryAt pages root 0 (level0Index va) &&& addressMask) 1 (level1Index va) ≠ 0 := by
    intro zero
    apply there
    rw [leafTable,zero,masked_zero]
  obtain ⟨page,mem,level,entry⟩ := tree.child _ 1 _ (by decide) (level1Index_lt va) nonzero
  have address : leafTable pages root va = page.physicalAddress := by
    rw [leafTable,entry,table_masked (tree.real page mem).2]
  obtain ⟨j,here⟩ := List.getElem?_of_mem mem
  have found := findPage_getElem tree.distinct here
  rw [level,← address] at found
  exact ⟨j,page,found,here,level,address.symm⟩

/-- The leaves of the turns from `turn` on hold what `value` gives, and nothing else changed. -/
structure Written (root va : U64) (value : Nat → U64) (turn turns : Nat) (pages pages' : List UatPage) : Prop where
  tree : Tree pages'
  shape : SameShape pages pages'
  table : ∀ root' va', leafTable pages' root' va' = leafTable pages root' va'
  leaf : ∀ root' va', leafValue pages' root' va' =
    if root' = root ∧ key va + turn ≤ key va' ∧ key va' < key va + turn + turns then value (key va' - key va)
    else leafValue pages root' va'
  slot : ∀ address level index, entryAt pages' address level index ≠ entryAt pages address level index →
    level = 2 ∧ ∃ t, turn ≤ t ∧ t < turn + turns ∧ address = leafTable pages root (pageAddress va t) ∧
      index = level2Index (pageAddress va t)

variable {half : UatHalf} {physical length : U64}

theorem writeLeaves_spec (valid : ValidRange half va physical length)
    (value : Nat → U64) : ∀ (turns turn : Nat) {pages : List UatPage} {page : UatPage}, Tree pages →
    pages[root]? = some page → page.level = 0 → turn + turns ≤ pageTurns length →
    (∀ t, turn ≤ t → t < turn + turns → leafTable pages page.physicalAddress (pageAddress va t) ≠ 0) →
    Written page.physicalAddress va value turn turns pages (writeLeaves root va value turns turn pages) := by
  intro turns
  induction turns with
  | zero =>
    intro turn pages page tree _ _ _ _
    refine ⟨tree,rfl,fun _ _ => rfl,fun root' va' => ?_,fun _ _ _ changed => absurd rfl changed⟩
    rw [if_neg (by omega)]
    rfl
  | succ turns ih =>
  intro turn pages page tree here isRoot fits tables
  obtain ⟨j,leaf,found,there,isLeaf,address⟩ := leafTable_page tree (tables turn (Nat.le_refl _) (by omega))
  have start := valid.page_key (by omega : turn < pageTurns length)
  unfold writeLeaves
  rw [findExistingLeaf_eq tree here isRoot,found]
  simp only [Option.map_some]
  have shape := writeEntry_shape pages j (level2Index (pageAddress va turn)) (value turn)
  have written := leafValue_write tree there isLeaf address (value turn)
  have table := leafTable_write tree.distinct there isLeaf (level2Index (pageAddress va turn)) (value turn)
  have tree' := tree.writeLeaf there isLeaf (level2Index (pageAddress va turn)) (value turn)
  obtain ⟨page',here',sameAddress,sameLevel⟩ := shape.take.getElem here
  have rest := ih (turn + 1) tree' here' (sameLevel.trans isRoot) (by omega) (by
    intro t after before
    rw [sameAddress,table]
    exact tables t (by omega) (by omega))
  rw [sameAddress] at rest
  refine ⟨rest.tree,rest.shape.trans shape,fun root' va' => (rest.table root' va').trans (table root' va'),?_,?_⟩
  · intro root' va'
    rw [rest.leaf,written,start]
    by_cases same : root' = page.physicalAddress
    · by_cases first : key va' = key va + turn
      · rw [if_neg (by omega),if_pos ⟨same,first⟩,if_pos ⟨same,by omega,by omega⟩,first]
        congr 1
        omega
      rw [if_neg (c := root' = page.physicalAddress ∧ key va' = key va + turn) (fun both => first both.2)]
      by_cases later : key va + (turn + 1) ≤ key va' ∧ key va' < key va + (turn + 1) + turns
      · rw [if_pos ⟨same,later⟩,if_pos ⟨same,by omega,by omega⟩]
      rw [if_neg (fun all => later all.2),if_neg (by omega)]
    rw [if_neg (fun all => same all.1),if_neg (fun all => same all.1),if_neg (fun all => same all.1)]
  intro address' level index changed
  by_cases late : entryAt (writeEntry pages j (level2Index (pageAddress va turn)) (value turn)) address' level index =
      entryAt pages address' level index
  · rw [← late] at changed
    obtain ⟨isLevel,t,after,before,isTable,isIndex⟩ := rest.slot address' level index changed
    rw [table] at isTable
    exact ⟨isLevel,t,by omega,by omega,isTable,isIndex⟩
  rw [entryAt_write tree.distinct there] at late
  split_ifs at late with atSlot
  · obtain ⟨isAddress,isLevel,isIndex⟩ := atSlot
    exact ⟨isLevel.trans isLeaf,turn,by omega,by omega,isAddress.trans address,isIndex⟩
  exact absurd rfl late

/-- The pages while the loop runs: the leaves of `turns` pages are written, and whatever
    differs from the start was empty and is a new table's entry or a written leaf. -/
structure Filled (start : List UatPage) (root va : U64) (value : Nat → U64) (turns : Nat) (pages : List UatPage) :
    Prop where
  tree : Tree pages
  shape : SameShape start (pages.take start.length)
  tables : ∀ page ∈ pages.drop start.length, page.level ≠ 0
  table : ∀ t < turns, leafTable pages root (pageAddress va t) ≠ 0
  leaf : ∀ root' va', leafValue pages root' va' =
    if root' = root ∧ key va ≤ key va' ∧ key va' < key va + turns then value (key va' - key va)
    else leafValue start root' va'
  fresh : ∀ t < turns, entryAt start (leafTable pages root (pageAddress va t)) 2 (level2Index (pageAddress va t)) = 0
  keeps : ∀ address level index, (index < 2048 ∨ ∃ old ∈ start, old.physicalAddress = address ∧ old.level = level) →
    entryAt pages address level index ≠ entryAt start address level index →
    entryAt start address level index = 0 ∧ ((level < 2 ∧ index < entryCount level ∧ ∃ page ∈ pages.drop start.length,
          page.physicalAddress = entryAt pages address level index &&& addressMask) ∨
        (level = 2 ∧ ∃ t < turns, address = leafTable pages root (pageAddress va t) ∧
          index = level2Index (pageAddress va t)))

variable {start : List UatPage}

theorem Filled.zero (tree : Tree start) (root va : U64) (value : Nat → U64) : Filled start root va value 0 start := by
  refine ⟨tree,by rw [List.take_length]; rfl,fun _ added => absurd added (by simp),
    fun _ bad => absurd bad (Nat.not_lt_zero _),fun root' va' => ?_,
    fun _ bad => absurd bad (Nat.not_lt_zero _),fun _ _ _ _ changed => absurd rfl changed⟩
  rw [if_neg (by omega)]

variable {value : Nat → U64} {turns : Nat}

/-- The tables that a turn adds keep what the turns before it did. -/
theorem Filled.grow {pages' : List UatPage} {root : U64}
    (filled : Filled start root va value turns pages) (grows : Grows pages pages') :
    Filled start root va value turns pages' := by
  have known' : ∀ {address : U64} {level index : Nat},
      (index < 2048 ∨ ∃ old ∈ start, old.physicalAddress = address ∧ old.level = level) →
      (index < 2048 ∨ ∃ old ∈ pages, old.physicalAddress = address ∧ old.level = level) := by
    intro address level index known
    rcases known with inside | ⟨old,mem,isAddress,isLevel⟩
    · exact .inl inside
    obtain ⟨page,found,sameAddress,sameLevel⟩ := filled.shape.exists_take mem
    exact .inr ⟨page,found,sameAddress.trans isAddress,sameLevel.trans isLevel⟩
  have table : ∀ t < turns, leafTable pages' root (pageAddress va t) = leafTable pages root (pageAddress va t) :=
    fun t inside => grows.leafTable filled.tree (filled.table t inside)
  refine ⟨grows.tree,filled.shape.trans_take grows.shape,grows.shape.tables filled.tables grows.tables,
    fun t inside => ?_,fun root' va' => ?_,fun t inside => ?_,?_⟩
  · rw [table t inside]; exact filled.table t inside
  · rw [grows.leaf,filled.leaf]
  · rw [table t inside]; exact filled.fresh t inside
  intro address level index known changed
  by_cases late : entryAt pages' address level index = entryAt pages address level index
  · rw [late] at changed ⊢
    obtain ⟨empty,cases⟩ := filled.keeps address level index known changed
    refine ⟨empty,?_⟩
    rcases cases with ⟨below,inside,page,mem,points⟩ | ⟨isLeaf,t,inside,isAddress,isIndex⟩
    · obtain ⟨page',mem',same⟩ := grows.shape.exists_drop mem
      exact .inl ⟨below,inside,page',mem',same.trans points⟩
    exact .inr ⟨isLeaf,t,inside,by rw [table t inside]; exact isAddress,isIndex⟩
  obtain ⟨empty,below,inside,page,mem,points⟩ := grows.keeps address level index (known' known) late
  have early : entryAt pages address level index = entryAt start address level index := by
    by_contra early
    obtain ⟨_,cases⟩ := filled.keeps address level index known early
    rcases cases with ⟨_,_,old,found,same⟩ | ⟨isLeaf,_⟩
    · rw [empty,masked_zero] at same
      exact (filled.tree.real old (List.mem_of_mem_drop found)).1 same
    omega
  refine ⟨early ▸ empty,.inl ⟨below,inside,page,?_,points⟩⟩
  have split : pages'.drop pages.length = (pages'.drop start.length).drop (pages.length - start.length) := by
    have := filled.shape.length
    rw [List.drop_drop]
    congr 1
    omega
  rw [split] at mem
  exact List.mem_of_mem_drop mem

section
variable (valid : ValidRange half va physical length)
include valid

theorem Filled.write {root : U64} {j : Nat} {leaf : UatPage}
    (filled : Filled start root va value turns pages) (inside : turns < pageTurns length) (here : pages[j]? = some leaf)
    (isLeaf : leaf.level = 2) (address : leaf.physicalAddress = leafTable pages root (pageAddress va turns))
    (empty : readEntry pages j (level2Index (pageAddress va turns)) = 0) : Filled start root va value (turns + 1)
      (writeEntry pages j (level2Index (pageAddress va turns)) (value turns)) := by
  have start' := valid.page_key inside
  have shape := writeEntry_shape pages j (level2Index (pageAddress va turns)) (value turns)
  have table := leafTable_write filled.tree.distinct here isLeaf (level2Index (pageAddress va turns)) (value turns)
  have taken := congrArg (List.take start.length) shape
  simp only [← List.map_take] at taken
  have slot : entryAt pages (leafTable pages root (pageAddress va turns)) 2 (level2Index (pageAddress va turns)) = 0 := by
    rw [readEntry_eq filled.tree.distinct here,isLeaf,address] at empty
    exact empty
  have wasEmpty : entryAt start (leafTable pages root (pageAddress va turns)) 2 (level2Index (pageAddress va turns)) = 0 := by
    by_contra nonzero
    exact nonzero (filled.keeps _ 2 _ (.inl (level2Index_lt _)) (fun same => nonzero (same.symm.trans slot))).1
  have same_length : (writeEntry pages j (level2Index (pageAddress va turns)) (value turns)).length = pages.length := by
    simp [writeEntry]
  refine ⟨filled.tree.writeLeaf here isLeaf _ _,taken.trans filled.shape,
    shape.take.tables filled.tables (by simp [← same_length]),fun t before => ?_,fun root' va' => ?_,
    fun t before => ?_,?_⟩
  · rw [table]
    rcases Nat.lt_succ_iff_lt_or_eq.mp before with earlier | rfl
    · exact filled.table t earlier
    rw [← address]; exact (filled.tree.real leaf (List.mem_of_getElem? here)).1
  · rw [leafValue_write filled.tree here isLeaf address,filled.leaf,start']
    by_cases same : root' = root
    · by_cases last : key va' = key va + turns
      · rw [if_pos ⟨same,last⟩,if_pos ⟨same,by omega,by omega⟩,last]
        congr 1
        omega
      rw [if_neg (c := root' = root ∧ key va' = key va + turns) (fun both => last both.2)]
      by_cases earlier : key va ≤ key va' ∧ key va' < key va + turns
      · rw [if_pos ⟨same,earlier⟩,if_pos ⟨same,by omega,by omega⟩]
      rw [if_neg (fun all => earlier all.2),if_neg (by omega)]
    rw [if_neg (fun all => same all.1),if_neg (fun all => same all.1),if_neg (fun all => same all.1)]
  · rw [table]
    rcases Nat.lt_succ_iff_lt_or_eq.mp before with earlier | rfl
    · exact filled.fresh t earlier
    exact wasEmpty
  intro address' level index known changed
  rw [entryAt_write filled.tree.distinct here] at changed ⊢
  split_ifs at changed ⊢ with atSlot
  · obtain ⟨isAddress,isLevel,isIndex⟩ := atSlot
    rw [isAddress,isLevel,isLeaf,isIndex,address]
    refine ⟨wasEmpty,.inr ⟨rfl,turns,Nat.lt_succ_self _,(table _ _).symm,rfl⟩⟩
  obtain ⟨wasZero,cases⟩ := filled.keeps address' level index known changed
  refine ⟨wasZero,?_⟩
  rcases cases with ⟨below,walk,page,mem,points⟩ | ⟨isLevel,t,before,isTable,isIndex⟩
  · obtain ⟨page',mem',same⟩ := shape.take.exists_drop mem
    exact .inl ⟨below,walk,page',mem',same.trans points⟩
  exact .inr ⟨isLevel,t,by omega,by rw [table]; exact isTable,isIndex⟩

/-- With the leaves cleared again only the entries of new tables differ from the start. -/
theorem Filled.cleared {pages' : List UatPage} {root : U64}
    (fits : turns ≤ pageTurns length) (filled : Filled start root va value turns pages)
    (written : Written root va (fun _ => 0) 0 turns pages pages') {address : U64} {level index : Nat}
    (known : index < 2048 ∨ ∃ old ∈ start, old.physicalAddress = address ∧ old.level = level)
    (changed : entryAt pages' address level index ≠ entryAt start address level index) :
    entryAt start address level index = 0 ∧ level < 2 ∧ index < entryCount level ∧
      ∃ page ∈ pages'.drop start.length, page.physicalAddress = entryAt pages' address level index &&& addressMask := by
  -- a written leaf reads as it did at the start
  have slot : ∀ t < turns, address = leafTable pages root (pageAddress va t) → level = 2 →
      index = level2Index (pageAddress va t) → False := by
    intro t before isTable isLeaf isIndex
    subst isTable isLeaf isIndex
    apply changed
    rw [filled.fresh t before,← written.table]
    have zero := written.leaf root (pageAddress va t)
    rw [valid.page_key (by omega),if_pos ⟨rfl,by omega,by omega⟩] at zero
    exact zero
  by_cases late : entryAt pages' address level index = entryAt pages address level index
  · rw [late] at changed ⊢
    obtain ⟨empty,cases⟩ := filled.keeps address level index known changed
    rcases cases with ⟨below,inside,page,mem,points⟩ | ⟨isLeaf,t,before,isTable,isIndex⟩
    · obtain ⟨page',mem',same⟩ := written.shape.take.exists_drop mem
      exact ⟨empty,below,inside,page',mem',same.trans points⟩
    exact (slot t before isTable isLeaf isIndex).elim
  obtain ⟨isLeaf,t,_,before,isTable,isIndex⟩ := written.slot address level index late
  exact (slot t (by omega) isTable isLeaf isIndex).elim

/-- A failed turn takes the inventory back to the pages that the map started from. -/
private theorem rollbackMap_pages (tree : Tree start) (here : start[root]? = some page) (isRoot : page.level = 0)
    (filled : Filled start page.physicalAddress va value turns left.pages) (fits : turns ≤ pageTurns length) :
    (rollbackMap root va turns start.length left).pages = start := by
  obtain ⟨page',here',sameAddress,sameLevel⟩ := filled.shape.getElem here
  have written := writeLeaves_spec valid (fun _ => 0) turns 0 filled.tree here'
    (sameLevel.trans isRoot) (by omega) (fun t _ before => by rw [sameAddress]; exact filled.table t (by omega))
  rw [sameAddress] at written
  simp only [rollbackMap,releaseFrom]
  generalize writeLeaves root va (fun _ => 0) turns 0 left.pages = pages at written
  have shape := filled.shape.trans_take written.shape.take
  apply List.ext_getElem?
  intro j
  by_cases inside : j < start.length
  · obtain ⟨now,there,address,level⟩ := shape.getElem (List.getElem?_eq_getElem inside)
    have mem := List.mem_of_getElem? there
    rw [List.getElem?_take_of_lt inside,clearNewParents,List.getElem?_map,there,List.getElem?_eq_getElem inside]
    simp only [Option.map_some,Option.some.injEq]
    have read : ∀ index, now.entries index = entryAt pages start[j].physicalAddress start[j].level index := by
      intro index
      rw [← address,← level,entryAt_mem written.tree.distinct mem]
    have readStart : ∀ index, start[j].entries index = entryAt start start[j].physicalAddress start[j].level index :=
      fun index => (entryAt_mem tree.distinct (List.getElem_mem inside) index).symm
    have known : ∀ index, index < 2048 ∨ ∃ old ∈ start, old.physicalAddress = start[j].physicalAddress ∧
        old.level = start[j].level := fun _ => .inr ⟨_,List.getElem_mem inside,rfl,rfl⟩
    have cell : ∀ index, (if now.level < 2 ∧ index < entryCount now.level ∧ now.entries index &&& addressMask ≠ 0 ∧
        (pages.drop start.length).any (fun child => child.physicalAddress == now.entries index &&& addressMask)
        then 0 else now.entries index) = start[j].entries index := by
      intro index
      by_cases changed : entryAt pages start[j].physicalAddress start[j].level index =
          entryAt start start[j].physicalAddress start[j].level index
      · rw [if_neg,read,readStart,changed]
        rintro ⟨below,walk,nonzero,points⟩
        -- an old entry points to an old page
        obtain ⟨new,behind,same⟩ := List.any_eq_true.mp points
        rw [read,changed] at nonzero same
        rw [level] at below walk
        obtain ⟨old,found,_,entry⟩ := tree.child start[j].physicalAddress start[j].level index below walk (fun zero => nonzero (by rw [zero,masked_zero]))
        rw [entry,table_masked (tree.real old found).2,beq_iff_eq] at same
        obtain ⟨k,place⟩ := List.getElem?_of_mem found
        obtain ⟨old',place',oldAddress,_⟩ := shape.getElem place
        have early : old' ∈ pages.take start.length := by
          apply List.mem_of_getElem? (i := k)
          rw [List.getElem?_take_of_lt (List.getElem?_eq_some_iff.mp place).1]
          exact place'
        have nodup := written.tree.distinct
        rw [Distinct,← List.take_append_drop start.length pages,List.map_append] at nodup
        exact (List.nodup_append.mp nodup).2.2 _ (List.mem_map_of_mem early) _ (List.mem_map_of_mem behind)
          (oldAddress.trans same.symm)
      obtain ⟨empty,below,walk,new,behind,points⟩ := filled.cleared valid fits written (known index) changed
      rw [readStart,empty,if_pos]
      rw [level,read,← points]
      refine ⟨below,walk,(written.tree.real new (List.mem_of_mem_drop behind)).1,List.any_eq_true.mpr ⟨new,behind,?_⟩⟩
      exact beq_self_eq_true _
    split_ifs with leaf
    · refine UatPage.ext address (funext (fun index => ?_)) level
      rw [← cell index,if_neg (by omega)]
    refine UatPage.ext address (funext (fun index => ?_)) level
    rw [← cell index]
    simp only [Nat.lt_of_not_le leaf,true_and]
  rw [List.getElem?_eq_none (Nat.le_of_not_lt inside),List.getElem?_eq_none]
  rw [List.length_take]
  omega

end

theorem writeLeaves_shape : ∀ (turns turn : Nat) (pages : List UatPage),
    SameShape pages (writeLeaves root va value turns turn pages) := by
  intro turns
  induction turns with
  | zero => exact fun _ _ => rfl
  | succ turns ih =>
  intro turn pages
  unfold writeLeaves
  split
  · exact ih _ _
  exact (ih _ _).trans (writeEntry_shape ..)

theorem clearNewParents_shape (firstPage : Nat) (pages : List UatPage) : SameShape pages (clearNewParents firstPage pages) := by
  rw [SameShape,clearNewParents,List.map_map]
  refine List.map_congr_left (fun page _ => ?_)
  simp only [Function.comp_apply]
  split <;> rfl

private theorem rollbackMap_accounted (accounted : Accounted left) (root : Nat) (va : U64)
    (mapped firstPage : Nat) : Accounted (rollbackMap root va mapped firstPage left) := by
  refine releaseFrom_accounted (accounted.reshape ?_) firstPage
  exact (clearNewParents_shape firstPage _).trans (writeLeaves_shape mapped 0 left.pages)

/-- The descriptor of the page that a range assigns to a turn. -/
def descriptorAt (context : Nat) (protection : UatProtection) (physicalAt : Nat → U64) (turn : Nat) : U64 :=
  match encodePageDescriptor context (physicalAt turn) protection with
  | .error _ => 0
  | .ok descriptor => descriptor

variable {context : Nat} {protection : UatProtection} {physicalAt : Nat → U64}

theorem descriptorAt_ok {turn : Nat} {descriptor : U64}
    (encoded : encodePageDescriptor context (physicalAt turn) protection = .ok descriptor) :
    descriptorAt context protection physicalAt turn = descriptor := by
  rw [descriptorAt,encoded]

theorem encodePageDescriptor_error : encodePageDescriptor context physical protection ≠ .error .Ok := by
  unfold encodePageDescriptor protectionBits
  split
  · rename_i result failed
    split at failed
    · cases failed; simp
    split at failed
    · cases failed; simp
    split at failed
    · cases failed; simp
    cases failed
  split_ifs <;> simp

/-- The loop fills every turn, or leaves the pages that it started from. -/
theorem mapLeaves_spec (valid : ValidRange half va physical length)
    (tree : Tree start) (here : start[root]? = some page) (isRoot : page.level = 0)
    : ∀ {turns turn : Nat} {inventory left : UatInventory} {result : UatResult},
    turn + turns ≤ pageTurns length → Accounted inventory →
    Filled start page.physicalAddress va (descriptorAt context protection physicalAt) turn inventory.pages →
    mapLeaves context root va physicalAt protection allocator start.length turns turn inventory = (result,left) →
    left.mappings = inventory.mappings ∧ Accounted left ∧ (result ≠ .Ok → left.pages = start) ∧
      (result = .Ok → Filled start page.physicalAddress va (descriptorAt context protection physicalAt)
          (turn + turns) left.pages ∧
        ∀ t, turn ≤ t → t < turn + turns →
          ∃ descriptor, encodePageDescriptor context (physicalAt t) protection = .ok descriptor) := by
  intro turns
  induction turns with
  | zero =>
    intro turn inventory left result _ accounted filled ran
    cases ran
    exact ⟨rfl,accounted,fun bad => absurd rfl bad,fun _ => ⟨filled,fun t after before => by omega⟩⟩
  | succ turns ih =>
  intro turn inventory left result fits accounted filled ran
  obtain ⟨page',here',sameAddress,sameLevel⟩ := filled.shape.getElem here
  unfold mapLeaves at ran
  cases step : findLeaf root (pageAddress va turn) allocator inventory with
  | mk answer found =>
  obtain ⟨⟨grows,mappings,accounted'⟩,real,leaf⟩ := findLeaf_spec filled.tree accounted here' (sameLevel.trans isRoot) step
  have kept := filled.grow grows
  have undo := rollbackMap_pages valid tree here isRoot kept (by omega)
  have undone := rollbackMap_accounted accounted' root va turn start.length
  rw [step] at ran
  cases answer with
  | error failure =>
    cases ran
    exact ⟨mappings,undone,fun _ => undo,fun isOk => absurd (congrArg Except.error isOk) real⟩
  | ok place =>
  obtain ⟨isIndex,table,there,isLeaf,address⟩ := leaf place rfl
  simp only at ran
  split at ran
  · cases ran
    exact ⟨mappings,undone,fun _ => undo,nofun⟩
  rename_i empty
  split at ran
  · rename_i failure failed
    cases ran
    exact ⟨mappings,undone,fun _ => undo,
      fun isOk => absurd (failed.trans (congrArg Except.error isOk)) encodePageDescriptor_error⟩
  rename_i descriptor encoded
  rw [isIndex] at empty ran
  rw [sameAddress] at address
  have written := kept.write valid (by omega) there isLeaf address (not_not.mp empty)
  rw [descriptorAt_ok encoded] at written
  obtain ⟨kept',accounted',failing,filling⟩ :=
    ih (by omega) (accounted'.reshape (writeEntry_shape ..)) written ran
  refine ⟨kept'.trans mappings,accounted',failing,fun isOk => ?_⟩
  obtain ⟨done,encodes⟩ := filling isOk
  refine ⟨by rw [Nat.add_succ,← Nat.succ_add]; exact done,fun t after before => ?_⟩
  rcases Nat.lt_or_eq_of_le after with later | rfl
  · exact encodes t later (by omega)
  exact ⟨descriptor,encoded⟩

end WindowsOnM1.UatMap
